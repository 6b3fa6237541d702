import LearnNotes.Graphics.ShaderBuild
import LearnNotes.Graphics.SourceFile

/-!
# Shaders built from files

Both overloads of `build` over a file system: what `std::filesystem` says of a path, whether it
opens and what can be read from it all come from what the path names. `Reports` is what a call
should keep to: `ec` is clear only for a program that was linked in this call from two regular,
readable files that are not empty. Two kinds of input break it. The overload for paths returns with
`ec` clear when a path names a directory or a device; and both overloads build from an empty file,
or from something else that opens, if the compiler and the linker take it. `reports_iff`: there are
no others.
-/

namespace LearnNotes.Graphics

open Lib Ledger

namespace Shader

/-! ## The file system -/

/-- What a path names: its status cannot be had, there is nothing, or there is a file of some kind
with what can be read of it. A directory has a size and nothing to read. -/
inductive PathEntry where
  | unknown (e : error_code) (h : e.isSet)
  | not_found
  | regular (content : List UInt8)
  | directory (size : Nat)
  | other (content : List UInt8)

abbrev FileSystem := String → PathEntry

/-- `std::errc::no_such_file_or_directory`. -/
def no_such_file : error_code := ⟨2⟩

namespace PathEntry

/-- `exists(p, ec)`, which clears `ec` where the status is known. -/
def exists_ : PathEntry → Bool × error_code
  | unknown e _ => (false, e)
  | not_found => (false, {})
  | _ => (true, {})

/-- `is_regular_file(p, ec)`, which leaves in `ec` what `status` does. -/
def is_regular_file : PathEntry → Bool × error_code
  | unknown e _ => (false, e)
  | not_found => (false, no_such_file)
  | regular _ => (true, {})
  | _ => (false, {})

/-- What a stream on it reads; none when it cannot be opened. -/
def stream : PathEntry → Option (List UInt8)
  | unknown _ _ => none
  | not_found => none
  | regular content => some content
  | directory size => some (List.replicate size 0)
  | other content => some content

def readEnv (e : PathEntry) (env : ReadEnv) : ReadEnv :=
  match e with
  | directory _ => { env with limit := 0 }
  | _ => env

end PathEntry

def FileSystem.status (fs : FileSystem) (path : String) : PathStatus where
  isEmpty := path = ""
  present := (fs path).exists_.1
  presentEc := (fs path).exists_.2
  regular := (fs path).is_regular_file.1
  regularEc := (fs path).is_regular_file.2

/-- What else a stage is answered: the stream if the file may be read, the calls on it, the memory
the source is read into, the name and the compile status. -/
structure StageAnswers where
  file : Option Nat
  read : ReadEnv
  mem : SrcMem
  name : GLuint
  compiled : Bool

structure BuildAnswers where
  vertex : StageAnswers
  fragment : StageAnswers
  program : GLuint
  linked : Bool

def PathEntry.stage (e : PathEntry) (a : StageAnswers) : Stage where
  file := if e.stream.isSome then a.file else none
  read := sourceRead (e.stream.getD []) (e.readEnv a.read) a.mem
  name := a.name
  compiled := a.compiled

def FileSystem.env (fs : FileSystem) (vertexPath fragmentPath : String) (a : BuildAnswers) :
    BuildEnv where
  vertex := (fs vertexPath).stage a.vertex
  fragment := (fs fragmentPath).stage a.fragment
  program := a.program
  linked := a.linked

inductive Overload where
  | path
  | c_str

/-- One call of `build`. -/
def buildFrom (o : Overload) (fs : FileSystem) (vertexPath fragmentPath : String)
    (a : BuildAnswers) (t : Shader) (s : ShaderSys) : error_code × Shader × ShaderSys :=
  match o with
  | .path => t.buildPath (fs.status vertexPath) (fs.status fragmentPath)
      (fs.env vertexPath fragmentPath a) s
  | .c_str => t.build (fs.env vertexPath fragmentPath a) s

/-! ## What success should mean -/

/-- A regular file with something in it. -/
def PathEntry.IsSource (e : PathEntry) : Prop := ∃ content, e = .regular content ∧ content ≠ []

/-- The shader and the state after a build that succeeded. -/
structure Built (fs : FileSystem) (vertexPath fragmentPath : String) (a : BuildAnswers)
    (s : ShaderSys) (t' : Shader) (s' : ShaderSys) : Prop where
  vertex : (fs vertexPath).IsSource
  fragment : (fs fragmentPath).IsSource
  readable : a.vertex.file.isSome ∧ a.fragment.file.isSome
  /-- Both shader objects were made in this call. -/
  shaders : ∃ new, s'.shaders = new ++ s.shaders ∧
    .create a.vertex.name ∈ new ∧ .create a.fragment.name ∈ new
  compiled : a.vertex.compiled ∧ a.fragment.compiled
  program : t'._ID ≠ 0 ∧ s'.programs = .create t'._ID :: s.programs
  linked : a.linked

/-- A call reports success only for a built program. -/
def Reports (o : Overload) (fs : FileSystem) (vertexPath fragmentPath : String)
    (a : BuildAnswers) (t : Shader) (s : ShaderSys) : Prop :=
  let r := buildFrom o fs vertexPath fragmentPath a t s
  r.1.isSet = false → Built fs vertexPath fragmentPath a s r.2.1 r.2.2

/-! ## When a call keeps to it -/

/-- What the path names is read, and the compiler takes it. -/
structure Accepted (e : PathEntry) (a : StageAnswers) (live : Finset GLuint) : Prop where
  loads : Loads (e.stream.getD []) (e.readEnv a.read) a.mem
  ne_zero : a.name ≠ 0
  fresh : a.name ∉ live
  compiled : a.compiled

/-- Everything succeeds from `fopen` on. -/
structure Accepts (fs : FileSystem) (vertexPath fragmentPath : String) (a : BuildAnswers)
    (s : ShaderSys) : Prop where
  opens : Opens (fs.env vertexPath fragmentPath a) s.files.live
  vertex : Accepted (fs vertexPath) a.vertex s.shaders.live
  fragment : Accepted (fs fragmentPath) a.fragment (insert a.vertex.name s.shaders.live)
  links : Links (fs.env vertexPath fragmentPath a) s.programs.live

/-- What `is_regular_file` denies without an error. -/
def PathEntry.Irregular : PathEntry → Prop
  | directory _ => True
  | other _ => True
  | _ => False

def PathEntry.IsRegular (e : PathEntry) : Prop := ∃ content, e = .regular content

/-- What is accepted comes from two sources. -/
def FromSources (fs : FileSystem) (vertexPath fragmentPath : String) (a : BuildAnswers)
    (s : ShaderSys) : Prop :=
  Accepts fs vertexPath fragmentPath a s → (fs vertexPath).IsSource ∧ (fs fragmentPath).IsSource

/-- The condition for each overload. -/
def ReportsWhen (o : Overload) (fs : FileSystem) (vertexPath fragmentPath : String)
    (a : BuildAnswers) (s : ShaderSys) : Prop :=
  match o with
  | .c_str => FromSources fs vertexPath fragmentPath a s
  | .path => vertexPath ≠ "" → fragmentPath ≠ "" →
      ¬ (fs vertexPath).Irregular ∧ ((fs vertexPath).IsRegular →
        ¬ (fs fragmentPath).Irregular ∧ ((fs fragmentPath).IsRegular →
          FromSources fs vertexPath fragmentPath a s))

variable {fs : FileSystem} {vertexPath fragmentPath : String} {a : BuildAnswers} {t : Shader}
  {s : ShaderSys}

theorem compiles_stage {e : PathEntry} {b : StageAnswers} {live : Finset GLuint} :
    Compiles (e.stage b) live ↔ Accepted e b live := by
  have hread : (e.stage b).read.rc = EXIT_SUCCESS ↔
      Loads (e.stream.getD []) (e.readEnv b.read) b.mem := sourceRead_rc _ _ _
  exact ⟨fun h => ⟨hread.mp h.read, h.ne_zero, h.fresh, h.compiled⟩,
    fun h => ⟨hread.mpr h.loads, h.ne_zero, h.fresh, h.compiled⟩⟩

theorem succeeds_iff : Succeeds (fs.env vertexPath fragmentPath a) s ↔
    Accepts fs vertexPath fragmentPath a s :=
  ⟨fun h => ⟨h.opens, compiles_stage.mp h.compiles.vertex, compiles_stage.mp h.compiles.fragment,
      h.links⟩,
    fun h => ⟨h.opens, ⟨compiles_stage.mpr h.vertex, compiles_stage.mpr h.fragment⟩, h.links⟩⟩

/-- The stream of a stage was given. -/
theorem file_of_stage {e : PathEntry} {b : StageAnswers} {p : Nat} (h : (e.stage b).file = some p) :
    b.file = some p := by
  have hfile : (if e.stream.isSome then b.file else none) = some p := h
  by_cases hs : e.stream.isSome
  · rwa [if_pos hs] at hfile
  · rw [if_neg hs] at hfile
    cases hfile

theorem built (h : Accepts fs vertexPath fragmentPath a s) (hv : (fs vertexPath).IsSource)
    (hf : (fs fragmentPath).IsSource) :
    let r := t.build (fs.env vertexPath fragmentPath a) s
    Built fs vertexPath fragmentPath a s r.2.1 r.2.2 := by
  have hs := succeeds_iff.mpr h
  obtain ⟨files, buffers, -, -, hbuild⟩ := build_of_links (t := t) hs.opens hs.compiles hs.links
  obtain ⟨v, f, hvfile, hffile, -⟩ := hs.opens
  rw [hbuild]
  refine ⟨hv, hf, ⟨?_, ?_⟩, ⟨[.delete a.fragment.name, .delete a.vertex.name,
    .create a.fragment.name, .create a.vertex.name], rfl, by simp, by simp⟩,
    ⟨h.vertex.compiled, h.fragment.compiled⟩, ⟨h.links.ne_zero, rfl⟩, h.links.linked⟩
  · exact Option.isSome_of_mem (file_of_stage hvfile)
  · exact Option.isSome_of_mem (file_of_stage hffile)

theorem reports_c_str_iff : Reports .c_str fs vertexPath fragmentPath a t s ↔
    FromSources fs vertexPath fragmentPath a s := by
  have hclear := build_clear_iff (fs.env vertexPath fragmentPath a) t s
  refine ⟨fun h ha => ?_, fun h hok => ?_⟩
  · have hbuilt := h (hclear.mpr (succeeds_iff.mpr ha))
    exact ⟨hbuilt.vertex, hbuilt.fragment⟩
  · have ha := succeeds_iff.mp (hclear.mp hok)
    exact built ha (h ha).1 (h ha).2

/-! ## The overload for paths -/

/-- The error of a path that is passed over: set, unless the path is irregular. -/
def PathEntry.error (e : PathEntry) : error_code :=
  if e.exists_.2.isSet then e.exists_.2 else e.is_regular_file.2

theorem error_isSet {e : PathEntry} (hr : ¬ e.IsRegular) : e.error.isSet = false ↔ e.Irregular := by
  cases e with
  | unknown e h =>
    have herr : PathEntry.error (.unknown e h) = e := if_pos h
    rw [herr, h]
    exact iff_of_false Bool.false_ne_true.symm id
  | not_found => exact iff_of_false (by decide) id
  | regular content => exact absurd ⟨content, rfl⟩ hr
  | directory size => exact iff_of_true rfl trivial
  | other content => exact iff_of_true rfl trivial

theorem exists_of_isRegular {e : PathEntry} (h : e.IsRegular) : e.exists_ = (true, {}) := by
  obtain ⟨content, rfl⟩ := h
  rfl

theorem not_irregular {e : PathEntry} (h : e.IsRegular) : ¬ e.Irregular := by
  obtain ⟨content, rfl⟩ := h
  exact id

theorem is_regular_file_iff {e : PathEntry} : e.is_regular_file.1 ↔ e.IsRegular := by
  cases e with
  | regular content => exact iff_of_true rfl ⟨content, rfl⟩
  | _ => exact iff_of_false Bool.false_ne_true fun ⟨_, h⟩ => PathEntry.noConfusion h

theorem path_empty (h : vertexPath = "" ∨ fragmentPath = "") :
    buildFrom .path fs vertexPath fragmentPath a t s =
      (ShaderErr.invalid_argument.error, t, s) := by
  have hempty : ((fs.status vertexPath).isEmpty || (fs.status fragmentPath).isEmpty) = true := by
    rcases h with rfl | rfl
    · exact Bool.true_or _
    · exact Bool.or_true _
  exact if_pos hempty

/-- The two checks of a path, over what follows them. -/
theorem check_fails (r : error_code × Shader × ShaderSys) (h : ¬ (fs vertexPath).IsRegular) :
    (if (fs.status vertexPath).presentEc.isSet then ((fs.status vertexPath).presentEc, t, s)
      else if !(fs.status vertexPath).regular then ((fs.status vertexPath).regularEc, t, s)
      else r) = ((fs vertexPath).error, t, s) := by
  have hfile : (fs vertexPath).is_regular_file.1 = false :=
    Bool.eq_false_iff.mpr (mt is_regular_file_iff.mp h)
  unfold FileSystem.status PathEntry.error
  dsimp only
  rw [hfile]
  by_cases hset : (fs vertexPath).exists_.2.isSet
  · rw [if_pos hset, if_pos hset]
  · rw [if_neg hset, if_neg hset]
    rfl

theorem check_passes (r : error_code × Shader × ShaderSys) (h : (fs vertexPath).IsRegular) :
    (if (fs.status vertexPath).presentEc.isSet then ((fs.status vertexPath).presentEc, t, s)
      else if !(fs.status vertexPath).regular then ((fs.status vertexPath).regularEc, t, s)
      else r) = r := by
  have hfile : (fs.status vertexPath).regular = true := is_regular_file_iff.mpr h
  have hec : (fs.status vertexPath).presentEc = {} := congrArg Prod.snd (exists_of_isRegular h)
  rw [hfile, hec]
  rfl

theorem status_not_empty (hv : vertexPath ≠ "") (hf : fragmentPath ≠ "") :
    ¬ ((fs.status vertexPath).isEmpty || (fs.status fragmentPath).isEmpty) = true := by
  simp [FileSystem.status, hv, hf]

theorem path_vertex (hv : vertexPath ≠ "") (hf : fragmentPath ≠ "")
    (h : ¬ (fs vertexPath).IsRegular) :
    buildFrom .path fs vertexPath fragmentPath a t s = ((fs vertexPath).error, t, s) :=
  (if_neg (status_not_empty hv hf)).trans (check_fails _ h)

theorem path_fragment (hv : vertexPath ≠ "") (hf : fragmentPath ≠ "")
    (hreg : (fs vertexPath).IsRegular) (h : ¬ (fs fragmentPath).IsRegular) :
    buildFrom .path fs vertexPath fragmentPath a t s = ((fs fragmentPath).error, t, s) :=
  (if_neg (status_not_empty hv hf)).trans ((check_passes _ hreg).trans (check_fails _ h))

theorem path_regular (hv : vertexPath ≠ "") (hf : fragmentPath ≠ "")
    (hreg : (fs vertexPath).IsRegular) (hreg' : (fs fragmentPath).IsRegular) :
    buildFrom .path fs vertexPath fragmentPath a t s =
      buildFrom .c_str fs vertexPath fragmentPath a t s := by
  have hthere : ((fs.status vertexPath).present && (fs.status fragmentPath).present) = true := by
    have hv' : (fs.status vertexPath).present = true := congrArg Prod.fst (exists_of_isRegular hreg)
    have hf' : (fs.status fragmentPath).present = true :=
      congrArg Prod.fst (exists_of_isRegular hreg')
    rw [hv', hf']
    rfl
  refine (if_neg (status_not_empty hv hf)).trans
    ((check_passes _ hreg).trans ((check_passes _ hreg').trans (if_neg ?_)))
  rw [hthere]
  exact Bool.false_ne_true

/-- A call that ends with the error of a path keeps to it unless that path is irregular. -/
theorem reports_of_error {o : Overload} {e : PathEntry} (hr : ¬ e.IsRegular)
    (h : buildFrom o fs vertexPath fragmentPath a t s = (e.error, t, s))
    (he : e = fs vertexPath ∨ e = fs fragmentPath) :
    Reports o fs vertexPath fragmentPath a t s ↔ ¬ e.Irregular := by
  unfold Reports
  rw [h]
  refine ⟨fun hrep hirr => hr ?_, fun hirr hclear => absurd ((error_isSet hr).mp hclear) hirr⟩
  have hbuilt := hrep ((error_isSet hr).mpr hirr)
  rcases he with rfl | rfl
  · exact hbuilt.vertex.imp fun _ h => h.1
  · exact hbuilt.fragment.imp fun _ h => h.1

theorem reports_path_iff (hv : vertexPath ≠ "") (hf : fragmentPath ≠ "") :
    Reports .path fs vertexPath fragmentPath a t s ↔
      ¬ (fs vertexPath).Irregular ∧ ((fs vertexPath).IsRegular →
        ¬ (fs fragmentPath).Irregular ∧ ((fs fragmentPath).IsRegular →
          FromSources fs vertexPath fragmentPath a s)) := by
  by_cases hreg : (fs vertexPath).IsRegular
  · by_cases hreg' : (fs fragmentPath).IsRegular
    · have hsame : Reports .path fs vertexPath fragmentPath a t s ↔
          Reports .c_str fs vertexPath fragmentPath a t s := by
        unfold Reports
        rw [path_regular hv hf hreg hreg']
      rw [hsame, reports_c_str_iff]
      exact ⟨fun h => ⟨not_irregular hreg, fun _ => ⟨not_irregular hreg', fun _ => h⟩⟩,
        fun h => (h.2 hreg).2 hreg'⟩
    · rw [reports_of_error hreg' (path_fragment hv hf hreg hreg') (.inr rfl)]
      exact ⟨fun h => ⟨not_irregular hreg, fun _ => ⟨h, fun h' => absurd h' hreg'⟩⟩,
        fun h => (h.2 hreg).1⟩
  · rw [reports_of_error hreg (path_vertex hv hf hreg) (.inl rfl)]
    exact ⟨fun h => ⟨h, fun h' => absurd h' hreg⟩, fun h => h.1⟩

/-- **When success means a built program.** -/
theorem reports_iff (o : Overload) (fs : FileSystem) (vertexPath fragmentPath : String)
    (a : BuildAnswers) (t : Shader) (s : ShaderSys) :
    Reports o fs vertexPath fragmentPath a t s ↔ ReportsWhen o fs vertexPath fragmentPath a s := by
  cases o with
  | c_str => exact reports_c_str_iff
  | path =>
    by_cases hempty : vertexPath = "" ∨ fragmentPath = ""
    · have hset : ShaderErr.invalid_argument.error.isSet ≠ false := by decide
      unfold Reports
      rw [path_empty hempty]
      refine iff_of_true (fun h => absurd h hset) fun hv hf => ?_
      exact absurd hempty (not_or.mpr ⟨hv, hf⟩)
    · obtain ⟨hv, hf⟩ := not_or.mp hempty
      rw [reports_path_iff hv hf]
      exact ⟨fun h _ _ => h, fun h => h hv hf⟩

/-- Directories in the place of the sources: nothing is built, and no error is reported. -/
theorem directory_reports_success :
    ¬ Reports .path (fun _ => .directory 4096) "shader.vert" "shader.frag"
      { vertex := ⟨some 1, { limit := 0 }, .init, 1, true⟩,
        fragment := ⟨some 2, { limit := 0 }, .init, 2, true⟩, program := 1, linked := true } {}
      ⟨[], [], [], []⟩ := by
  intro h
  obtain ⟨content, hdir, -⟩ := (h rfl).vertex
  cases hdir

end Shader

end LearnNotes.Graphics
