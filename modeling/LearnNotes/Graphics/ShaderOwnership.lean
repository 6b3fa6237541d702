import LearnNotes.Graphics.ShaderBuild
import LearnNotes.Lib.Ownership

/-!
# Who owns a program

`ProgramsOwned` is what a run should keep: each program that exists is the `_ID` of one live
shader, none is deleted twice, and no shader names a deleted one. A build over a program,
and a move of a shader that has one or onto one that does, break it: `build` and `operator=`
write over the old name, and both moves leave the name in two shaders. `programsOwned_iff`:
a run keeps ownership exactly when it does neither.
-/

namespace LearnNotes.Graphics

open Lib

/-! ## What the parts of `build` do to the programs -/

namespace ShaderSys

variable (s : ShaderSys)

@[simp] theorem programs_fopen (p : Option Nat) : (s.fopen p).2.programs = s.programs := by
  unfold fopen
  split
  · rfl
  · split <;> rfl

@[simp] theorem programs_fclose (p : Nat) : (s.fclose p).programs = s.programs := rfl

@[simp] theorem programs_glCreateShader (n : GLuint) :
    (s.glCreateShader n).2.programs = s.programs := by
  unfold glCreateShader
  split <;> rfl

@[simp] theorem programs_glDeleteShader (n : GLuint) :
    (s.glDeleteShader n).programs = s.programs := by
  unfold glDeleteShader
  split <;> rfl

end ShaderSys

namespace Shader

variable (env : BuildEnv) (s : ShaderSys)

@[simp] theorem programs_freeSource (src : Option Nat) :
    (freeSource src s).programs = s.programs := by
  cases src <;> rfl

@[simp] theorem programs_ReadFileToBuffer (read : Read) :
    (ReadFileToBuffer read s).programs = s.programs := by
  unfold ReadFileToBuffer
  cases read.src <;> rfl

@[simp] theorem programs_BuildShader (st : Stage) :
    (BuildShader st s).2.2.programs = s.programs := by
  unfold BuildShader
  dsimp only
  split_ifs <;> simp

@[simp] theorem programs_sources : (sources env s).2.programs = s.programs := by
  unfold sources
  dsimp only
  cases (s.fopen env.vertex.file).1 <;>
    cases ((s.fopen env.vertex.file).2.fopen env.fragment.file).1 <;>
    simp

@[simp] theorem programs_stages : (stages env s).2.2.2.programs = s.programs := by
  unfold stages
  dsimp only
  split_ifs <;> simp

/-- Both sources are opened and compiled: `build` goes on to `glCreateProgram`. -/
def Reaches (env : BuildEnv) (s : ShaderSys) : Prop :=
  (sources env s).1.isSome ∧ ¬ (stages env (sources env s).2).1.isSet

/-- `buildPath` calls `build`. -/
def Passes (vertexPath fragmentPath : PathStatus) : Prop :=
  ¬ vertexPath.isEmpty ∧ ¬ fragmentPath.isEmpty ∧
    ¬ vertexPath.presentEc.isSet ∧ vertexPath.regular ∧
    ¬ fragmentPath.presentEc.isSet ∧ fragmentPath.regular ∧
    vertexPath.present ∧ fragmentPath.present

/-- The same programs exist, and what was well used still is. -/
structure SamePrograms (s s' : ShaderSys) : Prop where
  tab : s'.programs.tab = s.programs.tab
  wellUsed : s.programs.WellUsed → s'.programs.WellUsed

theorem SamePrograms.of_eq {s s' : ShaderSys} (h : s'.programs = s.programs) :
    SamePrograms s s' := ⟨by rw [h], by rw [h]; exact id⟩

/-- `link` ends with name 0 and the programs as they were, or with a new program. -/
theorem link_cases :
    (SamePrograms s (link env s).2.2 ∧ (link env s).2.1 = 0) ∨
      ∃ n, n ≠ 0 ∧ n ∉ s.programs.live ∧ (link env s).2.1 = n ∧
        (link env s).2.2.programs = .create n :: s.programs := by
  by_cases hl : Links env s.programs.live
  · refine .inr ⟨env.program, hl.ne_zero, hl.fresh, ?_⟩
    rw [link_of_links hl]
    exact ⟨rfl, rfl⟩
  · obtain ⟨e, l, hidle, hlink⟩ := link_of_not_links hl
    have hfail := hlink s.files s.shaders s.buffers
    refine .inl ?_
    rw [hfail]
    exact ⟨⟨hidle.tab, hidle.wellUsed⟩, rfl⟩

theorem build_of_not_reaches (t : Shader) (h : ¬ Reaches env s) :
    (t.build env s).2.1 = t ∧ (t.build env s).2.2.programs = s.programs := by
  have hopen := programs_sources env s
  have hstage := programs_stages env (sources env s).2
  unfold Reaches at h
  unfold build
  rcases hsrc : sources env s with ⟨_ | p, s1⟩ <;> rw [hsrc] at h hopen hstage
  · exact ⟨rfl, hopen⟩
  · have hec : (stages env s1).1.isSet := by simpa using h
    dsimp only
    rw [if_pos hec]
    exact ⟨rfl, hstage.trans hopen⟩

/-- The state `link` starts in. -/
def compiled (env : BuildEnv) (s : ShaderSys) : ShaderSys :=
  (stages env (sources env s).2).2.2.2

theorem programs_compiled : (compiled env s).programs = s.programs :=
  (programs_stages env _).trans (programs_sources env s)

theorem build_of_reaches (t : Shader) (h : Reaches env s) :
    (t.build env s).2.1._ID = (link env (compiled env s)).2.1 ∧
      (t.build env s).2.2.programs = (link env (compiled env s)).2.2.programs := by
  unfold Reaches at h
  unfold build compiled
  rcases hsrc : sources env s with ⟨_ | p, s1⟩ <;> rw [hsrc] at h
  · cases h.1
  · dsimp only at h ⊢
    rw [if_neg h.2]
    simp

/-- **`build`.** Where it gets to `link`, it ends with name 0 and the programs as they were,
or with a new program. -/
theorem build_cases (t : Shader) (h : Reaches env s) :
    (SamePrograms s (t.build env s).2.2 ∧ (t.build env s).2.1._ID = 0) ∨
      ∃ n, n ≠ 0 ∧ n ∉ s.programs.live ∧ (t.build env s).2.1._ID = n ∧
        (t.build env s).2.2.programs = .create n :: s.programs := by
  obtain ⟨hid, hp⟩ := build_of_reaches env s t h
  have hc := programs_compiled env s
  rw [hid]
  rcases link_cases env (compiled env s) with ⟨⟨htab, hwell⟩, h0⟩ | ⟨n, h0, hnew, hn, hcreate⟩
  · rw [hc] at htab hwell
    exact .inl ⟨⟨by rw [hp, htab], by rw [hp]; exact hwell⟩, h0⟩
  · rw [hc] at hnew hcreate
    exact .inr ⟨n, h0, hnew, hn, by rw [hp, hcreate]⟩

theorem buildPath_eq {vertexPath fragmentPath : PathStatus} (t : Shader)
    (h : Passes vertexPath fragmentPath) :
    t.buildPath vertexPath fragmentPath env s = t.build env s := by
  obtain ⟨h1, h2, h3, h4, h5, h6, h7, h8⟩ := h
  simp [buildPath, h1, h2, h3, h4, h5, h6, h7, h8]

theorem buildPath_of_not_passes {vertexPath fragmentPath : PathStatus} (t : Shader)
    (h : ¬ Passes vertexPath fragmentPath) :
    (t.buildPath vertexPath fragmentPath env s).2 = (t, s) := by
  unfold Passes at h
  unfold buildPath
  split_ifs <;> simp_all

end Shader

/-! ## Ownership -/

namespace ShaderWorld

/-- The agreement of GL's programs with the shaders' names. -/
structure Owns (w : ShaderWorld) : Prop where
  owned : Owned w.sys.programs.tab (named Shader._ID ∘ w.objs.live)
  wellUsed : w.sys.programs.WellUsed

/-- Each program is the `_ID` of one live shader, none is deleted twice, and no shader names
a deleted one. -/
structure ProgramsOwned (w : ShaderWorld) : Prop where
  owner : ∀ n ∈ w.sys.programs.live, ∃! i, ∃ t, w.objs.live i = some t ∧ t._ID = n
  wellUsed : w.sys.programs.WellUsed
  noDangling : ∀ i t, w.objs.live i = some t → t._ID ≠ 0 → t._ID ∈ w.sys.programs.live

variable {w : ShaderWorld} {i : Nat} {t : Shader} {n : GLuint}

theorem Owns.programsOwned (h : Owns w) : ProgramsOwned w where
  owner _ hn := h.owned.owner hn
  wellUsed := h.wellUsed
  noDangling _ _ ht h0 := h.owned.exists_name ht h0

/-- What ownership needs of an operation: nothing builds over a program, and only shaders
without one are moved from and to. -/
def KeepsPrograms (w : ShaderWorld) : ShaderOp → Prop
  | .build i env => ∀ t, w.objs.live i = some t → Shader.Reaches env w.sys → t._ID = 0
  | .buildPath i vertexPath fragmentPath env => ∀ t, w.objs.live i = some t →
      Shader.Passes vertexPath fragmentPath → Shader.Reaches env w.sys → t._ID = 0
  | .moveConstruct src => ∀ other, w.objs.live src = some other → other._ID = 0
  | .moveAssign dst src => dst ≠ src → ∀ t other, w.objs.live dst = some t →
      w.objs.live src = some other → t._ID = 0 ∧ other._ID = 0
  | _ => True

/-! ## One operation -/

theorem Owns.of_same {w' : ShaderWorld} (h : Owns w) (hs : Shader.SamePrograms w.sys w'.sys)
    (ho : named Shader._ID ∘ w'.objs.live = named Shader._ID ∘ w.objs.live) : Owns w' :=
  ⟨by rw [hs.tab, ho]; exact h.owned, hs.wellUsed h.wellUsed⟩

theorem call_eq (f : Shader → ShaderSys → error_code × Shader × ShaderSys)
    (ht : w.objs.live i = some t) :
    (w.call i f).2 = ⟨w.objs.put i (some (f t w.sys).2.1), (f t w.sys).2.2⟩ := by
  unfold call
  rw [ht]

theorem call_dead (f : Shader → ShaderSys → error_code × Shader × ShaderSys)
    (ht : w.objs.live i = none) : (w.call i f).2 = w := by
  unfold call
  rw [ht]

/-- A build that gets to `glCreateProgram`. -/
theorem build_keeps (h : Owns w) (ht : w.objs.live i = some t) {env : BuildEnv}
    (hr : Shader.Reaches env w.sys) (h0 : t._ID = 0) :
    Owns (w.call i (Shader.build env)).2 := by
  rw [call_eq _ ht]
  rcases Shader.build_cases env w.sys t hr with ⟨hsame, hid⟩ | ⟨n, hn, hnew, hid, hp⟩
  · refine h.of_same hsame (Objects.comp_live_put ht ?_)
    rw [named_zero hid, named_zero h0]
  · have hfree : (named Shader._ID ∘ w.objs.live) i = none := by
      rw [Function.comp_apply, ht, named_zero h0]
    refine ⟨?_, ?_⟩
    · show Owned (Ledger.tab (t.build env w.sys).2.2.programs) _
      rw [hp, Ledger.tab_create, Objects.live_put ht, Function.comp_update,
        named_ne_zero (by rw [hid]; exact hn), hid]
      exact h.owned.grant hfree (Ledger.tab_eq_none.mpr hnew)
    · show (t.build env w.sys).2.2.programs.WellUsed
      rw [hp]
      exact ⟨hnew, h.wellUsed⟩

theorem build_needs (h : Owns w) (ht : w.objs.live i = some t) {env : BuildEnv}
    (hr : Shader.Reaches env w.sys) (h' : ProgramsOwned (w.call i (Shader.build env)).2) :
    t._ID = 0 := by
  by_contra h0
  rw [call_eq _ ht] at h'
  -- the old program stays, the shader has another name
  have hold := h.owned.exists_name ht h0
  have hstill : t._ID ∈ (t.build env w.sys).2.2.programs.live ∧
      (t.build env w.sys).2.1._ID ≠ t._ID := by
    rcases Shader.build_cases env w.sys t hr with ⟨hsame, hid⟩ | ⟨n, hn, hnew, hid, hp⟩
    · exact ⟨(Ledger.mem_live_congr hsame.tab).mpr hold, by rw [hid]; exact Ne.symm h0⟩
    · refine ⟨by rw [hp]; exact Finset.mem_insert_of_mem hold, ?_⟩
      rw [hid]
      intro hne
      exact hnew (hne ▸ hold)
  refine h.owned.no_owner ht h0 (fun j t' hj hid => ?_) (h'.owner t._ID hstill.1).exists
  rw [Objects.live_put ht] at hj
  by_cases hji : j = i
  · rw [hji, Function.update_self] at hj
    obtain rfl := Option.some.inj hj
    exact absurd hid hstill.2
  · rw [Function.update_of_ne hji] at hj
    exact ⟨j, t', hji, hj, hid⟩

theorem not_reaches_frame (h : Owns w) {f : Shader → ShaderSys → error_code × Shader × ShaderSys}
    (hf : ∀ t, w.objs.live i = some t →
      (f t w.sys).2.1 = t ∧ (f t w.sys).2.2.programs = w.sys.programs) :
    Owns (w.call i f).2 := by
  cases ht : w.objs.live i with
  | none => rw [call_dead _ ht]; exact h
  | some t =>
    obtain ⟨hid, hp⟩ := hf t ht
    rw [call_eq _ ht, hid]
    exact h.of_same (.of_eq hp) (Objects.comp_live_put ht rfl)

theorem owns_moveConstruct (h : Owns w) (src : Nat)
    (hg : ∀ other, w.objs.live src = some other → other._ID = 0) :
    Owns (w.moveConstruct src) := by
  unfold moveConstruct
  cases ho : w.objs.live src with
  | none => exact h
  | some other => exact h.of_same (.of_eq rfl) (Objects.comp_live_push (named_zero (hg other ho)))

theorem owns_moveAssign (h : Owns w) {dst src : Nat} (hg : KeepsPrograms w (.moveAssign dst src)) :
    Owns (w.moveAssign dst src) := by
  unfold moveAssign
  cases hd : w.objs.live dst with
  | none => exact h
  | some t =>
    cases hs : w.objs.live src with
    | none => exact h
    | some other =>
      by_cases hne : dst = src
      · subst hne
        obtain rfl : t = other := Option.some.inj (hd.symm.trans hs)
        exact h.of_same (.of_eq rfl) (Objects.comp_live_put hd rfl)
      · obtain ⟨h0, h0'⟩ := hg hne t other hd hs
        refine h.of_same (.of_eq rfl) (Objects.comp_live_put hd ?_)
        rw [named_zero h0, named_zero h0']

theorem owns_destroy (h : Owns w) (i : Nat) : Owns (w.destroy i) := by
  unfold destroy
  cases ht : w.objs.live i with
  | none => exact h
  | some t =>
    show Owns ⟨w.objs.put i none, t.destroy w.sys⟩
    unfold Shader.destroy
    by_cases h0 : t._ID = 0
    · rw [if_neg (not_not.mpr h0)]
      refine h.of_same (.of_eq rfl) (Objects.comp_live_put ht ?_)
      rw [named_none, named_zero h0]
    · have hi : (named Shader._ID ∘ w.objs.live) i = some (t._ID, ()) := by
        rw [Function.comp_apply, ht, named_ne_zero h0]
      rw [if_pos h0]
      unfold ShaderSys.glDeleteProgram
      rw [if_neg h0]
      refine ⟨?_, h.owned.exists_name ht h0, h.wellUsed⟩
      show Owned (Ledger.tab (.delete t._ID :: w.sys.programs)) _
      rw [Ledger.tab_delete, Objects.live_put ht, Function.comp_update]
      exact h.owned.drop hi

theorem moveConstruct_needs (h : Owns w) {src : Nat} {other : Shader}
    (ho : w.objs.live src = some other) (h' : ProgramsOwned (w.moveConstruct src)) :
    other._ID = 0 := by
  by_contra h0
  have hlive := h.owned.exists_name ho h0
  unfold moveConstruct at h'
  rw [ho] at h'
  obtain ⟨i, -, huniq⟩ := h'.owner other._ID hlive
  -- the old shader and the new one
  have h1 : src = i := huniq src ⟨other, by
    rw [Objects.live_push, Function.update_of_ne (Objects.ne_size ho), ho], rfl⟩
  have h2 : w.objs.size = i := huniq w.objs.size ⟨{ _ID := other._ID }, by
    rw [Objects.live_push, Function.update_self], rfl⟩
  exact Objects.ne_size ho (h1.trans h2.symm)

theorem moveAssign_needs (h : Owns w) {dst src : Nat} {t other : Shader} (hne : dst ≠ src)
    (hd : w.objs.live dst = some t) (hs : w.objs.live src = some other)
    (h' : ProgramsOwned (w.moveAssign dst src)) : t._ID = 0 ∧ other._ID = 0 := by
  have hafter : w.moveAssign dst src =
      { w with objs := w.objs.put dst (some { _ID := other._ID }) } := by
    unfold moveAssign
    rw [hd, hs]
  rw [hafter] at h'
  have hself : (w.objs.put dst (some { _ID := other._ID })).live dst =
      some { _ID := other._ID } := by
    rw [Objects.live_put hd, Function.update_self]
  have hother : ∀ j, j ≠ dst →
      (w.objs.put dst (some { _ID := other._ID })).live j = w.objs.live j :=
    fun j hj => by rw [Objects.live_put hd, Function.update_of_ne hj]
  have hsrc : other._ID = 0 := by
    by_contra h0
    have hlive := h.owned.exists_name hs h0
    obtain ⟨i, -, huniq⟩ := h'.owner other._ID hlive
    have h1 : dst = i := huniq dst ⟨_, hself, rfl⟩
    have h2 : src = i := huniq src ⟨other, (hother src (Ne.symm hne)).trans hs, rfl⟩
    exact hne (h1.trans h2.symm)
  refine ⟨?_, hsrc⟩
  by_contra h0
  have hlive := h.owned.exists_name hd h0
  refine h.owned.no_owner hd h0 (fun j t' hj hid => ?_) (h'.owner t._ID hlive).exists
  by_cases hjd : j = dst
  · subst hjd
    obtain rfl := Option.some.inj (hself.symm.trans hj)
    exact absurd (hid.symm.trans hsrc) h0
  · exact ⟨j, t', hjd, (hother j hjd).symm.trans hj, hid⟩

/-- Steps that meet the condition keep ownership. -/
theorem owns_next (h : Owns w) (op : ShaderOp) (hg : KeepsPrograms w op) :
    Owns (shaders.next w op) := by
  cases op with
  | construct => exact h.of_same (.of_eq rfl) (Objects.comp_live_push (named_zero rfl))
  | build i env =>
    show Owns (w.call i (Shader.build env)).2
    by_cases hr : Shader.Reaches env w.sys
    · cases ht : w.objs.live i with
      | none => rw [call_dead _ ht]; exact h
      | some t => exact build_keeps h ht hr (hg t ht hr)
    · exact not_reaches_frame h fun t _ => Shader.build_of_not_reaches env w.sys t hr
  | buildPath i vertexPath fragmentPath env =>
    show Owns (w.call i (Shader.buildPath vertexPath fragmentPath env)).2
    by_cases hp : Shader.Passes vertexPath fragmentPath
    · have hcall : Shader.buildPath vertexPath fragmentPath env = Shader.build env := by
        funext t s
        exact Shader.buildPath_eq env s t hp
      rw [hcall]
      by_cases hr : Shader.Reaches env w.sys
      · cases ht : w.objs.live i with
        | none => rw [call_dead _ ht]; exact h
        | some t => exact build_keeps h ht hr (hg t ht hp hr)
      · exact not_reaches_frame h fun t _ => Shader.build_of_not_reaches env w.sys t hr
    · refine not_reaches_frame h fun t _ => ?_
      rw [Shader.buildPath_of_not_passes env w.sys t hp]
      exact ⟨rfl, rfl⟩
  | moveConstruct src => exact owns_moveConstruct h src hg
  | moveAssign dst src => exact owns_moveAssign h hg
  | destroy i => exact owns_destroy h i

/-- A step that ends in ownership met the condition. -/
theorem keepsPrograms_of_owned (h : Owns w) (op : ShaderOp)
    (h' : ProgramsOwned (shaders.next w op)) : KeepsPrograms w op := by
  cases op with
  | build i env => exact fun t ht hr => build_needs h ht hr h'
  | buildPath i vertexPath fragmentPath env =>
    intro t ht hp hr
    have hcall : Shader.buildPath vertexPath fragmentPath env = Shader.build env := by
      funext t s
      exact Shader.buildPath_eq env s t hp
    have h'' : ProgramsOwned (w.call i (Shader.buildPath vertexPath fragmentPath env)).2 := h'
    rw [hcall] at h''
    exact build_needs h ht hr h''
  | moveConstruct src => exact fun other ho => moveConstruct_needs h ho h'
  | moveAssign dst src => exact fun hne t other hd hs => moveAssign_needs h hne hd hs h'
  | _ => trivial

theorem owns_init : Owns shaders.init := by
  refine ⟨?_, trivial⟩
  show Owned (Ledger.tab []) _
  rw [Ledger.tab_nil]
  exact Owned.empty

end ShaderWorld

open ShaderWorld

/-- **Exactly when programs stay owned.** -/
theorem programsOwned_iff (ops : List ShaderOp) :
    shaders.EveryState ops ProgramsOwned ↔ shaders.EveryStep ops KeepsPrograms :=
  Machine.everyState_iff_guard_of (fun _ h => h.programsOwned) owns_init
    (fun _ op h hg => owns_next h op hg) fun _ op h h' => keepsPrograms_of_owned h op h'

/-- A build that succeeds as program `n`. -/
def builds (n : GLuint) : BuildEnv :=
  { vertex := ⟨some 1, .static, 1, true⟩, fragment := ⟨some 2, .static, 2, true⟩,
    program := n, linked := true }

/-- Building a second time leaves the first program behind. -/
theorem rebuild_leaks :
    ¬ shaders.EveryState [.construct, .build 0 (builds 1), .build 0 (builds 2)]
      ProgramsOwned := by
  intro h
  obtain ⟨i, ⟨t, ht, hid⟩, -⟩ := h.last.owner 1 (by decide)
  match i with
  | 0 => cases ht; revert hid; decide
  | i + 1 => cases ht

end LearnNotes.Graphics
