import LearnNotes.Graphics.Shader

/-!
# What `build` does and leaves

The parts of `build` and what each makes of the ledgers, over the answers the call gets: both
streams open (`Opens`), a stage compiles (`Compiles`), the program links (`Links`). `build` clears
`ec` exactly when all of it succeeds (`build_clear_iff`). `CleansUp` is the balance a call should
leave on whatever path it takes. One path misses it: a vertex shader that compiled is not deleted
when the fragment stage fails, for that jumps over `glDeleteShader`. `build_cleansUp_iff`: there is
no other.
-/

namespace LearnNotes.Graphics

open Lib Ledger

namespace ShaderSys

variable {s : ShaderSys}

theorem fopen_fresh {p : Nat} (h : p ∉ s.files.live) :
    s.fopen (some p) = (some p, { s with files := .create p :: s.files }) := if_neg h

theorem fopen_null {p : Option Nat} (h : ¬ ∃ q, p = some q ∧ q ∉ s.files.live) :
    s.fopen p = (none, s) := by
  cases p with
  | none => rfl
  | some q => exact if_pos (not_not.mp fun hq => h ⟨q, rfl, hq⟩)

theorem glCreateShader_fresh {n : GLuint} (h0 : n ≠ 0) (h : n ∉ s.shaders.live) :
    s.glCreateShader n = (n, { s with shaders := .create n :: s.shaders }) :=
  if_neg (not_or.mpr ⟨h0, h⟩)

theorem glDeleteShader_ne_zero {n : GLuint} (h0 : n ≠ 0) :
    s.glDeleteShader n = { s with shaders := .delete n :: s.shaders } := if_neg h0

theorem glCreateProgram_fresh {n : GLuint} (h0 : n ≠ 0) (h : n ∉ s.programs.live) :
    s.glCreateProgram n = (n, { s with programs := .create n :: s.programs }) :=
  if_neg (not_or.mpr ⟨h0, h⟩)

theorem glDeleteProgram_ne_zero {n : GLuint} (h0 : n ≠ 0) :
    s.glDeleteProgram n = { s with programs := .delete n :: s.programs } := if_neg h0

end ShaderSys

namespace Shader

open ShaderSys

/-! ## What a call needs -/

/-- Both sources open. -/
def Opens (env : BuildEnv) (live : Finset Nat) : Prop :=
  ∃ v f, env.vertex.file = some v ∧ env.fragment.file = some f ∧ v ∉ live ∧ f ∉ insert v live

/-- The source is read, a shader object is created for it, and it compiles. -/
structure Compiles (st : Stage) (live : Finset GLuint) : Prop where
  read : st.read.rc = EXIT_SUCCESS
  ne_zero : st.name ≠ 0
  fresh : st.name ∉ live
  compiled : st.compiled

/-- A program is created, and it links. -/
structure Links (env : BuildEnv) (live : Finset GLuint) : Prop where
  ne_zero : env.program ≠ 0
  fresh : env.program ∉ live
  linked : env.linked

/-! ## The parts -/

variable {env : BuildEnv} {s : ShaderSys} {st : Stage}

theorem sources_of_opens (h : Opens env s.files.live) :
    ∃ v f, v ∉ s.files.live ∧ f ∉ insert v s.files.live ∧
      sources env s = (some (v, f), { s with files := .create f :: .create v :: s.files }) := by
  obtain ⟨v, f, hv, hf, hvnew, hfnew⟩ := h
  refine ⟨v, f, hvnew, hfnew, ?_⟩
  unfold sources
  rw [hv, hf, fopen_fresh hvnew]
  dsimp only
  rw [fopen_fresh (s := { s with files := .create v :: s.files }) hfnew]

/-- A stream that did open is closed again. -/
theorem sources_of_not_opens (h : ¬ Opens env s.files.live) :
    ∃ l, s.files.Since l ∅ ∧ sources env s = (none, { s with files := l }) := by
  unfold sources
  by_cases hv : ∃ v, env.vertex.file = some v ∧ v ∉ s.files.live
  · obtain ⟨v, hv, hvnew⟩ := hv
    rw [hv, fopen_fresh hvnew]
    have hf : ¬ ∃ f, env.fragment.file = some f ∧ f ∉ insert v s.files.live := fun ⟨f, hf, hfnew⟩ =>
      h ⟨v, f, hv, hf, hvnew, hfnew⟩
    dsimp only
    rw [fopen_null (s := { s with files := .create v :: s.files }) hf]
    exact ⟨_, (Since.refl s.files).create_delete (Finset.notMem_empty v), rfl⟩
  · rw [fopen_null hv]
    by_cases hf : ∃ f, env.fragment.file = some f ∧ f ∉ s.files.live
    · obtain ⟨f, hf, hfnew⟩ := hf
      dsimp only
      rw [hf, fopen_fresh hfnew]
      exact ⟨_, (Since.refl s.files).create_delete (Finset.notMem_empty f), rfl⟩
    · dsimp only
      rw [fopen_null hf]
      exact ⟨s.files, .refl _, rfl⟩

/-- The buffer of a source is freed whatever comes of the shader. -/
theorem freeSource_ReadFileToBuffer (read : Read) (s : ShaderSys) :
    ∃ b, s.buffers.Since b ∅ ∧ ∀ l, freeSource read.src
      { ReadFileToBuffer read s with shaders := l } = { s with shaders := l, buffers := b } := by
  unfold ReadFileToBuffer freeSource
  cases read.src with
  | none => exact ⟨s.buffers, .refl _, fun _ => rfl⟩
  | some p => exact ⟨_, (Since.refl s.buffers).create_delete (Finset.notMem_empty p), fun _ => rfl⟩

@[simp] theorem shaders_ReadFileToBuffer (read : Read) (s : ShaderSys) :
    (ReadFileToBuffer read s).shaders = s.shaders := by
  unfold ReadFileToBuffer
  cases read.src <;> rfl

theorem ReadFileToBuffer_of_error {read : Read} (h : read.rc ≠ EXIT_SUCCESS) (s : ShaderSys) :
    ReadFileToBuffer read s = s := by
  cases read with
  | error rc => rfl
  | _ => exact absurd rfl h

theorem checkCompile_success {name : GLuint} {success : Bool} (failed : ShaderErr) (h0 : name ≠ 0)
    (h : success) : checkCompile name success failed = EXIT_SUCCESS := if_pos ⟨h0, h⟩

theorem checkCompile_failed {name : GLuint} {success : Bool} {failed : ShaderErr}
    (h : ¬ (name ≠ 0 ∧ success)) : checkCompile name success failed = failed.code.toNat := if_neg h

/-- The codes of the stages are errors, as `SKLErr` and as `error_code`. -/
theorem code_ne_success (e : ShaderErr) : (e.code.toNat : SKLErr) ≠ EXIT_SUCCESS := by
  cases e <;> decide

theorem code_isSet (e : ShaderErr) : (make_error_code (toErrc e.code.toNat)).isSet := by
  cases e <;> decide

theorem BuildShader_of_compiles (h : Compiles st s.shaders.live) :
    ∃ b, s.buffers.Since b ∅ ∧ BuildShader st s =
      (EXIT_SUCCESS, st.name,
        { s with shaders := .create st.name :: s.shaders, buffers := b }) := by
  obtain ⟨b, hb, hfree⟩ := freeSource_ReadFileToBuffer st.read s
  refine ⟨b, hb, ?_⟩
  unfold BuildShader
  rw [if_neg (not_not.mpr h.read), glCreateShader_fresh h.ne_zero (by simpa using h.fresh)]
  dsimp only
  rw [checkCompile_success _ h.ne_zero h.compiled, if_neg (not_not.mpr rfl),
    shaders_ReadFileToBuffer, hfree]

theorem BuildShader_of_not_compiles (h : ¬ Compiles st s.shaders.live) :
    ∃ e : ShaderErr, ∃ l b, s.shaders.Idles l ∧ s.buffers.Since b ∅ ∧
      BuildShader st s = ((e.code.toNat : SKLErr), 0, { s with shaders := l, buffers := b }) := by
  unfold BuildShader
  by_cases hread : st.read.rc = EXIT_SUCCESS
  · obtain ⟨b, hb, hfree⟩ := freeSource_ReadFileToBuffer st.read s
    rw [if_neg (not_not.mpr hread)]
    refine ⟨.shader_compile_failed, ?_⟩
    by_cases hname : st.name = 0 ∨ st.name ∈ s.shaders.live
    · have hnone : (ReadFileToBuffer st.read s).glCreateShader st.name =
          (0, ReadFileToBuffer st.read s) := if_pos (by simpa using hname)
      have hsame : freeSource st.read.src (ReadFileToBuffer st.read s) = { s with buffers := b } :=
        (hfree (ReadFileToBuffer st.read s).shaders).trans (by rw [shaders_ReadFileToBuffer])
      refine ⟨s.shaders, b, .inl rfl, hb, ?_⟩
      rw [hnone]
      dsimp only
      rw [checkCompile_failed fun h => h.1 rfl, if_pos (code_ne_success _), hsame]
      rfl
    · obtain ⟨h0, hnew⟩ := not_or.mp hname
      have hfail : ¬ (st.name ≠ 0 ∧ st.compiled) := fun hc => h ⟨hread, h0, hnew, hc.2⟩
      refine ⟨.delete st.name :: .create st.name :: s.shaders, b, .inr ⟨_, hnew, rfl⟩, hb, ?_⟩
      rw [glCreateShader_fresh h0 (by simpa using hnew)]
      dsimp only
      rw [checkCompile_failed hfail, if_pos (code_ne_success _), shaders_ReadFileToBuffer, hfree,
        glDeleteShader_ne_zero h0]
  · rw [if_pos hread]
    refine ⟨.shader_source_load_failed, s.shaders, s.buffers, .inl rfl, .refl _, ?_⟩
    rw [ReadFileToBuffer_of_error hread]

/-- Both stages compile: `link` is reached. -/
structure CompilesBoth (env : BuildEnv) (live : Finset GLuint) : Prop where
  vertex : Compiles env.vertex live
  fragment : Compiles env.fragment (insert env.vertex.name live)

theorem isSet_success : (make_error_code (toErrc EXIT_SUCCESS)).isSet = false := by decide

theorem stages_of_compiles (h : CompilesBoth env s.shaders.live) :
    ∃ b, s.buffers.Since b ∅ ∧ stages env s = (make_error_code (toErrc EXIT_SUCCESS),
      env.vertex.name, env.fragment.name,
      { s with shaders := .create env.fragment.name :: .create env.vertex.name :: s.shaders,
               buffers := b }) := by
  obtain ⟨b, hb, hv⟩ := BuildShader_of_compiles h.vertex
  obtain ⟨b', hb', hf⟩ := BuildShader_of_compiles
    (s := { s with shaders := .create env.vertex.name :: s.shaders, buffers := b }) h.fragment
  refine ⟨b', hb.trans hb', ?_⟩
  unfold stages
  rw [hv]
  dsimp only
  rw [isSet_success, if_neg Bool.false_ne_true, hf]

theorem stages_of_vertex_fails (h : ¬ Compiles env.vertex s.shaders.live) :
    ∃ e : ShaderErr, ∃ l b, s.shaders.Idles l ∧ s.buffers.Since b ∅ ∧
      stages env s = (make_error_code (toErrc e.code.toNat), 0, 0,
        { s with shaders := l, buffers := b }) := by
  obtain ⟨e, l, b, hl, hb, hv⟩ := BuildShader_of_not_compiles h
  refine ⟨e, l, b, hl, hb, ?_⟩
  unfold stages
  rw [hv]
  exact if_pos (code_isSet e)

theorem stages_of_fragment_fails (hv : Compiles env.vertex s.shaders.live)
    (hf : ¬ Compiles env.fragment (insert env.vertex.name s.shaders.live)) :
    ∃ e : ShaderErr, ∃ l b, Idles (.create env.vertex.name :: s.shaders) l ∧ s.buffers.Since b ∅ ∧
      stages env s = (make_error_code (toErrc e.code.toNat), env.vertex.name, 0,
        { s with shaders := l, buffers := b }) := by
  obtain ⟨b, hb, hv⟩ := BuildShader_of_compiles hv
  obtain ⟨e, l, b', hl, hb', hf⟩ := BuildShader_of_not_compiles
    (s := { s with shaders := .create env.vertex.name :: s.shaders, buffers := b }) hf
  refine ⟨e, l, b', hl, hb.trans hb', ?_⟩
  unfold stages
  rw [hv]
  dsimp only
  rw [isSet_success, if_neg Bool.false_ne_true, hf]

theorem link_of_links (h : Links env s.programs.live) :
    link env s = (make_error_code (toErrc EXIT_SUCCESS), env.program,
      { s with programs := .create env.program :: s.programs }) := by
  unfold link
  rw [glCreateProgram_fresh h.ne_zero h.fresh]
  dsimp only
  rw [checkCompile_success _ h.ne_zero h.linked, isSet_success]
  rfl

/-- A program that does not link goes, whatever the other ledgers are. -/
theorem link_of_not_links (h : ¬ Links env s.programs.live) :
    ∃ e : ShaderErr, ∃ l, s.programs.Idles l ∧ ∀ files shaders buffers,
      link env { s with files := files, shaders := shaders, buffers := buffers } =
        (make_error_code (toErrc e.code.toNat), 0,
          { programs := l, files := files, shaders := shaders, buffers := buffers }) := by
  refine ⟨.shader_link_failed, ?_⟩
  unfold link
  by_cases hname : env.program = 0 ∨ env.program ∈ s.programs.live
  · refine ⟨s.programs, .inl rfl, fun files shaders buffers => ?_⟩
    have hnone : (ShaderSys.mk s.programs shaders files buffers).glCreateProgram env.program =
        (0, ⟨s.programs, shaders, files, buffers⟩) := if_pos hname
    rw [hnone]
    dsimp only
    rw [checkCompile_failed fun h => h.1 rfl, if_pos (code_isSet _)]
    rfl
  · obtain ⟨h0, hnew⟩ := not_or.mp hname
    refine ⟨_, .inr ⟨_, hnew, rfl⟩, fun files shaders buffers => ?_⟩
    rw [glCreateProgram_fresh (s := ⟨s.programs, shaders, files, buffers⟩) h0 hnew]
    dsimp only
    rw [checkCompile_failed fun hl => h ⟨h0, hnew, hl.2⟩, if_pos (code_isSet _),
      glDeleteProgram_ne_zero h0]

/-! ## The whole call -/

variable {t : Shader}

theorem closed {files : Ledger Nat} {v f : Nat} (hf : f ∉ insert v files.live) :
    files.Since (.delete v :: .delete f :: .create f :: .create v :: files) ∅ := by
  have hfv : f ∉ insert v (∅ : Finset Nat) := fun h => hf (Finset.insert_subset_insert v
    (Finset.empty_subset _) h)
  have hv := (Since.refl files).create (Finset.notMem_empty v)
  have hgone := (hv.create_delete hfv).delete (Finset.mem_insert_self v ∅)
  rwa [Finset.erase_insert (Finset.notMem_empty v)] at hgone

theorem build_of_not_opens (h : ¬ Opens env s.files.live) :
    ∃ l, s.files.Since l ∅ ∧
      t.build env s = (ShaderErr.shader_source_load_failed.error, t, { s with files := l }) := by
  obtain ⟨l, hl, hsrc⟩ := sources_of_not_opens h
  refine ⟨l, hl, ?_⟩
  unfold build
  rw [hsrc]

theorem build_of_vertex_fails (ho : Opens env s.files.live)
    (hv : ¬ Compiles env.vertex s.shaders.live) :
    ∃ e : ShaderErr, ∃ files shaders buffers, s.files.Since files ∅ ∧ s.shaders.Since shaders ∅ ∧
      s.buffers.Since buffers ∅ ∧ t.build env s = (make_error_code (toErrc e.code.toNat), t,
        { s with files := files, shaders := shaders, buffers := buffers }) := by
  obtain ⟨v, f, -, hf, hsrc⟩ := sources_of_opens ho
  obtain ⟨e, l, b, hl, hb, hst⟩ := stages_of_vertex_fails
    (s := { s with files := .create f :: .create v :: s.files }) hv
  refine ⟨e, _, l, b, closed hf, (Since.refl _).idles (Finset.empty_subset _) hl, hb, ?_⟩
  unfold build
  rw [hsrc]
  dsimp only
  rw [hst]
  exact if_pos (code_isSet e)

/-- The vertex shader is left. -/
theorem build_of_fragment_fails (ho : Opens env s.files.live)
    (hv : Compiles env.vertex s.shaders.live)
    (hf : ¬ Compiles env.fragment (insert env.vertex.name s.shaders.live)) :
    ∃ e : ShaderErr, ∃ files shaders buffers, s.shaders.Since shaders {env.vertex.name} ∧
      t.build env s = (make_error_code (toErrc e.code.toNat), t,
        { s with files := files, shaders := shaders, buffers := buffers }) := by
  obtain ⟨v, f, -, -, hsrc⟩ := sources_of_opens ho
  obtain ⟨e, l, b, hl, -, hst⟩ := stages_of_fragment_fails
    (s := { s with files := .create f :: .create v :: s.files }) hv hf
  have hmade := (Since.refl s.shaders).create (Finset.notMem_empty env.vertex.name)
  refine ⟨e, .delete v :: .delete f :: .create f :: .create v :: s.files, l, b,
    hmade.idles ?_ hl, ?_⟩
  · exact Finset.insert_subset_insert _ (Finset.empty_subset _)
  · unfold build
    rw [hsrc]
    dsimp only
    rw [hst]
    exact if_pos (code_isSet e)

/-- How the state is left when both stages compile, over what becomes of the programs. -/
theorem build_of_compiles (ho : Opens env s.files.live) (hc : CompilesBoth env s.shaders.live) :
    ∃ files buffers, s.files.Since files ∅ ∧ s.buffers.Since buffers ∅ ∧
      ∀ ec ID programs,
        (∀ files shaders buffers,
          link env { s with files := files, shaders := shaders, buffers := buffers } =
            (ec, ID, { s with files := files, shaders := shaders, buffers := buffers,
                              programs := programs })) →
        t.build env s = (ec, ⟨ID⟩,
          { programs := programs, files := files, buffers := buffers,
            shaders := .delete env.fragment.name :: .delete env.vertex.name ::
              .create env.fragment.name :: .create env.vertex.name :: s.shaders }) := by
  obtain ⟨v, f, -, hf, hsrc⟩ := sources_of_opens ho
  obtain ⟨b, hb, hst⟩ := stages_of_compiles
    (s := { s with files := .create f :: .create v :: s.files }) hc
  refine ⟨_, b, closed hf, hb, fun ec ID programs hlink => ?_⟩
  unfold build
  rw [hsrc]
  dsimp only
  rw [hst]
  dsimp only
  rw [isSet_success, if_neg Bool.false_ne_true, hlink]
  dsimp only
  rw [glDeleteShader_ne_zero hc.vertex.ne_zero, glDeleteShader_ne_zero hc.fragment.ne_zero]
  rfl

theorem build_of_links (ho : Opens env s.files.live) (hc : CompilesBoth env s.shaders.live)
    (hl : Links env s.programs.live) :
    ∃ files buffers, s.files.Since files ∅ ∧ s.buffers.Since buffers ∅ ∧
      t.build env s = (make_error_code (toErrc EXIT_SUCCESS), ⟨env.program⟩,
        { programs := .create env.program :: s.programs, files := files, buffers := buffers,
          shaders := .delete env.fragment.name :: .delete env.vertex.name ::
            .create env.fragment.name :: .create env.vertex.name :: s.shaders }) := by
  obtain ⟨files, buffers, hf, hb, h⟩ := build_of_compiles (t := t) ho hc
  exact ⟨files, buffers, hf, hb, h _ _ _ fun files shaders buffers => link_of_links
    (s := { s with files := files, shaders := shaders, buffers := buffers }) hl⟩

theorem build_of_not_links (ho : Opens env s.files.live) (hc : CompilesBoth env s.shaders.live)
    (hl : ¬ Links env s.programs.live) :
    ∃ e : ShaderErr, ∃ files buffers programs, s.files.Since files ∅ ∧ s.buffers.Since buffers ∅ ∧
      s.programs.Idles programs ∧
      t.build env s = (make_error_code (toErrc e.code.toNat), ⟨0⟩,
        { programs := programs, files := files, buffers := buffers,
          shaders := .delete env.fragment.name :: .delete env.vertex.name ::
            .create env.fragment.name :: .create env.vertex.name :: s.shaders }) := by
  obtain ⟨e, programs, hprograms, hlink⟩ := link_of_not_links hl
  obtain ⟨files, buffers, hf, hb, h⟩ := build_of_compiles (t := t) ho hc
  exact ⟨e, files, buffers, programs, hf, hb, hprograms, h _ _ _ hlink⟩

/-- The answers a build needs to succeed. -/
structure Succeeds (env : BuildEnv) (s : ShaderSys) : Prop where
  opens : Opens env s.files.live
  compiles : CompilesBoth env s.shaders.live
  links : Links env s.programs.live

theorem build_clear_iff (env : BuildEnv) (t : Shader) (s : ShaderSys) :
    (t.build env s).1.isSet = false ↔ Succeeds env s := by
  have hset : ∀ e : ShaderErr, (make_error_code (toErrc e.code.toNat)).isSet ≠ false :=
    fun e h => by cases h.symm.trans (code_isSet e)
  by_cases ho : Opens env s.files.live
  · by_cases hv : Compiles env.vertex s.shaders.live
    · by_cases hf : Compiles env.fragment (insert env.vertex.name s.shaders.live)
      · by_cases hl : Links env s.programs.live
        · obtain ⟨_, _, -, -, h⟩ := build_of_links (t := t) ho ⟨hv, hf⟩ hl
          rw [h]
          exact iff_of_true isSet_success ⟨ho, ⟨hv, hf⟩, hl⟩
        · obtain ⟨e, _, _, _, -, -, -, h⟩ := build_of_not_links (t := t) ho ⟨hv, hf⟩ hl
          rw [h]
          exact iff_of_false (hset e) fun h => hl h.links
      · obtain ⟨e, _, _, _, -, h⟩ := build_of_fragment_fails (t := t) ho hv hf
        rw [h]
        exact iff_of_false (hset e) fun h => hf h.compiles.fragment
    · obtain ⟨e, _, _, _, -, -, -, h⟩ := build_of_vertex_fails (t := t) ho hv
      rw [h]
      exact iff_of_false (hset e) fun h => hv h.compiles.vertex
  · obtain ⟨_, -, h⟩ := build_of_not_opens (t := t) ho
    have hset : ShaderErr.shader_source_load_failed.error.isSet ≠ false := by decide
    rw [h]
    exact iff_of_false hset fun h => ho h.opens

/-- The shader objects of a build that gets to `glLinkProgram`. -/
theorem deleted (hc : CompilesBoth env s.shaders.live) :
    s.shaders.Since (.delete env.fragment.name :: .delete env.vertex.name ::
      .create env.fragment.name :: .create env.vertex.name :: s.shaders) ∅ := by
  have hne : env.fragment.name ≠ env.vertex.name := fun h =>
    hc.fragment.fresh (h ▸ Finset.mem_insert_self _ _)
  have hv := (Since.refl s.shaders).create (Finset.notMem_empty env.vertex.name)
  have hf : env.fragment.name ∉ insert env.vertex.name (∅ : Finset GLuint) := by simpa using hne
  have hrest := (hv.create hf).delete (Finset.mem_insert_of_mem (Finset.mem_insert_self _ _))
  have hgone := hrest.delete (k := env.fragment.name) (by simpa using hne)
  have hnone : ((insert env.fragment.name (insert env.vertex.name (∅ : Finset GLuint))).erase
      env.vertex.name).erase env.fragment.name = ∅ := by
    rw [Finset.insert_comm, Finset.erase_insert (by simpa using hne.symm), Finset.erase_insert]
    exact Finset.notMem_empty _
  rwa [hnone] at hgone

/-- What a call should leave: streams, shader objects and buffers as they were, and the programs
too if it reports an error. -/
structure CleansUp (s : ShaderSys) (r : error_code × Shader × ShaderSys) : Prop where
  files : s.files.Since r.2.2.files ∅
  shaders : s.shaders.Since r.2.2.shaders ∅
  buffers : s.buffers.Since r.2.2.buffers ∅
  programs : r.1.isSet → s.programs.Since r.2.2.programs ∅

/-- **When `build` cleans up.** -/
theorem build_cleansUp_iff (env : BuildEnv) (t : Shader) (s : ShaderSys) :
    CleansUp s (t.build env s) ↔
      (Opens env s.files.live → Compiles env.vertex s.shaders.live →
        Compiles env.fragment (insert env.vertex.name s.shaders.live)) := by
  by_cases ho : Opens env s.files.live
  · by_cases hv : Compiles env.vertex s.shaders.live
    · by_cases hf : Compiles env.fragment (insert env.vertex.name s.shaders.live)
      · refine iff_of_true ?_ fun _ _ => hf
        by_cases hl : Links env s.programs.live
        · obtain ⟨files, buffers, hfiles, hbuffers, h⟩ := build_of_links (t := t) ho ⟨hv, hf⟩ hl
          rw [h]
          refine ⟨hfiles, deleted ⟨hv, hf⟩, hbuffers, fun hset => ?_⟩
          cases isSet_success.symm.trans hset
        · obtain ⟨e, files, buffers, programs, hfiles, hbuffers, hprograms, h⟩ :=
            build_of_not_links (t := t) ho ⟨hv, hf⟩ hl
          rw [h]
          exact ⟨hfiles, deleted ⟨hv, hf⟩, hbuffers, fun _ =>
            (Since.refl _).idles (Finset.empty_subset _) hprograms⟩
      · obtain ⟨e, files, shaders, buffers, hleft, h⟩ := build_of_fragment_fails (t := t) ho hv hf
        rw [h]
        refine iff_of_false (fun hclean => ?_) fun hcond => hf (hcond ho hv)
        exact Finset.singleton_ne_empty _ (hleft.unique hclean.shaders)
    · obtain ⟨e, files, shaders, buffers, hfiles, hshaders, hbuffers, h⟩ :=
        build_of_vertex_fails (t := t) ho hv
      rw [h]
      exact iff_of_true ⟨hfiles, hshaders, hbuffers, fun _ => .refl _⟩ fun _ h => absurd h hv
  · obtain ⟨l, hl, h⟩ := build_of_not_opens (t := t) ho
    rw [h]
    exact iff_of_true ⟨hl, .refl _, .refl _, fun _ => .refl _⟩ fun h => absurd h ho

/-- A fragment shader that does not compile: the vertex shader is left behind. -/
theorem fragment_fails_leaks :
    ¬ CleansUp ⟨[], [], [], []⟩ (build
      { vertex := ⟨some 1, .static, 1, true⟩, fragment := ⟨some 2, .static, 2, false⟩,
        program := 1, linked := true } {} ⟨[], [], [], []⟩) := by
  intro h
  obtain ⟨new, hnew, -, hlive⟩ := h.shaders
  have hnew' : [.delete 2, .create 2, .create 1] = new ++ ([] : Ledger GLuint) := hnew
  rw [List.append_nil] at hnew'
  subst hnew'
  exact absurd hlive (by decide)

end Shader

end LearnNotes.Graphics
