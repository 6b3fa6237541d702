import Mathlib

/-!
# Texture parameters and the configuration list

`TexParam`, `TexConfig` and the list updates of `texture.cpp`'s anonymous
namespace. `F` stands for `GLfloat`; the code only compares floats, with an `==` that need
not be equality (a NaN differs from itself, the two zeros do not differ). The union in
`TexParam` is the constructor its tag selects, so a read of another member has no
value here (`applied`).
-/

namespace LearnNotes.Graphics

abbrev GLuint := Nat
abbrev GLenum := Nat
abbrev GLint := Int

def GL_TEXTURE_BORDER_COLOR : GLenum := 0x1004

/-- The tag and the union member it selects. -/
inductive TexParam (F : Type) where
  | I1 (i : GLint)
  | F1 (f : F)
  | I4 (iv : Vector GLint 4)
  | F4 (fv : Vector F 4)
  deriving DecidableEq

structure TexConfig (F : Type) where
  param : TexParam F
  pname : GLenum
  dirty : Bool
  deriving DecidableEq

inductive UpdateMode where
  | merge
  | replace
  | append
  | update
  | remove
  deriving DecidableEq

section Lists

variable {F : Type} [BEq F]

/-- `TexParam::operator==`. -/
def TexParam.eq : TexParam F → TexParam F → Bool
  | .I1 i, .I1 j => i == j
  | .F1 f, .F1 g => f == g
  | .I4 iv, .I4 jv => iv == jv
  | .F4 fv, .F4 gv => fv == gv
  | _, _ => false

omit [BEq F] in
/-- The position of the first entry for `pname`. -/
def find_cfg_by_pname (cfgs : List (TexConfig F)) (pname : GLenum) : Option Nat :=
  cfgs.findIdx? (·.pname == pname)

/-- The entry marked for sending. -/
def TexConfig.marked (cfg : TexConfig F) : TexConfig F := { cfg with dirty := true }

def replace_cfgs (incoming : List (TexConfig F)) : List (TexConfig F) :=
  incoming.map TexConfig.marked

/-- `if (it->param != newCfg.param) …`, at position `it`: the list and the texture's flag. -/
def overwrite (it : Nat) (newCfg : TexConfig F) (st : List (TexConfig F) × Bool) :
    List (TexConfig F) × Bool :=
  match st.1[it]? with
  | none => st
  | some old =>
    if old.param.eq newCfg.param then st
    else (st.1.set it { old with param := newCfg.param, dirty := true }, true)

def merge_one (st : List (TexConfig F) × Bool) (newCfg : TexConfig F) :
    List (TexConfig F) × Bool :=
  match find_cfg_by_pname st.1 newCfg.pname with
  | none => (st.1 ++ [newCfg.marked], st.2)
  | some it => overwrite it newCfg st

def merge_cfgs (current incoming : List (TexConfig F)) (dirty : Bool) :
    List (TexConfig F) × Bool :=
  incoming.foldl merge_one (current, dirty)

def append_one (current : List (TexConfig F)) (newCfg : TexConfig F) : List (TexConfig F) :=
  if current.any (·.pname == newCfg.pname) then current else current ++ [newCfg.marked]

def append_cfgs (current incoming : List (TexConfig F)) : List (TexConfig F) :=
  incoming.foldl append_one current

def update_one (st : List (TexConfig F) × Bool) (newCfg : TexConfig F) :
    List (TexConfig F) × Bool :=
  match find_cfg_by_pname st.1 newCfg.pname with
  | none => st
  | some it => overwrite it newCfg st

def update_cfgs (current incoming : List (TexConfig F)) (dirty : Bool) :
    List (TexConfig F) × Bool :=
  incoming.foldl update_one (current, dirty)

def remove_cfgs (current incoming : List (TexConfig F)) : List (TexConfig F) :=
  current.filter fun cfg => !(incoming.map (·.pname)).contains cfg.pname

/-- The `switch` of `set_config(vector, policy)`; a list update that takes no flag leaves it. -/
def switch_cfgs (policy : UpdateMode) (current incoming : List (TexConfig F)) (dirty : Bool) :
    List (TexConfig F) × Bool :=
  match policy with
  | .replace => (replace_cfgs incoming, dirty)
  | .merge => merge_cfgs current incoming dirty
  | .append => (append_cfgs current incoming, dirty)
  | .update => update_cfgs current incoming dirty
  | .remove => (remove_cfgs current incoming, dirty)

/-! ## What the updates can leave in the list -/

/-- An update step leaves old entries and entries marked for sending. -/
def Marks (old new : List (TexConfig F)) : Prop := ∀ c ∈ new, c ∈ old ∨ c.dirty = true

omit [BEq F] in
theorem Marks.refl (l : List (TexConfig F)) : Marks l l := fun _ h => .inl h

omit [BEq F] in
theorem Marks.trans {l₁ l₂ l₃ : List (TexConfig F)} (h₁ : Marks l₁ l₂) (h₂ : Marks l₂ l₃) :
    Marks l₁ l₃ := fun c hc => (h₂ c hc).elim (h₁ c) .inr

theorem overwrite_marks (it : Nat) (newCfg : TexConfig F) (st : List (TexConfig F) × Bool) :
    Marks st.1 (overwrite it newCfg st).1 := by
  unfold overwrite
  split
  · exact Marks.refl _
  · split
    · exact Marks.refl _
    · intro c hc
      rcases List.mem_or_eq_of_mem_set hc with hc | rfl
      · exact .inl hc
      · exact .inr rfl

omit [BEq F] in
theorem push_marks (l : List (TexConfig F)) (newCfg : TexConfig F) :
    Marks l (l ++ [newCfg.marked]) := by
  intro c hc
  rcases List.mem_append.mp hc with hc | hc
  · exact .inl hc
  · rw [List.mem_singleton.mp hc]
    exact .inr rfl

theorem merge_marks (incoming : List (TexConfig F)) (st : List (TexConfig F) × Bool) :
    Marks st.1 (incoming.foldl merge_one st).1 := by
  induction incoming generalizing st with
  | nil => exact Marks.refl _
  | cons c cs ih =>
    refine Marks.trans ?_ (ih (merge_one st c))
    unfold merge_one
    split
    · exact push_marks _ _
    · exact overwrite_marks _ _ _

theorem update_marks (incoming : List (TexConfig F)) (st : List (TexConfig F) × Bool) :
    Marks st.1 (incoming.foldl update_one st).1 := by
  induction incoming generalizing st with
  | nil => exact Marks.refl _
  | cons c cs ih =>
    refine Marks.trans ?_ (ih (update_one st c))
    unfold update_one
    split
    · exact Marks.refl _
    · exact overwrite_marks _ _ _

omit [BEq F] in
theorem append_marks (incoming current : List (TexConfig F)) :
    Marks current (incoming.foldl append_one current) := by
  induction incoming generalizing current with
  | nil => exact Marks.refl _
  | cons c cs ih =>
    refine Marks.trans ?_ (ih (append_one current c))
    unfold append_one
    split
    · exact Marks.refl _
    · exact push_marks _ _

/-- **Every policy leaves only old entries and entries marked for sending.** -/
theorem switch_marks (policy : UpdateMode) (current incoming : List (TexConfig F)) (dirty : Bool) :
    Marks current (switch_cfgs policy current incoming dirty).1 := by
  cases policy with
  | replace =>
    intro c hc
    obtain ⟨c', -, rfl⟩ := List.mem_map.mp hc
    exact .inr rfl
  | merge => exact merge_marks incoming (current, dirty)
  | append => exact append_marks incoming current
  | update => exact update_marks incoming (current, dirty)
  | remove => exact fun c hc => .inl (List.mem_filter.mp hc).1

end Lists

/-! ## Sending -/

variable {F : Type}

/-- `apply(pname, param)`: the value the `glTexParameter*` call passes, as the union member the
call reads; `none` where that is not the member the tag selects. -/
def applied (pname : GLenum) (param : TexParam F) : Option (TexParam F) :=
  if pname = GL_TEXTURE_BORDER_COLOR then
    match param with
    | .I4 iv => some (.I4 iv)
    | .F4 fv => some (.F4 fv)
    | _ => none
  else
    match param with
    | .I1 i => some (.I1 i)
    | .F1 f => some (.F1 f)
    | _ => none

/-- `glTexParameter*` on one texture: the values GL holds for it. -/
abbrev Params (F : Type) := GLenum → Option (TexParam F)

/-- The loop of `update()`: send the dirty entries in order and clear their flags. -/
def flush : List (TexConfig F) → Params F → List (TexConfig F) × Params F
  | [], params => ([], params)
  | cfg :: cfgs, params =>
    if cfg.dirty then
      let (cfgs, params) :=
        flush cfgs (Function.update params cfg.pname (applied cfg.pname cfg.param))
      ({ cfg with dirty := false } :: cfgs, params)
    else
      let (cfgs, params) := flush cfgs params
      (cfg :: cfgs, params)

theorem applied_eq {pname : GLenum} {param v : TexParam F} (h : applied pname param = some v) :
    v = param := by
  unfold applied at h
  split at h <;> cases param <;> simp_all

theorem flush_cfgs (cfgs : List (TexConfig F)) (params : Params F) :
    (flush cfgs params).1 = cfgs.map fun cfg => { cfg with dirty := false } := by
  induction cfgs generalizing params with
  | nil => rfl
  | cons cfg cfgs ih =>
    unfold flush
    split
    · simp [ih]
    · next hd =>
      obtain ⟨param, pname, dirty⟩ := cfg
      simp only [Bool.not_eq_true] at hd
      subst hd
      simp [ih]

/-- GL keeps the value of a name with no dirty entry. -/
theorem flush_params_of_clean {cfgs : List (TexConfig F)} {p : GLenum} (params : Params F)
    (h : ∀ c ∈ cfgs, c.pname = p → c.dirty = false) : (flush cfgs params).2 p = params p := by
  induction cfgs generalizing params with
  | nil => rfl
  | cons cfg cfgs ih =>
    have ih' := fun params => ih params fun c hc => h c (List.mem_cons_of_mem _ hc)
    unfold flush
    split
    · next hd =>
      have hne : p ≠ cfg.pname := fun e => by
        rw [h cfg List.mem_cons_self e.symm] at hd
        cases hd
      simp only [ih', Function.update_of_ne hne]
    · simp only [ih']

/-- The value of a name with a dirty entry is the one its last dirty entry sent. -/
theorem flush_params_of_dirty {cfgs : List (TexConfig F)} {p : GLenum} (params : Params F)
    (h : ∃ c ∈ cfgs, c.pname = p ∧ c.dirty = true) :
    ∃ e ∈ cfgs, e.pname = p ∧ e.dirty = true ∧ (flush cfgs params).2 p = applied p e.param := by
  induction cfgs generalizing params with
  | nil => simp at h
  | cons cfg cfgs ih =>
    by_cases hrest : ∃ c ∈ cfgs, c.pname = p ∧ c.dirty = true
    · unfold flush
      split
      · obtain ⟨e, he, hp, hd, hv⟩ := ih (Function.update params _ _) hrest
        exact ⟨e, List.mem_cons_of_mem _ he, hp, hd, hv⟩
      · obtain ⟨e, he, hp, hd, hv⟩ := ih params hrest
        exact ⟨e, List.mem_cons_of_mem _ he, hp, hd, hv⟩
    · -- the head is the only dirty entry for `p`
      obtain ⟨c, hc, hp, hd⟩ := h
      rcases List.mem_cons.mp hc with rfl | hc
      · refine ⟨c, List.mem_cons_self, hp, hd, ?_⟩
        unfold flush
        rw [if_pos hd]
        simp only
        rw [flush_params_of_clean _ fun c' hc' hp' => ?_, hp, Function.update_self]
        by_contra hd'
        exact hrest ⟨c', hc', hp', by simpa using hd'⟩
      · exact absurd ⟨c, hc, hp, hd⟩ hrest

end LearnNotes.Graphics
