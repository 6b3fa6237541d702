import LearnNotes.Lib.Comparison
import LearnNotes.Graphics.ConfigPolicy

/-!
# Comparing configurations

`TexParam` and `TexConfig` as they lie in memory: the union is four words, and `set` writes the
first of them or all. What is behind the member that the tag selects stays from before, and
`TexParam::operator==` does not look at it (`eq_value`, `eq_set_iff`). So the list updates, which
test parameters with it, miss no change and repeat none (`overwrite_value`, `overwrite_detects`).

`TexConfig::operator==` asks for names that differ. No configuration equals itself, and what else
fails is in `equality_iff`. The list updates do not use it.
-/

namespace LearnNotes.Graphics

open Lib.Comparison

/-- Over floats with an equality, `operator==` is equality of tag and member. -/
theorem TexParam.eq_iff {F : Type} [BEq F] [LawfulBEq F] {p q : TexParam F} :
    p.eq q = true ↔ p = q := by
  cases p <;> cases q <;> simp [TexParam.eq]

namespace Stored

/-- 32 bits of memory, an `int` or a `float`. -/
abbrev Word := BitVec 32

/-- The four tags. The `return false` behind the `switch` is for a byte that is none of them. -/
inductive Tparam where
  | I1
  | F1
  | I4
  | F4
  deriving DecidableEq

structure TexParam where
  data : Fin 4 → Word
  type : Tparam

structure TexConfig where
  param : TexParam
  pname : GLenum
  dirty : Bool

variable {F : Type} (float : Word → F)

namespace TexParam

/-! ## The union -/

/-- `data.i`. -/
def i (p : TexParam) : GLint := (p.data 0).toInt

/-- `data.f`. -/
def f (p : TexParam) : F := float (p.data 0)

/-- `data.iv`. -/
def iv (p : TexParam) : Vector GLint 4 := Vector.ofFn fun k => (p.data k).toInt

/-- `data.fv`. -/
def fv (p : TexParam) : Vector F 4 := Vector.ofFn fun k => float (p.data k)

/-- The tag, with the member it selects. -/
def value (p : TexParam) : Graphics.TexParam F :=
  match p.type with
  | .I1 => .I1 p.i
  | .F1 => .F1 (p.f float)
  | .I4 => .I4 p.iv
  | .F4 => .F4 (p.fv float)

/-- `dataIn` points to four words, or to the one that is read. -/
def set (tname : Tparam) (dataIn : Fin 4 → Word) (p : TexParam) : TexParam :=
  let p := { p with type := tname }
  match tname with
  | .I1 => { p with data := Function.update p.data 0 (dataIn 0) }
  | .F1 => { p with data := Function.update p.data 0 (dataIn 0) }
  | .I4 => { p with data := dataIn }
  | .F4 => { p with data := dataIn }

/-! ## The operators -/

section

variable [BEq F]

/-- `operator==`. -/
def eq (p other : TexParam) : Bool :=
  if p.type ≠ other.type then false
  else
    match p.type with
    | .I1 => p.i == other.i
    | .F1 => p.f float == other.f float
    | .I4 => p.iv == other.iv
    | .F4 => p.fv float == other.fv float

/-- `operator!=`. -/
def ne (p other : TexParam) : Bool := !p.eq float other

/-- **The values are compared**, as the list updates do it. -/
theorem eq_value (p q : TexParam) : p.eq float q = (p.value float).eq (q.value float) := by
  obtain ⟨data, type⟩ := p
  obtain ⟨data', type'⟩ := q
  cases type <;> cases type' <;> rfl

end

/-- What was in the union before does not show. -/
theorem value_set (tname : Tparam) (dataIn : Fin 4 → Word) (p : TexParam) :
    (p.set tname dataIn).value float = value float ⟨dataIn, tname⟩ := by
  cases tname <;> rfl

variable [DecidableEq F] {p q : TexParam}

/-- **Equal are those with the same tag and the same member under it.** -/
theorem eq_iff_value (p q : TexParam) :
    p.eq float q = true ↔ p.value float = q.value float := by
  rw [eq_value, Graphics.TexParam.eq_iff]

theorem eq_set_iff {t u : Tparam} {dataIn dataIn' : Fin 4 → Word} :
    (p.set t dataIn).eq float (q.set u dataIn') = true ↔
      value float ⟨dataIn, t⟩ = value float ⟨dataIn', u⟩ := by
  rw [eq_iff_value, value_set, value_set]

theorem isEquality (p q r : TexParam) :
    IsEquality (eq float) (ne float) (value float) p q r :=
  isEquality_of_iff (eq_iff_value float) (fun _ _ => rfl) p q r

end TexParam

/-! ## Configurations -/

namespace TexConfig

/-- The configuration with the value of its parameter. -/
def value (c : TexConfig) : Graphics.TexConfig F := ⟨c.param.value float, c.pname, c.dirty⟩

/-- What there is to compare. -/
def key (c : TexConfig) : GLenum × Graphics.TexParam F := (c.pname, c.param.value float)

section

variable [BEq F]

/-- `operator==`: the names are to differ. -/
def eq (c other : TexConfig) : Bool := c.pname != other.pname && c.param.eq float other.param

/-- `operator!=`. -/
def ne (c other : TexConfig) : Bool := !c.eq float other

/-- `if (it->param != newCfg.param) …` of the list updates, on the entry. -/
def overwrite (it newCfg : TexConfig) : TexConfig :=
  if it.param.ne float newCfg.param then { it with param := newCfg.param, dirty := true } else it

/-- The entry goes through what its value goes through. -/
theorem overwrite_value (it newCfg : TexConfig) :
    (it.overwrite float newCfg).value float =
      (it.value float).overwrite (newCfg.value float) := by
  unfold overwrite TexParam.ne Graphics.TexConfig.overwrite
  rw [TexParam.eq_value]
  show value float _ = if (it.param.value float).eq (newCfg.param.value float) then _ else _
  cases (it.param.value float).eq (newCfg.param.value float) <;> rfl

end

variable [DecidableEq F] {a b c : TexConfig}

/-- **A change of value is taken over and marked, and nothing else is.** -/
theorem overwrite_detects (it newCfg : TexConfig) :
    (it.overwrite float newCfg).param.value float = newCfg.param.value float ∧
      if it.param.value float = newCfg.param.value float then it.overwrite float newCfg = it
      else (it.overwrite float newCfg).dirty = true := by
  have htest := TexParam.eq_iff_value float it.param newCfg.param
  unfold overwrite TexParam.ne
  by_cases hsame : it.param.value float = newCfg.param.value float
  · rw [if_pos hsame, htest.mpr hsame]
    exact ⟨hsame, rfl⟩
  · rw [if_neg hsame, Bool.eq_false_of_not_eq_true (mt htest.mp hsame)]
    exact ⟨rfl, rfl⟩

/-- Two configurations with one parameter, under two names. -/
abbrev Twins (a b : TexConfig) : Prop := Apart pname (fun c => c.param.value float) a b

theorem eq_iff_twins : a.eq float b = true ↔ Twins float a b := by
  rw [eq, Bool.and_eq_true, bne_iff_ne, TexParam.eq_iff_value, Twins, Apart]

theorem eq_self (a : TexConfig) : a.eq float a = false := by
  rw [← Bool.not_eq_true, eq_iff_twins]
  exact not_apart_self a

theorem eq_symm (h : a.eq float b = true) : b.eq float a = true :=
  (eq_iff_twins float).mpr ((eq_iff_twins float).mp h).symm

theorem eq_trans_iff :
    (a.eq float b = true → b.eq float c = true → a.eq float c = true) ↔
      ¬ (Twins float a b ∧ Twins float b c ∧ a.pname = c.pname) := by
  rw [eq_iff_twins, eq_iff_twins, eq_iff_twins]
  exact apart_trans_iff

theorem eq_iff_key :
    (a.eq float b = true ↔ a.key float = b.key float) ↔
      a.param.value float ≠ b.param.value float := by
  rw [eq_iff_twins]
  exact apart_iff_key

theorem not_isEquality (a b c : TexConfig) :
    ¬ IsEquality (eq float) (ne float) (key float) a b c := by
  intro h
  have hself := h.refl
  rw [eq_self] at hself
  cases hself

end TexConfig

/-- **The operators of `TexParam`** are an equality and its negation. **Those of `TexConfig`** are
not on any values: `==` never relates a configuration to itself; it is right about two others iff
their parameters differ; it is symmetric, and transitive but from one name to another and back with
the same parameter; `!=` is its negation. -/
theorem equality_iff [DecidableEq F] :
    (∀ p q r : TexParam,
        IsEquality (TexParam.eq float) (TexParam.ne float) (TexParam.value float) p q r) ∧
      ∀ a b c : TexConfig,
        ¬ IsEquality (TexConfig.eq float) (TexConfig.ne float) (TexConfig.key float) a b c ∧
          a.eq float a = false ∧ (a.eq float b = true → b.eq float a = true) ∧
          ((a.eq float b = true → b.eq float c = true → a.eq float c = true) ↔
            ¬ (a.pname ≠ b.pname ∧ a.pname = c.pname ∧
              a.param.value float = b.param.value float ∧
              b.param.value float = c.param.value float)) ∧
          ((a.eq float b = true ↔ a.key float = b.key float) ↔
            a.param.value float ≠ b.param.value float) ∧
          a.ne float b = !a.eq float b := by
  refine ⟨TexParam.isEquality float, fun a b c => ?_⟩
  refine ⟨TexConfig.not_isEquality float a b c, TexConfig.eq_self float a,
    TexConfig.eq_symm float, ?_, TexConfig.eq_iff_key float, rfl⟩
  rw [TexConfig.eq_trans_iff]
  apply not_congr
  constructor
  · rintro ⟨⟨hab, hparam⟩, ⟨-, hparam'⟩, hac⟩
    exact ⟨hab, hac, hparam, hparam'⟩
  · rintro ⟨hab, hac, hparam, hparam'⟩
    exact ⟨⟨hab, hparam⟩, ⟨fun hbc => hab (hac.trans hbc.symm), hparam'⟩, hac⟩

/-- A name set to `GL_REPEAT`, in a configuration that was zero before. -/
def repeating (pname : GLenum) : TexConfig where
  param := TexParam.set .I1 (fun _ => BitVec.ofInt 32 GL_REPEAT) ⟨fun _ => 0, .I1⟩
  pname := pname
  dirty := true

/-- The wrapping in one direction does not equal itself, and equals that in the other. -/
theorem wrapS_equals_wrapT :
    (repeating GL_TEXTURE_WRAP_S).eq id (repeating GL_TEXTURE_WRAP_S) = false ∧
      (repeating GL_TEXTURE_WRAP_S).eq id (repeating GL_TEXTURE_WRAP_T) = true ∧
      ¬ ∀ a b c : TexConfig,
        IsEquality (TexConfig.eq id) (TexConfig.ne id) (TexConfig.key id) a b c := by
  have hself : (repeating GL_TEXTURE_WRAP_S).eq id (repeating GL_TEXTURE_WRAP_S) = false := by
    decide
  refine ⟨hself, by decide, fun h => ?_⟩
  have hrefl := (h (repeating GL_TEXTURE_WRAP_S) (repeating GL_TEXTURE_WRAP_T)
    (repeating GL_TEXTURE_WRAP_S)).refl
  rw [hself] at hrefl
  cases hrefl

end Stored

end LearnNotes.Graphics
