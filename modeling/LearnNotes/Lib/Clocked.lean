import LearnNotes.Lib.Machine

/-!
# Clocked designs

A wire is 0, 1, unknown or undriven. A design has registers, which an edge on its pins lets it
assign. In a time slot one pin changes. A change that wakes the design schedules its nonblocking
assignments; no other pin moves in the slot, so they read the pins and the registers as they are,
whenever they are run. The registers get what is assigned once nothing else is left to run, and
then the combinational logic settles. Two pins that change in one slot are left out: what the
design reads then is up to the order in which processes run.

`regs_run`: so a waveform is, for the registers, the pins at each change that wakes the design
(`awake`), and the registers are a fold over these.
-/

namespace Lib

/-! ## Wires -/

inductive Logic where
  | zero
  | one
  | x
  | z
  deriving DecidableEq

namespace Logic

def ofBool : Bool → Logic
  | false => zero
  | true => one

/-- `posedge`: away from 0, or to 1. -/
def posedge : Logic → Logic → Bool
  | zero, zero => false
  | zero, _ => true
  | x, one | z, one => true
  | _, _ => false

def and : Logic → Logic → Logic
  | zero, _ | _, zero => zero
  | one, one => one
  | _, _ => x

def xnor : Logic → Logic → Logic
  | zero, zero | one, one => one
  | zero, one | one, zero => zero
  | _, _ => x

/-- `a == b` of two vectors: unknown where the known bits do not decide it. -/
def eq {n : Nat} (a b : Vector Logic n) : Logic :=
  (List.zipWith xnor a.toList b.toList).foldr and one

/-- A wire that stays as it is has no edge. -/
@[simp] theorem posedge_self (v : Logic) : posedge v v = false := by cases v <;> rfl

end Logic

/-! ## Designs -/

/-- Pins `ι`, changes of one pin `δ` and registers `σ`. -/
structure Design (ι δ σ : Type) where
  /-- The pins after a change. -/
  drive : ι → δ → ι
  /-- The change of the pins is in the sensitivity list. -/
  wakes : ι → ι → Bool
  /-- The nonblocking assignments, evaluated with these pins and registers. -/
  assigns : ι → σ → σ
  /-- What the combinational logic makes of the registers before and after the assignments. -/
  settles : σ → σ → σ := fun _ s => s

namespace Design

variable {ι δ σ : Type} (D : Design ι δ σ)

/-- What a change that wakes the design does to the registers. -/
def wake (s : σ) (i : ι) : σ := D.settles s (D.assigns i s)

/-- One time slot. -/
def slot (s : ι × σ) (c : δ) : ι × σ :=
  let pins := D.drive s.1 c
  (pins, if D.wakes s.1 pins then D.wake s.2 pins else s.2)

/-- A waveform is a list of changes, each in a time slot of its own. -/
def machine (pins : ι) (regs : σ) : Machine (ι × σ) δ Unit where
  init := (pins, regs)
  step s c := ((), D.slot s c)

/-- The pins after a waveform. -/
def pinsAfter (pins : ι) (changes : List δ) : ι := changes.foldl D.drive pins

/-- The pins at each change that wakes the design. -/
def awake (pins : ι) : List δ → List ι
  | [] => []
  | c :: changes =>
    if D.wakes pins (D.drive pins c) then D.drive pins c :: awake (D.drive pins c) changes
    else awake (D.drive pins c) changes

/-- The pins at the last change that wakes the design. -/
def lastWake (pins : ι) : List δ → Option ι
  | [] => none
  | c :: changes =>
    (lastWake (D.drive pins c) changes).or
      (if D.wakes pins (D.drive pins c) then some (D.drive pins c) else none)

variable {D} {pins : ι} {changes : List δ} {s : σ}

/-- **A waveform** is its waking changes. -/
theorem run_eq (pins : ι) (regs : σ) (changes : List δ) :
    (D.machine pins regs).after changes =
      (D.pinsAfter pins changes, (D.awake pins changes).foldl D.wake regs) := by
  suffices h : ∀ s : ι × σ, (D.machine pins regs).afterFrom s changes =
      (D.pinsAfter s.1 changes, (D.awake s.1 changes).foldl D.wake s.2) from h (pins, regs)
  induction changes with
  | nil => exact fun s => rfl
  | cons c changes ih =>
    intro s
    have hnext : (D.machine pins regs).next s c = D.slot s c := rfl
    rw [Machine.afterFrom_cons, ih, hnext, awake]
    unfold slot
    dsimp only
    split <;> rfl

theorem regs_run (pins : ι) (regs : σ) (changes : List δ) :
    ((D.machine pins regs).after changes).2 = (D.awake pins changes).foldl D.wake regs := by
  rw [run_eq]

/-- One change more. -/
theorem regs_concat (pins : ι) (regs : σ) (changes : List δ) (c : δ) :
    ((D.machine pins regs).after (changes ++ [c])).2 =
      if D.wakes (D.pinsAfter pins changes) (D.drive (D.pinsAfter pins changes) c) then
        D.wake ((D.machine pins regs).after changes).2 (D.drive (D.pinsAfter pins changes) c)
      else ((D.machine pins regs).after changes).2 := by
  have hpins : ((D.machine pins regs).after changes).1 = D.pinsAfter pins changes := by
    rw [run_eq]
  rw [Machine.after_append, ← hpins]
  rfl

theorem getLast?_awake (pins : ι) (changes : List δ) :
    (D.awake pins changes).getLast? = D.lastWake pins changes := by
  induction changes generalizing pins with
  | nil => rfl
  | cons c changes ih =>
    rw [awake, lastWake, ← ih]
    split
    · rw [List.getLast?_cons]
      cases (D.awake (D.drive pins c) changes).getLast? <;> rfl
    · rw [Option.or_none]

/-- A design whose assignments do not read its registers has what the last waking change gave. -/
theorem regs_of_forgetful (load : ι → σ) (h : ∀ s i, D.wake s i = load i) (pins : ι) (regs : σ)
    (changes : List δ) :
    ((D.machine pins regs).after changes).2 =
      ((D.lastWake pins changes).map load).getD regs := by
  rw [regs_run, ← getLast?_awake]
  induction D.awake pins changes using List.reverseRecOn with
  | nil => rfl
  | append_singleton is i _ =>
    rw [List.foldl_append, List.foldl_cons, List.foldl_nil, h, List.getLast?_concat]
    rfl

end Design

end Lib
