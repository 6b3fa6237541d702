import LearnNotes.Lib.Clocked

/-!
# The divider of `FSM.v`

`drivideby3FSM` counts through three states and puts `out_bit` high in the first. Its registers
start unknown, and `always @(*)` waits for a change before it computes `next_state`, so they stay
unknown until a reset. `out_bit_eq`: on every waveform `out_bit` is unknown until the first edge
that finds `rst` high, and from then on high exactly after such an edge and after every third one
that does not. A rise of `rst` that does not reach 1 counts like one of `clk`.
-/

namespace LearnNotes.Verilog

open Lib

/-- `clk` and `rst`. -/
structure Pins where
  clk : Logic
  rst : Logic
  deriving DecidableEq

/-- One of them changes. -/
inductive Change where
  | clk (v : Logic)
  | rst (v : Logic)

def Pins.drive (p : Pins) : Change → Pins
  | .clk v => { p with clk := v }
  | .rst v => { p with rst := v }

namespace drivideby3FSM

abbrev State := Vector Logic 2

def S0 : State := #v[.zero, .zero]
def S1 : State := #v[.zero, .one]
def S2 : State := #v[.one, .zero]

/-- `reg [1:0] current_state, next_state`. -/
structure Regs where
  current_state : State
  next_state : State
  deriving DecidableEq

/-- The `case` of the second `always`; it compares with `===`. -/
def nextState (current_state : State) : State :=
  if current_state = S0 then S1
  else if current_state = S1 then S2
  else if current_state = S2 then S0
  else S0

def out_bit (s : Regs) : Logic := Logic.eq s.current_state S0

/-- Registers at power-up. -/
def unknown : Regs := ⟨#v[.x, .x], #v[.x, .x]⟩

/-- The state register, and `always @(*)`, which waits for `current_state` to change. -/
def design : Design Pins Change Regs where
  drive := Pins.drive
  wakes p p' := Logic.posedge p.clk p'.clk || Logic.posedge p.rst p'.rst
  assigns p s := { s with current_state := if p.rst = .one then S0 else s.next_state }
  settles s s' :=
    if s'.current_state = s.current_state then s'
    else { s' with next_state := nextState s'.current_state }

/-- The module with these pins at power-up. -/
def fsm (pins : Pins) : Machine (Pins × Regs) Change Unit := design.machine pins unknown

/-! ## Ticks -/

/-- The edges counted since the last reset, if there was one. -/
def tick (n : Option Nat) (p : Pins) : Option Nat :=
  if p.rst = .one then some 0 else n.map (· + 1)

/-- The count after a waveform. -/
def ticks (pins : Pins) (changes : List Change) : Option Nat :=
  (design.awake pins changes).foldl tick none

def stateOf (n : Nat) : State := if n % 3 = 0 then S0 else if n % 3 = 1 then S1 else S2

/-- The registers after `n` edges. -/
def regsOf : Option Nat → Regs
  | none => unknown
  | some n => ⟨stateOf n, stateOf (n + 1)⟩

/-- The states go round. -/
theorem nextState_stateOf (n : Nat) : nextState (stateOf n) = stateOf (n + 1) := by
  have h : n % 3 = 0 ∨ n % 3 = 1 ∨ n % 3 = 2 := by omega
  unfold stateOf
  rcases h with h | h | h
  · rw [h, show (n + 1) % 3 = 1 by omega]
    decide
  · rw [h, show (n + 1) % 3 = 2 by omega]
    decide
  · rw [h, show (n + 1) % 3 = 0 by omega]
    decide

theorem stateOf_succ_ne (n : Nat) : stateOf (n + 1) ≠ stateOf n := by
  have h : n % 3 = 0 ∨ n % 3 = 1 ∨ n % 3 = 2 := by omega
  unfold stateOf
  rcases h with h | h | h
  · rw [h, show (n + 1) % 3 = 1 by omega]
    decide
  · rw [h, show (n + 1) % 3 = 2 by omega]
    decide
  · rw [h, show (n + 1) % 3 = 0 by omega]
    decide

/-- An edge that resets. -/
theorem wake_reset (n : Option Nat) {p : Pins} (h : p.rst = .one) :
    design.wake (regsOf n) p = regsOf (some 0) := by
  unfold Design.wake design
  dsimp only
  rw [if_pos h]
  cases n with
  | none => decide
  | some n =>
    show (if S0 = stateOf n then _ else _ : Regs) = _
    split
    · next h0 =>
      -- the state was `S0` and does not change
      show (⟨S0, stateOf (n + 1)⟩ : Regs) = ⟨S0, S1⟩
      rw [← nextState_stateOf, ← h0]
      rfl
    · rfl

/-- An edge that does not. -/
theorem wake_count (n : Option Nat) {p : Pins} (h : p.rst ≠ .one) :
    design.wake (regsOf n) p = regsOf (n.map (· + 1)) := by
  unfold Design.wake design
  dsimp only
  rw [if_neg h]
  cases n with
  | none => rfl
  | some n =>
    show (if stateOf (n + 1) = stateOf n then _ else _ : Regs) = _
    rw [if_neg (stateOf_succ_ne n)]
    show (⟨stateOf (n + 1), nextState (stateOf (n + 1))⟩ : Regs) = ⟨_, stateOf (n + 2)⟩
    rw [nextState_stateOf]

theorem wake_eq (n : Option Nat) (p : Pins) : design.wake (regsOf n) p = regsOf (tick n p) := by
  unfold tick
  split
  · next h => exact wake_reset n h
  · next h => exact wake_count n h

/-- **The registers are the count.** -/
theorem regs_eq (pins : Pins) (changes : List Change) :
    ((fsm pins).after changes).2 = regsOf (ticks pins changes) := by
  show ((design.machine pins unknown).after changes).2 = _
  rw [Design.regs_run]
  unfold ticks
  induction design.awake pins changes using List.reverseRecOn with
  | nil => rfl
  | append_singleton ps p ih =>
    rw [List.foldl_append, List.foldl_append, ih]
    exact wake_eq _ p

theorem out_bit_stateOf (n : Nat) (next : State) :
    out_bit ⟨stateOf n, next⟩ = Logic.ofBool (n % 3 = 0) := by
  unfold stateOf
  split
  · next h => rw [decide_eq_true h]; rfl
  · next h =>
    rw [decide_eq_false h]
    split <;> rfl

/-- **`out_bit` on every waveform.** -/
theorem out_bit_eq (pins : Pins) (changes : List Change) :
    out_bit ((fsm pins).after changes).2 =
      (ticks pins changes).elim .x fun n => Logic.ofBool (n % 3 = 0) := by
  rw [regs_eq]
  cases ticks pins changes with
  | none => rfl
  | some n => exact out_bit_stateOf n _

/-- Without a reset `out_bit` stays unknown, also after an edge of `rst` that is none. -/
example : out_bit ((fsm ⟨.x, .x⟩).after [.clk .zero, .rst .zero, .clk .one, .rst .x]).2 = .x := by
  decide

end drivideby3FSM

end LearnNotes.Verilog
