import Mathlib
import LearnNotes.Lib.Machine

/-!
# Signals and slots

`SignalSlot.h`. Function pointers are values of `F` or `none` for `NULL`, and so is a pointer
to a signal. A callback may call `signal_connect` and `signal_disconnect` on the signal that
is being emitted: `script k f` lists the calls the `k`-th invocation of the emission, which
is one of `f`, makes. What it does to anything else is left out.
-/

namespace LearnNotes.Signal

open Lib

def EXIT_SUCCESS : Int := 0
def EXIT_FAILURE : Int := 1

def MAX_SLOTS : Nat := 8

structure signal_t (F : Type) where
  name : String
  slots : Vector (Option F) MAX_SLOTS
  slot_count : UInt8

variable {F : Type}

def SIGNAL_INIT (sig_name : String) : signal_t F := ⟨sig_name, Vector.replicate MAX_SLOTS none, 0⟩

namespace signal_t

variable (sig : signal_t F)

/-- `slots[i]`. -/
def entry (i : Nat) : Option F := sig.slots[i]?.join

/-- The scan of `slots[0..slot_count)` both functions start with. -/
def find [DecidableEq F] (slot : F) : Option Nat :=
  (sig.slots.toList.take sig.slot_count.toNat).idxOf? (some slot)

/-- `slots[slot_count++] = slot`. -/
def append (slot : F) : signal_t F :=
  { sig with
    slots := sig.slots.setIfInBounds sig.slot_count.toNat (some slot)
    slot_count := sig.slot_count + 1 }

/-- `slots[i] = slots[--slot_count]; slots[slot_count] = NULL`. -/
def removeAt (i : Nat) : signal_t F :=
  let last := sig.slot_count - 1
  { sig with
    slots := (sig.slots.setIfInBounds i (sig.entry last.toNat)).setIfInBounds last.toNat none
    slot_count := last }

end signal_t

section

variable [DecidableEq F]

def signal_connect : Option (signal_t F) → Option F → Int × Option (signal_t F)
  | some sig, some slot =>
    if (sig.find slot).isSome then (EXIT_SUCCESS, some sig)
    else if MAX_SLOTS ≤ sig.slot_count.toNat then (EXIT_FAILURE, some sig)
    else (EXIT_SUCCESS, some (sig.append slot))
  | sig, _ => (EXIT_FAILURE, sig)

def signal_disconnect : Option (signal_t F) → Option F → Int × Option (signal_t F)
  | some sig, some slot =>
    match sig.find slot with
    | some i => (EXIT_SUCCESS, some (sig.removeAt i))
    | none => (EXIT_FAILURE, some sig)
  | sig, _ => (EXIT_FAILURE, sig)

/-! ## Sequences of calls -/

/-- A call on a signal, with any slot pointer. -/
inductive Call (F : Type) where
  | connect (slot : Option F)
  | disconnect (slot : Option F)
  deriving DecidableEq

/-- The call made with the address of `sig`. -/
def Call.on (sig : signal_t F) : Call F → Int × Option (signal_t F)
  | .connect slot => signal_connect (some sig) slot
  | .disconnect slot => signal_disconnect (some sig) slot

/-- The signal a declaration with `SIGNAL_INIT` makes, and the calls on it. -/
def signal (F : Type) [DecidableEq F] (sig_name : String) : Machine (signal_t F) (Call F) Int where
  init := SIGNAL_INIT sig_name
  step sig c := ((c.on sig).1, (c.on sig).2.getD sig)

end

/-! ## Emission -/

/-- A call made during an emission, with the index the loop is at and the signal it finds. -/
structure Moment (F : Type) where
  index : Nat
  sig : signal_t F
  call : Call F

/-- An emission under way. -/
structure Emission (F : Type) where
  sig : signal_t F
  /-- The slots invoked so far, in order. -/
  invoked : List F
  /-- The calls their callbacks made, in order. -/
  made : List (Moment F)

namespace Emission

variable [DecidableEq F] (script : Nat → F → List (Call F)) (i : Nat)

/-- A call of the callback of index `i`. -/
def make (e : Emission F) (c : Call F) : Emission F :=
  { e with sig := (c.on e.sig).2.getD e.sig, made := e.made ++ [⟨i, e.sig, c⟩] }

/-- `if (slots[i]) slots[i](arg)`. -/
def visit (e : Emission F) : Emission F :=
  match e.sig.entry i with
  | none => e
  | some f =>
    (script e.invoked.length f).foldl (make i) { e with invoked := e.invoked ++ [f] }

/-- The loop at index `i`, with `n = 255 - i`: at 255 no `slot_count` is above the index. -/
def loop : Nat → Nat → Emission F → Emission F
  | 0, _, e => e
  | n + 1, i, e => if i < e.sig.slot_count.toNat then loop n (i + 1) (e.visit script i) else e

def of (sig : signal_t F) : Emission F := loop script 255 0 ⟨sig, [], []⟩

end Emission

/-- What `signal_emit` does; nothing where `sig` is `NULL`. -/
def signal_emit [DecidableEq F] (script : Nat → F → List (Call F)) (sig : Option (signal_t F)) :
    Option (Emission F) := sig.map (Emission.of script)

end LearnNotes.Signal
