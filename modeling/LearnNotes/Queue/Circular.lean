import Mathlib
import LearnNotes.Lib.Ring

/-!
# `CircularQueueLK` and `CircularQueueSeq`

`queueLK.h`. The members both classes share are a `Ring`: `m_max_size` cells of raw memory,
of which one always stays free. A cell is raw, holds an object, or holds one that was moved
from. A call gives `none` where it never returns: a locked mutex, or a flag that the one
caller there is left set. The messages printed are left out.
-/

namespace LearnNotes.Queue

open Lib

/-- A cell of `m_data`. -/
inductive Cell (T : Type) where
  | raw
  | obj (v : T)
  | moved
  deriving DecidableEq

def Cell.value {T : Type} : Cell T → Option T
  | .obj v => some v
  | _ => none

structure Ring (T : Type) where
  max_size : UInt64
  data : Nat → Cell T
  head : UInt64
  tail : UInt64

/-- What a call comes back with. -/
inductive Reply (T : Type) where
  | emplaced (ok : Bool)
  /-- The element `pop` assigned, or `none` where it returned false. -/
  | popped (val : Option T)
  | threw
  /-- `pop` assigned from a cell that holds no value. -/
  | unspecified
  deriving DecidableEq

/-- What `val=std::move(…)` does with an element. One that throws has had it as an rvalue: it leaves
the element with the value `left`, or with none. -/
inductive Assignment (T : Type) where
  | assigns
  | throws (left : Option T)
  deriving DecidableEq

/-- An object with this value, or one that was moved from. -/
def Cell.ofLeft {T : Type} : Option T → Cell T
  | some v => .obj v
  | none => .moved

/-- What `pop` comes back with after `val=std::move(…)` from the cell. -/
def Cell.assigned {T : Type} : Cell T → Reply T
  | .obj v => .popped (some v)
  | _ => .unspecified

namespace Ring

variable {T : Type} (r : Ring T)

/-- The constructor's members. -/
def new (Cap : UInt64) : Ring T := ⟨Cap + 1, fun _ => .raw, 0, 0⟩

/-- `(m_tail+1)%m_max_size==m_head`. -/
def full : Bool := (r.tail + 1) % r.max_size == r.head

/-- `m_head==m_tail`. -/
def empty : Bool := r.head == r.tail

/-- `construct(m_data+m_tail,…)`. -/
def construct (v : T) : Ring T := { r with data := Function.update r.data r.tail.toNat (.obj v) }

def advanceTail : Ring T := { r with tail := (r.tail + 1) % r.max_size }

/-- `std::move(m_data[m_head])`, once it is assigned. -/
def moveFront : Ring T := { r with data := Function.update r.data r.head.toNat .moved }

/-- `m_data[m_head]`, once the assignment from it has thrown. -/
def leaveFront (left : Option T) : Ring T :=
  { r with data := Function.update r.data r.head.toNat (.ofLeft left) }

def advanceHead : Ring T := { r with head := (r.head + 1) % r.max_size }

/-- What `val=std::move(m_data[m_head])` leaves in `val`. -/
def front : Reply T := (r.data r.head.toNat).assigned

end Ring

/-! ## `CircularQueueLK` -/

structure CircularQueueLK (T : Type) where
  ring : Ring T
  /-- `m_mutex` is locked. -/
  mutex : Bool

namespace CircularQueueLK

variable {T : Type}

def new (Cap : UInt64) : CircularQueueLK T := ⟨.new Cap, false⟩

/-- `emplace`; `ctor` is the element its arguments construct, `none` an exception. The guard
unlocks on every way out. -/
def emplace (ctor : Option T) (q : CircularQueueLK T) : Option (Reply T × CircularQueueLK T) :=
  if q.mutex then none
  else if q.ring.full then some (.emplaced false, q)
  else
    match ctor with
    | none => some (.threw, q)
    | some v => some (.emplaced true, { q with ring := (q.ring.construct v).advanceTail })

def push (v : T) (q : CircularQueueLK T) : Option (Reply T × CircularQueueLK T) :=
  q.emplace (some v)

/-- `pop`; `assignment` is the one to `val`. -/
def pop (assignment : Assignment T) (q : CircularQueueLK T) :
    Option (Reply T × CircularQueueLK T) :=
  if q.mutex then none
  else if q.ring.empty then some (.popped none, q)
  else
    match assignment with
    | .throws left => some (.threw, { q with ring := q.ring.leaveFront left })
    | .assigns => some (q.ring.front, { q with ring := q.ring.moveFront.advanceHead })

end CircularQueueLK

/-! ## `CircularQueueSeq` -/

structure CircularQueueSeq (T : Type) where
  ring : Ring T
  atomic_using : Bool

namespace CircularQueueSeq

variable {T : Type}

def new (Cap : UInt64) : CircularQueueSeq T := ⟨.new Cap, false⟩

/-- `m_atomic_using.compare_exchange_strong`: whether it found `expected`. -/
def compare_exchange_strong (expected desired : Bool) (q : CircularQueueSeq T) :
    Bool × CircularQueueSeq T :=
  if q.atomic_using = expected then (true, { q with atomic_using := desired }) else (false, q)

/-- The loop around the exchange ends at once or, for one caller, never. -/
def alone (expected desired : Bool) (q : CircularQueueSeq T) : Option (CircularQueueSeq T) :=
  match q.compare_exchange_strong expected desired with
  | (true, q) => some q
  | (false, _) => none

def compare_exchange_ft (q : CircularQueueSeq T) : Option (CircularQueueSeq T) :=
  q.alone false true

def compare_exchange_tf (q : CircularQueueSeq T) : Option (CircularQueueSeq T) :=
  q.alone true false

@[simp] theorem compare_exchange_ft_unset (r : Ring T) :
    compare_exchange_ft ⟨r, false⟩ = some ⟨r, true⟩ := rfl

@[simp] theorem compare_exchange_ft_set (r : Ring T) : compare_exchange_ft ⟨r, true⟩ = none := rfl

@[simp] theorem compare_exchange_tf_set (r : Ring T) :
    compare_exchange_tf ⟨r, true⟩ = some ⟨r, false⟩ := rfl

/-- `emplace`; an exception leaves it between the two exchanges. -/
def emplace (ctor : Option T) (q : CircularQueueSeq T) : Option (Reply T × CircularQueueSeq T) := do
  let q ← q.compare_exchange_ft
  if q.ring.full then
    let q ← q.compare_exchange_tf
    return (.emplaced false, q)
  else
    match ctor with
    | none => return (.threw, q)
    | some v =>
      let q ← compare_exchange_tf { q with ring := (q.ring.construct v).advanceTail }
      return (.emplaced true, q)

def push (v : T) (q : CircularQueueSeq T) : Option (Reply T × CircularQueueSeq T) :=
  q.emplace (some v)

def pop (assignment : Assignment T) (q : CircularQueueSeq T) :
    Option (Reply T × CircularQueueSeq T) := do
  let q ← q.compare_exchange_ft
  if q.ring.empty then
    let q ← q.compare_exchange_tf
    return (.popped none, q)
  else
    match assignment with
    | .throws left => return (.threw, { q with ring := q.ring.leaveFront left })
    | .assigns =>
      let r := q.ring.front
      let q ← compare_exchange_tf { q with ring := q.ring.moveFront.advanceHead }
      return (r, q)

end CircularQueueSeq

/-! ## Sequences of calls -/

/-- The calls of one caller, with elements that do not throw. -/
inductive Call (T : Type) where
  | emplace (v : T)
  | push (v : T)
  | pop
  deriving DecidableEq

/-- A call that does not return leaves the queue as it is and answers `none`. -/
def served {Q R : Type} (q : Q) : Option (R × Q) → Option R × Q
  | none => (none, q)
  | some (r, q) => (some r, q)

def queueLK (T : Type) (Cap : UInt64) :
    Machine (CircularQueueLK T) (Call T) (Option (Reply T)) where
  init := .new Cap
  step q
    | .emplace v => served q (q.emplace (some v))
    | .push v => served q (q.push v)
    | .pop => served q (q.pop .assigns)

def queueSeq (T : Type) (Cap : UInt64) :
    Machine (CircularQueueSeq T) (Call T) (Option (Reply T)) where
  init := .new Cap
  step q
    | .emplace v => served q (q.emplace (some v))
    | .push v => served q (q.push v)
    | .pop => served q (q.pop .assigns)

end LearnNotes.Queue
