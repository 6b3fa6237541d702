import Mathlib
import LearnNotes.Lib.Machine

/-!
# `memory::ResourceManager`

`skl/memory/handle.hpp` and `skl/memory/memory.hpp`: a pool of generation-counted
slots with a LIFO free list. A resource is a `std::shared_ptr`; the model's
pointer is the object's place in `heap`, the list of every object
`std::make_shared` has created, so that two objects with equal contents stay
different objects. `get_raw` is left out: it calls a member `slot` lacks.
-/

namespace LearnNotes.Memory

/-- `Handle<Tag>`; index 0 is the null handle. -/
structure Handle where
  index : UInt32
  generation : UInt32
  deriving DecidableEq, Repr

/-- `explicit operator bool`. -/
def Handle.toBool (h : Handle) : Bool := h.index != 0

/-- An error: the `std::errc` values `release` reports, and what else a caller's `ec` may hold. -/
inductive Errc where
  | not_enough_memory
  | invalid_argument
  | other (category : String) (value : { v : Int // v ≠ 0 })
  deriving DecidableEq, Repr

/-- The address of an object: its place in `heap`. -/
abbrev Ptr := Nat

structure Slot where
  pres : Option Ptr
  generation : UInt32
  deriving DecidableEq, Repr

structure ResourceManager (T : Type) where
  pool : List Slot
  /-- The free list, its head the vector's back. -/
  free : List UInt32
  heap : List T

/-- `if (++slot.generation == 0) ++slot.generation`. -/
def nextGen (g : UInt32) : UInt32 := if g + 1 = 0 then g + 1 + 1 else g + 1

namespace ResourceManager

variable {T : Type}

/-- The constructor: slot 0 is reserved for the null handle. -/
def new : ResourceManager T := ⟨[⟨none, 0⟩], [], []⟩

def modifySlot (m : ResourceManager T) (idx : UInt32) (f : Slot → Slot) : ResourceManager T :=
  { m with pool := m.pool.modify idx.toNat f }

def generationOf (m : ResourceManager T) (idx : UInt32) : UInt32 :=
  (m.pool[idx.toNat]?.map (·.generation)).getD 0

/-- The index `acquire` works on: the back of the free list, else a new slot. -/
def takeSlot (m : ResourceManager T) : UInt32 × ResourceManager T :=
  match m.free with
  | idx :: free => (idx, { m with free := free })
  | [] => (UInt32.ofNat m.pool.length, { m with pool := m.pool ++ [⟨none, 0⟩] })

/-- `acquire(init_cb)`. `ctor` is the default-constructed `T`; `none` there or from
`init_cb` is an exception, which leaves `acquire` with what was done so far. -/
def acquire (ctor : Option T) (init_cb : T → Option T) (m : ResourceManager T) :
    Option Handle × ResourceManager T :=
  let (idx, m) := m.takeSlot
  let m := m.modifySlot idx fun s => { s with generation := nextGen s.generation }
  match ctor with
  | none => (none, m)
  | some t =>
    let p := m.heap.length
    let m := m.modifySlot idx fun s => { s with pres := some p }
    let m := { m with heap := m.heap ++ [t] }
    match init_cb t with
    | none => (none, m)
    | some t' => (some ⟨idx, m.generationOf idx⟩, { m with heap := m.heap.set p t' })

/-- The slot a handle names: `h && h.index < _pool.size()`. -/
def slotOf (m : ResourceManager T) (h : Handle) : Option Slot :=
  if h.toBool then m.pool[h.index.toNat]? else none

/-- `release(h, ec)`: the success path leaves `ec` as the caller passed it. -/
def release (h : Handle) (ec : Option Errc) (m : ResourceManager T) :
    Option Errc × ResourceManager T :=
  match m.slotOf h with
  | none => (some .not_enough_memory, m)
  | some slot =>
    if slot.generation ≠ h.generation ∨ slot.pres = none then (some .invalid_argument, m)
    else
      let m := m.modifySlot h.index fun s => ⟨none, nextGen s.generation⟩
      (ec, { m with free := h.index :: m.free })

def is_valid (m : ResourceManager T) (h : Handle) : Bool :=
  match m.slotOf h with
  | none => false
  | some slot => slot.generation == h.generation && slot.pres.isSome

/-- `get(h)`: the resource pointer, null for a handle that is not valid. -/
def get (m : ResourceManager T) (h : Handle) : Option Ptr :=
  if m.is_valid h then (m.slotOf h).bind (·.pres) else none

/-- `size_t capacity()`. -/
def capacity (m : ResourceManager T) : UInt64 := UInt64.ofNat m.pool.length

/-- `size_t active()`: unsigned subtraction. -/
def active (m : ResourceManager T) : UInt64 := m.capacity - 1 - UInt64.ofNat m.free.length

end ResourceManager

open ResourceManager

/-- The calls of a run: `acquire` with the object `T()` and a callback that does not
throw, `release` with any handle and any incoming error code. -/
inductive Call (T : Type) where
  | acquire (t : T) (init_cb : T → T)
  | release (h : Handle) (ec : Option Errc)

inductive Reply where
  | handle (h : Option Handle)
  | ec (ec : Option Errc)
  deriving DecidableEq, Repr

/-- The manager serving calls, one after another. -/
def manager (T : Type) : Lib.Machine (ResourceManager T) (Call T) Reply where
  init := .new
  step m
    | .acquire t init_cb =>
      let (h, m) := m.acquire (some t) (fun t => some (init_cb t))
      (.handle h, m)
    | .release h ec =>
      let (ec, m) := m.release h ec
      (.ec ec, m)

section Steps

variable {T : Type} (m : ResourceManager T)

@[simp] theorem init_manager : (manager T).init = .new := rfl

@[simp] theorem next_acquire (t : T) (cb : T → T) :
    (manager T).next m (.acquire t cb) = (m.acquire (some t) fun t => some (cb t)).2 := rfl

@[simp] theorem out_acquire (t : T) (cb : T → T) :
    (manager T).out m (.acquire t cb) = .handle (m.acquire (some t) fun t => some (cb t)).1 := rfl

@[simp] theorem next_release (h : Handle) (ec : Option Errc) :
    (manager T).next m (.release h ec) = (m.release h ec).2 := rfl

end Steps

end LearnNotes.Memory
