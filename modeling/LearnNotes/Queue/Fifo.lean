import LearnNotes.Queue.Circular

/-!
# The ring queues are bounded FIFO queues

`Ring.HoldsAs Cap read r l`: the cells from `m_head` to `m_tail` hold the list `l`, as `read`
sees them. `Ring.Holds`, of their values, is the refinement relation; every operation on a ring
has one rule for it, read off `Lib.Rings`. `serving` is
the calls on a ring with no lock around them; it refines the FIFO of at most `Cap` elements
(`serving_fifo`), and both classes serve their calls as it does: `ring_queues_fifo`.
-/

namespace LearnNotes.Queue

open Lib

variable {T : Type} {Cap : UInt64}

/-! ## The ring holds a list -/

namespace Ring

variable {α : Type} {read : Cell T → Option α} {r : Ring T} {l : List α} {v : T} {a : α}

/-- What `read` sees in the cells. -/
def contents (read : Cell T → Option α) (r : Ring T) (k : Nat) : Option α := read (r.data k)

structure HoldsAs (Cap : UInt64) (read : Cell T → Option α) (r : Ring T) (l : List α) : Prop where
  max_size : r.max_size.toNat = Cap.toNat + 1
  rings : Rings (Cap.toNat + 1) (r.contents read) r.head.toNat r.tail.toNat l

/-- The values of the cells are `l`. -/
abbrev Holds (Cap : UInt64) (r : Ring T) (l : List T) : Prop := HoldsAs Cap Cell.value r l

theorem holdsAs_new (hCap : Cap.toNat + 1 < 2 ^ 64) (read : Cell T → Option α) :
    HoldsAs Cap read (new Cap : Ring T) [] where
  max_size := by
    show (Cap + 1).toNat = _
    rw [UInt64.toNat_add, UInt64.toNat_one, Nat.mod_eq_of_lt hCap]
  rings := Rings.empty (Nat.succ_pos _) _

theorem HoldsAs.head_lt (h : HoldsAs Cap read r l) : r.head < r.max_size := by
  rw [UInt64.lt_iff_toNat_lt, h.max_size]
  exact h.rings.head_lt

theorem HoldsAs.tail_lt (h : HoldsAs Cap read r l) : r.tail < r.max_size := by
  rw [UInt64.lt_iff_toNat_lt, h.max_size]
  exact h.rings.tail_lt

/-- The index after `x`: the sum does not wrap, the remainder goes around the ring. -/
theorem toNat_next (hm : r.max_size.toNat = Cap.toNat + 1) {x : UInt64}
    (hx : x.toNat < Cap.toNat + 1) :
    ((x + 1) % r.max_size).toNat = slot (Cap.toNat + 1) x.toNat 1 := by
  have hmax := r.max_size.toNat_lt
  have hadd : (x + 1).toNat = x.toNat + 1 := by
    rw [UInt64.toNat_add, UInt64.toNat_one, Nat.mod_eq_of_lt (by omega)]
  rw [UInt64.toNat_mod, hadd, hm, mod_eq_slot hx]

theorem HoldsAs.full_iff (h : HoldsAs Cap read r l) : r.full = true ↔ ¬ l.length < Cap.toNat := by
  have hlen := h.rings.length_lt
  unfold full
  rw [beq_iff_eq, ← UInt64.toNat_inj, toNat_next h.max_size h.rings.tail_lt, h.rings.full_iff]
  omega

theorem HoldsAs.empty_iff (h : HoldsAs Cap read r l) : r.empty = true ↔ l = [] := by
  unfold empty
  rw [beq_iff_eq, ← UInt64.toNat_inj, h.rings.empty_iff]

/-- A cell written. -/
theorem contents_update (read : Cell T → Option α) (r : Ring T) (i : Nat) (c : Cell T) :
    contents read { r with data := Function.update r.data i c } =
      Function.update (r.contents read) i (read c) := by
  funext k
  unfold contents
  by_cases hk : k = i
  · simp [hk]
  · simp [hk]

/-- An element constructed at the tail and let in. -/
theorem HoldsAs.emplace (h : HoldsAs Cap read r l) (hl : l.length < Cap.toNat)
    (ha : read (.obj v) = some a) : HoldsAs Cap read (r.construct v).advanceTail (l ++ [a]) where
  max_size := h.max_size
  rings := by
    have hat : Function.update (r.contents read) r.tail.toNat (some a) r.tail.toNat = some a :=
      Function.update_self ..
    have hrings := (h.rings.write (some a)).advanceTail (by omega) hat
    rw [← ha, ← contents_update, ← toNat_next h.max_size h.rings.tail_lt] at hrings
    exact hrings

/-- The oldest cell overwritten and let go. -/
theorem HoldsAs.advance (h : HoldsAs Cap read r (a :: l)) (c : Cell T) :
    HoldsAs Cap read { r with data := Function.update r.data r.head.toNat c }.advanceHead l where
  max_size := h.max_size
  rings := by
    have hrings := h.rings.advanceHead (read c)
    rw [← contents_update, ← toNat_next h.max_size h.rings.head_lt] at hrings
    exact hrings

/-- The oldest element moved out and let go. -/
theorem HoldsAs.pop (h : HoldsAs Cap read r (a :: l)) :
    HoldsAs Cap read r.moveFront.advanceHead l := h.advance .moved

/-- The oldest element left as a failed assignment leaves it. -/
theorem HoldsAs.leaveFront (h : HoldsAs Cap read r (a :: l)) {b : α} {left : Option T}
    (hb : read (.ofLeft left) = some b) : HoldsAs Cap read (r.leaveFront left) (b :: l) where
  max_size := h.max_size
  rings := by
    have hrings := h.rings.writeFront b
    rw [← hb, ← contents_update] at hrings
    exact hrings

theorem Holds.front {l : List T} (h : Holds Cap r (v :: l)) : r.front = .popped (some v) := by
  have hval : (r.data r.head.toNat).value = some v := h.rings.front
  unfold Ring.front
  cases hc : r.data r.head.toNat with
  | obj u =>
    rw [hc] at hval
    cases hval
    rfl
  | raw => rw [hc] at hval; cases hval
  | moved => rw [hc] at hval; cases hval

end Ring

/-! ## The specification -/

def Call.spec : Call T → Fifo.Call T
  | .emplace v => .put v
  | .push v => .put v
  | .pop => .take

def Reply.ofSpec : Fifo.Reply T → Reply T
  | .put ok => .emplaced ok
  | .taken a => .popped a

/-- The FIFO of at most `cap` elements, in the words of the queues. -/
def bounded (T : Type) (cap : Nat) : Machine (List T) (Call T) (Reply T) :=
  (fifo T cap).relabel Call.spec Reply.ofSpec

/-- A machine around a ring behaves as the FIFO of at most `cap` elements. -/
structure BehavesAsFifo {σ : Type} (M : Machine σ (Call T) (Option (Reply T)))
    (ring : σ → Ring T) (cap : Nat) (calls : List (Call T)) : Prop where
  answers : M.outs calls = ((bounded T cap).outs calls).map some
  indices : M.EveryState calls fun q => (ring q).head < (ring q).max_size ∧
    (ring q).tail < (ring q).max_size
  /-- A call that returns false changes nothing. -/
  unchanged : M.EveryStep calls fun q c =>
    M.out q c = some (.emplaced false) ∨ M.out q c = some (.popped none) → M.next q c = q

/-! ## Calls on a ring -/

namespace Ring

variable {r : Ring T} {l : List T}

/-- `emplace` without the lock. -/
def put (r : Ring T) (v : T) : Reply T × Ring T :=
  if r.full then (.emplaced false, r) else (.emplaced true, (r.construct v).advanceTail)

/-- `pop` without the lock. -/
def take (r : Ring T) : Reply T × Ring T :=
  if r.empty then (.popped none, r) else (r.front, r.moveFront.advanceHead)

def serve (r : Ring T) : Call T → Reply T × Ring T
  | .emplace v | .push v => r.put v
  | .pop => r.take

theorem front_ne (r : Ring T) : ¬ (r.front = .emplaced false ∨ r.front = .popped none) := by
  unfold front Cell.assigned
  split <;> exact fun h => h.elim nofun nofun

theorem put_unchanged (r : Ring T) (v : T) :
    (r.put v).1 = .emplaced false ∨ (r.put v).1 = .popped none → (r.put v).2 = r := by
  unfold put
  split
  · exact fun _ => rfl
  · exact fun h => h.elim nofun nofun

theorem take_unchanged (r : Ring T) :
    r.take.1 = .emplaced false ∨ r.take.1 = .popped none → r.take.2 = r := by
  unfold take
  split
  · exact fun _ => rfl
  · exact fun h => absurd h r.front_ne

theorem serve_unchanged {c : Call T}
    (h : (r.serve c).1 = .emplaced false ∨ (r.serve c).1 = .popped none) : (r.serve c).2 = r := by
  cases c with
  | emplace v => exact r.put_unchanged v h
  | push v => exact r.put_unchanged v h
  | pop => exact r.take_unchanged h

theorem Holds.put (h : Holds Cap r l) (v : T) :
    (r.put v).1 = .ofSpec ((fifo T Cap.toNat).out l (.put v)) ∧
      Holds Cap (r.put v).2 ((fifo T Cap.toNat).next l (.put v)) := by
  unfold Ring.put
  by_cases hl : l.length < Cap.toNat
  · obtain ⟨hout, hnext⟩ := fifo_put v hl
    rw [if_neg fun hf => h.full_iff.mp hf hl, hout, hnext]
    exact ⟨rfl, h.emplace hl rfl⟩
  · obtain ⟨hout, hnext⟩ := fifo_put_full v hl
    rw [if_pos (h.full_iff.mpr hl), hout, hnext]
    exact ⟨rfl, h⟩

theorem Holds.take (h : Holds Cap r l) :
    r.take.1 = .ofSpec ((fifo T Cap.toNat).out l .take) ∧
      Holds Cap r.take.2 ((fifo T Cap.toNat).next l .take) := by
  unfold Ring.take
  cases l with
  | nil =>
    obtain ⟨hout, hnext⟩ := fifo_take_empty (α := T) Cap.toNat
    rw [if_pos (h.empty_iff.mpr rfl), hout, hnext]
    exact ⟨rfl, h⟩
  | cons v l =>
    obtain ⟨hout, hnext⟩ := fifo_take Cap.toNat v l
    rw [if_neg fun he => List.cons_ne_nil _ _ (h.empty_iff.mp he), h.front, hout, hnext]
    exact ⟨rfl, h.pop⟩

/-- A call on the ring does what the FIFO does. -/
theorem Holds.serve (h : Holds Cap r l) (c : Call T) :
    (r.serve c).1 = (bounded T Cap.toNat).out l c ∧
      Holds Cap (r.serve c).2 ((bounded T Cap.toNat).next l c) := by
  cases c with
  | emplace v => exact h.put v
  | push v => exact h.put v
  | pop => exact h.take

end Ring

/-- The calls one after another, with no lock to take. -/
def serving (T : Type) (Cap : UInt64) : Machine (Ring T) (Call T) (Reply T) where
  init := .new Cap
  step := Ring.serve

/-- **Refinement.** -/
theorem serving_fifo (hCap : Cap.toNat + 1 < 2 ^ 64) (calls : List (Call T)) :
    (serving T Cap).outs calls = (bounded T Cap.toNat).outs calls ∧
      ((serving T Cap).after calls).Holds Cap ((bounded T Cap.toNat).after calls) :=
  Machine.sim (Ring.holdsAs_new hCap Cell.value) fun _ _ c h => h.serve c

/-! ## Both classes -/

/-- Unlocked around a ring, the machine serves a call on the ring and is unlocked again. -/
structure Serves {σ : Type} (M : Machine σ (Call T) (Option (Reply T))) (Cap : UInt64)
    (unlocked : Ring T → σ) : Prop where
  init : M.init = unlocked (.new Cap)
  step : ∀ r c, M.step (unlocked r) c = (some (r.serve c).1, unlocked (r.serve c).2)

theorem queueLK_serves : Serves (queueLK T Cap) Cap fun r => ⟨r, false⟩ where
  init := rfl
  step r c := by
    cases c <;>
      simp only [queueLK, CircularQueueLK.push, CircularQueueLK.emplace, CircularQueueLK.pop,
        Ring.serve, Ring.put, Ring.take, Bool.false_eq_true, if_false] <;>
      split <;> rfl

theorem queueSeq_serves : Serves (queueSeq T Cap) Cap fun r => ⟨r, false⟩ where
  init := rfl
  step r c := by
    cases c <;>
      simp only [queueSeq, CircularQueueSeq.push, CircularQueueSeq.emplace, CircularQueueSeq.pop,
        CircularQueueSeq.compare_exchange_ft_unset, Ring.serve, Ring.put, Ring.take,
        Option.bind_eq_bind, Option.bind_some] <;>
      split <;> rfl

section Serves

variable {σ : Type} {M : Machine σ (Call T) (Option (Reply T))} {unlocked : Ring T → σ}

theorem Serves.sim (h : Serves M Cap unlocked) (calls : List (Call T)) :
    M.outs calls = ((serving T Cap).outs calls).map some ∧
      M.after calls = unlocked ((serving T Cap).after calls) := by
  have hsim : M.outs calls = ((serving T Cap).relabel id some).outs calls ∧
      M.after calls = unlocked (((serving T Cap).relabel id some).after calls) := by
    refine Machine.sim (R := fun q r => q = unlocked r) h.init fun q r c hq => ?_
    unfold Machine.out Machine.next
    rw [hq, h.step r c]
    exact ⟨rfl, rfl⟩
  rwa [Machine.outs_relabel, Machine.after_relabel, List.map_id] at hsim

theorem Serves.unchanged (h : Serves M Cap unlocked) (r : Ring T) (c : Call T)
    (hout : M.out (unlocked r) c = some (.emplaced false) ∨
      M.out (unlocked r) c = some (.popped none)) : M.next (unlocked r) c = unlocked r := by
  unfold Machine.out at hout
  unfold Machine.next
  rw [h.step r c] at hout ⊢
  exact congrArg unlocked (Ring.serve_unchanged (by simpa using hout))

theorem Serves.behavesAsFifo (h : Serves M Cap unlocked) (ring : σ → Ring T)
    (hring : ∀ r, ring (unlocked r) = r) (hCap : Cap.toNat + 1 < 2 ^ 64)
    (calls : List (Call T)) : BehavesAsFifo M ring Cap.toNat calls where
  answers := by rw [(h.sim calls).1, (serving_fifo hCap calls).1]
  indices pre _ := by
    have hholds := (serving_fifo hCap pre).2
    rw [(h.sim pre).2]
    dsimp only
    rw [hring]
    exact ⟨hholds.head_lt, hholds.tail_lt⟩
  unchanged := by
    rintro ⟨q, c⟩ hp
    obtain ⟨pre, post, -, hq⟩ := Machine.mem_steps.mp hp
    dsimp only at hq ⊢
    rw [hq, (h.sim pre).2]
    exact h.unchanged _ c

end Serves

/-- **Main.** Both queues answer every sequence of calls as the FIFO of at most `Cap` elements
does, and so alike; the indices stay below `m_max_size`, and a call that fails changes
nothing. -/
theorem ring_queues_fifo (Cap : UInt64) (hCap : Cap.toNat + 1 < 2 ^ 64)
    (calls : List (Call T)) :
    BehavesAsFifo (queueLK T Cap) (·.ring) Cap.toNat calls ∧
    BehavesAsFifo (queueSeq T Cap) (·.ring) Cap.toNat calls ∧
    (queueLK T Cap).outs calls = (queueSeq T Cap).outs calls := by
  have hLK := queueLK_serves.behavesAsFifo (T := T) (·.ring) (fun _ => rfl) hCap calls
  have hSeq := queueSeq_serves.behavesAsFifo (T := T) (·.ring) (fun _ => rfl) hCap calls
  exact ⟨hLK, hSeq, hLK.answers.trans hSeq.answers.symm⟩

/-- Around the end of a ring of three cells. -/
theorem ring_queues_fifo_wrap :
    let calls : List (Call Nat) := [.push 1, .emplace 2, .push 3, .pop, .push 3, .pop, .pop, .pop]
    (queueLK Nat 2).outs calls = (queueSeq Nat 2).outs calls ∧
    (queueSeq Nat 2).outs calls = ((bounded Nat 2).outs calls).map some :=
  have h := ring_queues_fifo (T := Nat) 2 (by decide)
    [.push 1, .emplace 2, .push 3, .pop, .push 3, .pop, .pop, .pop]
  ⟨h.2.2, h.2.1.answers⟩

example :
    (bounded Nat 2).outs [.push 1, .emplace 2, .push 3, .pop, .push 3, .pop, .pop, .pop] =
      [.emplaced true, .emplaced true, .emplaced false, .popped (some 1), .emplaced true,
        .popped (some 2), .popped (some 3), .popped none] := by decide

end LearnNotes.Queue
