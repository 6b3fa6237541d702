import LearnNotes.Lib.SpinLock
import LearnNotes.Queue.Fifo

/-!
# `CircularQueueSeq` between threads

The accesses of `emplace` and `pop` to `m_tail`, `m_head` and `m_data`, one at a time, with
what the thread has read so far; `m_max_size` is never written. Each try of the two loops
around `m_atomic_using` is one access of its own. `Access.finish` is the rest of a call made
at once: no access changes it, so the flag guards the ring (`queueLock_guards`), and the
threads' calls are served as one caller's would be: `threads_fifo`.
-/

namespace LearnNotes.Queue

open Lib

variable {T : Type} {Cap : UInt64}

/-! ## The accesses -/

/-- What a thread inside does next. -/
inductive Access (T : Type) where
  /-- `emplace` reads `m_tail` and `m_head` for `(m_tail+1)%m_max_size==m_head`. -/
  | fullTail (v : T)
  | fullHead (v : T) (tail : UInt64)
  /-- `construct(m_data+m_tail,…)` reads `m_tail` and makes the element. -/
  | slotTail (v : T)
  | construct (v : T) (slot : UInt64)
  /-- `m_tail=(m_tail+1)%m_max_size` reads and writes `m_tail`. -/
  | nextTail
  | storeTail (tail : UInt64)
  /-- `pop` reads `m_head` and `m_tail` for `m_head==m_tail`. -/
  | emptyHead
  | emptyTail (head : UInt64)
  /-- `val=std::move(m_data[m_head])` reads `m_head` and moves the element. -/
  | slotHead
  | assign (slot : UInt64)
  /-- `m_head=(m_head+1)%m_max_size` reads and writes `m_head`. -/
  | nextHead (val : Reply T)
  | storeHead (val : Reply T) (head : UInt64)

namespace Access

/-- The first access after `compare_exchange_ft`. -/
def start : Call T → Access T
  | .emplace v | .push v => .fullTail v
  | .pop => .emptyHead

/-- One access: the next one, or what the call returns after `compare_exchange_tf`. -/
def run : Access T → Ring T → (Access T ⊕ Reply T) × Ring T
  | .fullTail v, r => (.inl (.fullHead v r.tail), r)
  | .fullHead v tail, r =>
    if (tail + 1) % r.max_size == r.head then (.inr (.emplaced false), r)
    else (.inl (.slotTail v), r)
  | .slotTail v, r => (.inl (.construct v r.tail), r)
  | .construct v slot, r =>
    (.inl .nextTail, { r with data := Function.update r.data slot.toNat (.obj v) })
  | .nextTail, r => (.inl (.storeTail r.tail), r)
  | .storeTail tail, r =>
    (.inr (.emplaced true), { r with tail := (tail + 1) % r.max_size })
  | .emptyHead, r => (.inl (.emptyTail r.head), r)
  | .emptyTail head, r =>
    if head == r.tail then (.inr (.popped none), r) else (.inl .slotHead, r)
  | .slotHead, r => (.inl (.assign r.head), r)
  | .assign slot, r =>
    (.inl (.nextHead (r.data slot.toNat).assigned),
      { r with data := Function.update r.data slot.toNat .moved })
  | .nextHead val, r => (.inl (.storeHead val r.head), r)
  | .storeHead val head, r => (.inr val, { r with head := (head + 1) % r.max_size })

/-- The rest of the call, with nobody else at the ring. -/
def finish : Access T → Ring T → Reply T × Ring T
  | .fullTail v, r => r.put v
  | .fullHead v tail, r =>
    if (tail + 1) % r.max_size == r.head then (.emplaced false, r)
    else (.emplaced true, (r.construct v).advanceTail)
  | .slotTail v, r => (.emplaced true, (r.construct v).advanceTail)
  | .construct v slot, r =>
    (.emplaced true, { r with data := Function.update r.data slot.toNat (.obj v) }.advanceTail)
  | .nextTail, r => (.emplaced true, r.advanceTail)
  | .storeTail tail, r => (.emplaced true, { r with tail := (tail + 1) % r.max_size })
  | .emptyHead, r => r.take
  | .emptyTail head, r =>
    if head == r.tail then (.popped none, r) else (r.front, r.moveFront.advanceHead)
  | .slotHead, r => (r.front, r.moveFront.advanceHead)
  | .assign slot, r =>
    ((r.data slot.toNat).assigned,
      { r with data := Function.update r.data slot.toNat .moved }.advanceHead)
  | .nextHead val, r => (val, r.advanceHead)
  | .storeHead val head, r => (val, { r with head := (head + 1) % r.max_size })

theorem finish_start (c : Call T) (r : Ring T) : (start c).finish r = r.serve c := by
  cases c <;> rfl

/-- An access leaves the outcome of the call as it was. -/
theorem finish_run (k : Access T) (r : Ring T) :
    (SpinLock.Point.ofSum (k.run r).1).rest finish (k.run r).2 = some (k.finish r) := by
  cases k with
  | fullHead v tail =>
    by_cases hfull : (tail + 1) % r.max_size == r.head
    · simp only [run, finish, if_pos hfull]
      rfl
    · simp only [run, finish, if_neg hfull]
      rfl
  | emptyTail head =>
    by_cases hempty : head == r.tail
    · simp only [run, finish, if_pos hempty]
      rfl
    · simp only [run, finish, if_neg hempty]
      rfl
  | _ => rfl

end Access

/-! ## The threads -/

/-- `CircularQueueSeq` as its threads use it. -/
def queueLock (T : Type) (Cap : UInt64) :
    SpinLock (CircularQueueSeq T) (Call T) (Reply T) (Access T) where
  init := .new Cap
  acquire := CircularQueueSeq.compare_exchange_strong false true
  release := CircularQueueSeq.compare_exchange_strong true false
  start := Access.start
  access k q := ((k.run q.ring).1, { q with ring := (k.run q.ring).2 })

theorem queueLock_guards :
    (queueLock T Cap).Guards (serving T Cap) (fun b r => ⟨r, b⟩) Access.finish where
  init := rfl
  acquire_free _ := rfl
  acquire_taken _ := rfl
  release_taken _ := rfl
  start c r := Access.finish_start c r
  access k r := ⟨(k.run r).1, (k.run r).2, rfl, k.finish_run r⟩

section Threads

variable {ι : Type}

theorem sequential_serving (hCap : Cap.toNat + 1 < 2 ^ 64) (calls : List (ι × Call T)) :
    SpinLock.sequential (serving T Cap) calls =
      SpinLock.sequential (bounded T Cap.toNat) calls := by
  unfold SpinLock.sequential
  rw [(serving_fifo hCap _).1]

variable [DecidableEq ι]

/-- The threads `prog`, each with its calls; an input is the thread that moves. -/
def threads (Cap : UInt64) (prog : ι → List (Call T)) :
    Machine (SpinLock.State ι (CircularQueueSeq T) (Call T) (Reply T) (Access T)) ι
      (Option (SpinLock.Event ι (Call T) (Reply T))) :=
  (queueLock T Cap).system prog

/-- A run of the threads is a run of the FIFO of at most `Cap` elements. -/
structure ThreadsAsFifo (Cap : UInt64) (prog : ι → List (Call T)) (sched : List ι)
    (acquired : List (ι × Call T)) (returned : List (ι × Reply T)) : Prop where
  /-- At most one thread is between `compare_exchange_ft` and `compare_exchange_tf`. -/
  exclusive : (threads Cap prog).EveryState sched fun s => ∀ i j,
    (s.threads i).point ≠ .outside → (s.threads j).point ≠ .outside → i = j
  /-- `compare_exchange_tf` finds the flag true. -/
  finds_true : (threads Cap prog).EveryStep sched fun s i =>
    ∀ r, (s.threads i).point = .leaving r → s.shared.atomic_using = true
  replies : returned <+: SpinLock.sequential (bounded T Cap.toNat) acquired
  pending : acquired.length ≤ returned.length + 1
  program : ∀ i, SpinLock.callsOf i acquired ++ (((threads Cap prog).after sched).threads i).todo =
    prog i
  /-- With nobody inside, the ring holds what the FIFO does. -/
  contents : (∀ i, (((threads Cap prog).after sched).threads i).point = .outside) →
    returned = SpinLock.sequential (bounded T Cap.toNat) acquired ∧
    ((threads Cap prog).after sched).shared.ring.Holds Cap
      ((bounded T Cap.toNat).after (acquired.map Prod.snd))

/-- **Main.** However the accesses of the threads interleave, one thread at most is inside, and
the calls return what the FIFO of at most `Cap` elements answers to them in the order they took
the flag. -/
theorem threads_fifo (Cap : UInt64) (hCap : Cap.toNat + 1 < 2 ^ 64) (prog : ι → List (Call T))
    (sched : List ι) :
    ThreadsAsFifo Cap prog sched (SpinLock.entered ((threads Cap prog).outs sched))
      (SpinLock.left ((threads Cap prog).outs sched)) := by
  have hlin :
      SpinLock.Linearizable (queueLock T Cap) (serving T Cap) (fun b r => ⟨r, b⟩) prog sched :=
    queueLock_guards.linearizable prog sched
  refine ⟨hlin.exclusive, ?_, ?_, hlin.pending, hlin.program, fun hout => ?_⟩
  · intro p hp r hr
    obtain ⟨ring, hring⟩ := hlin.taken.everyStep p hp p.2 (by rw [hr]; nofun)
    rw [hring]
  · rw [← sequential_serving hCap]
    exact hlin.replies
  · have hquiet := hlin.quiet hout
    refine ⟨by rw [← sequential_serving hCap]; exact hquiet.replies, ?_⟩
    show ((queueLock T Cap).system prog |>.after sched).shared.ring.Holds Cap _
    rw [hquiet.shared]
    exact (serving_fifo hCap _).2

/-- A producer and a consumer, with one call each. -/
def oneEach : Bool → List (Call Nat)
  | true => [.push 7]
  | false => [.pop]

/-- The consumer spins while the producer is inside. -/
def spinning : List Bool :=
  [true, false, true, true, false, true, true, true, true, true] ++ List.replicate 8 false

theorem threads_fifo_spinning :
    ThreadsAsFifo 1 oneEach spinning [(true, .push 7), (false, .pop)]
      [(true, .emplaced true), (false, .popped (some 7))] := by
  have h := threads_fifo 1 (by decide) oneEach spinning
  have hentered : SpinLock.entered ((threads 1 oneEach).outs spinning) =
      [(true, .push 7), (false, .pop)] := by decide
  have hleft : SpinLock.left ((threads 1 oneEach).outs spinning) =
      [(true, .emplaced true), (false, .popped (some 7))] := by decide
  rwa [hentered, hleft] at h

end Threads

end LearnNotes.Queue
