import Mathlib
import LearnNotes.Lib.Machine
import LearnNotes.Lib.ReadersWriters

/-!
# `shared_mutex`

`multi-thread/diy_shared_mutex.cpp`. Every `wait` is given a `std::unique_lock` without a mutex,
so the accesses of the threads interleave; a wait's last look at its predicate and what follows
it is granted to be one access. A wait that has to block is taken as one that a notification
ends, or nothing at all. `lock` looks at `is_writer_entered` but never sets it, and
`_reader_count--` is a read and a write: `excludes_iff` says which accesses go wrong.
-/

namespace LearnNotes.Thread

open Lib Lib.ReadersWriters

structure shared_mutex where
  is_writer_entered : Bool := false
  reader_count : UInt32 := 0
  deriving DecidableEq, Repr

inductive Cv where
  | reader_cv
  | writer_cv
  deriving DecidableEq, Repr

/-- The waits: the two of `lock` and the one of `lock_shared`. -/
inductive Wait where
  | no_reader
  | nobody
  | no_writer
  deriving DecidableEq, Repr

/-- Where a thread is. -/
inductive Point where
  | outside
  /-- It is about to look at the predicate of a wait. -/
  | checking (w : Wait)
  | asleep (w : Wait)
  /-- Between `lock()` and `unlock()`. -/
  | writing
  /-- Between `lock_shared()` and `unlock_shared()`. -/
  | reading
  /-- `unlock_shared` has read `_reader_count` and not written it. -/
  | storing (count : UInt32)
  /-- It has these to notify before it returns. -/
  | notifying (cvs : List Cv)
  deriving DecidableEq, Repr

inductive Call where
  | lock
  | lock_shared
  deriving DecidableEq, Repr

/-! ## One thread -/

namespace Wait

def cv : Wait → Cv
  | .no_reader => .reader_cv
  | .nobody | .no_writer => .writer_cv

def pred (m : shared_mutex) : Wait → Bool
  | .no_reader => m.reader_count == 0
  | .nobody => !m.is_writer_entered && m.reader_count == 0
  | .no_writer => !m.is_writer_entered

/-- What follows the wait. -/
def passed (m : shared_mutex) : Wait → shared_mutex × Point
  | .no_reader => (m, .checking .nobody)
  | .nobody => (m, .writing)
  | .no_writer => ({ m with reader_count := m.reader_count + 1 }, .reading)

end Wait

namespace Point

/-- One access; `c` is the call a thread outside makes. -/
def run (m : shared_mutex) (c : Call) : Point → shared_mutex × Point
  | .outside =>
    match c with
    | .lock => (m, .checking .no_reader)
    | .lock_shared => (m, .checking .no_writer)
  | .checking w => if w.pred m then w.passed m else (m, .asleep w)
  -- a spurious wake-up
  | .asleep w => (m, .checking w)
  | .writing =>
    ({ m with is_writer_entered := false }, .notifying [.writer_cv, .reader_cv])
  | .reading => (m, .storing m.reader_count)
  | .storing count => ({ m with reader_count := count - 1 }, .notifying [.reader_cv])
  | .notifying [] => (m, .outside)
  | .notifying (_ :: cvs) => (m, .notifying cvs)

/-- What a thread asleep becomes at `cv.notify_all()`. -/
def woken (cv : Cv) : Point → Point
  | .asleep w => if w.cv = cv then .checking w else .asleep w
  | p => p

/-- The part a thread has in the lock. -/
def role : Point → Role
  | .writing => .exclusive
  | .reading | .storing _ => .shared
  | _ => .none

theorem role_woken (cv : Cv) (p : Point) : (p.woken cv).role = p.role := by
  cases p with
  | asleep w =>
    unfold woken
    dsimp only
    split <;> rfl
  | _ => rfl

end Point

/-! ## The threads -/

variable {ι : Type}

structure State (ι : Type) where
  mtx : shared_mutex
  point : ι → Point

def State.roles (s : State ι) (i : ι) : Role := (s.point i).role

/-- The other threads, when the thread at `p` moves. -/
def notified (p : Point) (point : ι → Point) : ι → Point :=
  match p with
  | .notifying (cv :: _) => fun j => (point j).woken cv
  | _ => point

/-- Any number of threads, each calling what it likes; an input is the thread that moves and
what it calls if it is outside. -/
def threads (ι : Type) [DecidableEq ι] : Machine (State ι) (ι × Call) Unit where
  init := ⟨{}, fun _ => .outside⟩
  step s i :=
    let (mtx, p) := (s.point i.1).run s.mtx i.2
    ((), ⟨mtx, Function.update (notified (s.point i.1) s.point) i.1 p⟩)

/-- Readers and writers exclude each other, and `_reader_count` counts the readers. -/
def Excludes [Fintype ι] (s : State ι) : Prop :=
  Exclusion s.roles ∧ s.mtx.reader_count.toNat = (sharers s.roles).card

/-- A thread goes in only while nobody writes, and `_reader_count` is changed as it was read. -/
def InTurn (s : State ι) (i : ι × Call) : Prop :=
  match s.point i.1 with
  | .checking .nobody => Wait.nobody.pred s.mtx = true → ∀ j, s.point j ≠ .writing
  | .checking .no_writer =>
    Wait.no_writer.pred s.mtx = true →
      (∀ j, s.point j ≠ .writing) ∧ s.mtx.reader_count.toNat + 1 < 2 ^ 32
  | .storing count => count = s.mtx.reader_count
  | _ => True

variable [DecidableEq ι] {s : State ι} {i : ι} {c : Call}

omit [DecidableEq ι] in
theorem role_notified (p : Point) (point : ι → Point) (j : ι) :
    (notified p point j).role = (point j).role := by
  unfold notified
  split
  · exact Point.role_woken _ _
  · rfl

theorem mtx_next (s : State ι) (i : ι) (c : Call) :
    ((threads ι).next s (i, c)).mtx = ((s.point i).run s.mtx c).1 := rfl

/-- A step changes the part of the thread that moves. -/
theorem roles_next (s : State ι) (i : ι) (c : Call) :
    ((threads ι).next s (i, c)).roles =
      Function.update s.roles i ((s.point i).run s.mtx c).2.role := by
  funext j
  have hnext : ((threads ι).next s (i, c)).roles j =
      (Function.update (notified (s.point i) s.point) i ((s.point i).run s.mtx c).2 j).role := rfl
  rw [hnext]
  by_cases hj : j = i
  · rw [hj, Function.update_self, Function.update_self]
  · rw [Function.update_of_ne hj, Function.update_of_ne hj]
    exact role_notified _ _ j

/-- Nobody sets `is_writer_entered`. -/
theorem not_writer_entered (is : List (ι × Call)) :
    ((threads ι).after is).mtx.is_writer_entered = false := by
  refine (Machine.everyState_of_step
    (P := fun s : State ι => s.mtx.is_writer_entered = false) rfl ?_).last
  rintro s ⟨i, c⟩ h
  rw [mtx_next]
  cases s.point i with
  | checking w =>
    unfold Point.run
    dsimp only
    split
    · cases w <;> exact h
    · exact h
  | outside => cases c <;> exact h
  | notifying cvs => cases cvs <;> exact h
  | writing => rfl
  | _ => exact h

/-! ## What one access does to the parts -/

section Step

variable [Fintype ι]

/-- What an access leaves, in the parts and the count. -/
theorem excludes_next {m : shared_mutex} {p : Point} (hrun : (s.point i).run s.mtx c = (m, p)) :
    Excludes ((threads ι).next s (i, c)) ↔
      Exclusion (Function.update s.roles i p.role) ∧
        m.reader_count.toNat = (sharers (Function.update s.roles i p.role)).card := by
  unfold Excludes
  rw [roles_next, mtx_next, hrun]

/-- An access that changes neither. -/
theorem excludes_next_of_quiet (h : Excludes s)
    (hm : ((s.point i).run s.mtx c).1.reader_count = s.mtx.reader_count)
    (hp : ((s.point i).run s.mtx c).2.role = (s.point i).role) :
    Excludes ((threads ι).next s (i, c)) := by
  generalize hrun : (s.point i).run s.mtx c = r at hm hp
  have hsame : Function.update s.roles i r.2.role = s.roles := by
    rw [hp]
    exact Function.update_eq_self i s.roles
  rw [excludes_next hrun, hm, hsame]
  exact h

omit [DecidableEq ι] [Fintype ι] in
theorem roles_ne_exclusive_iff : (∀ j, s.roles j ≠ .exclusive) ↔ ∀ j, s.point j ≠ .writing := by
  refine forall_congr' fun j => not_congr ?_
  unfold State.roles Point.role
  cases s.point j <;> simp

/-- The last look of `lock`: the count says that nobody reads, not that nobody writes. -/
theorem excludes_next_nobody (h : Excludes s) (hi : s.point i = .checking .nobody)
    (hpred : Wait.nobody.pred s.mtx = true) :
    Excludes ((threads ι).next s (i, c)) ↔ ∀ j, s.point j ≠ .writing := by
  have hrun : (s.point i).run s.mtx c = (s.mtx, .writing) := by
    rw [hi]
    exact if_pos hpred
  have hrole : s.roles i = .none := by
    unfold State.roles
    rw [hi]
    rfl
  have hzero : s.mtx.reader_count = 0 := by
    unfold Wait.pred at hpred
    simp only [Bool.and_eq_true, beq_iff_eq] at hpred
    exact hpred.2
  have hnoShared : ∀ j, s.roles j ≠ .shared := fun j hj => by
    have hpos := Finset.card_pos.mpr ⟨j, mem_sharers.mpr hj⟩
    have hcount := h.2
    rw [hzero] at hcount
    exact absurd hcount (Nat.ne_of_lt hpos)
  rw [excludes_next hrun, ← roles_ne_exclusive_iff]
  have hsharers : sharers (Function.update s.roles i Point.writing.role) = sharers s.roles :=
    sharers_keep (hnoShared i) (by decide)
  rw [hsharers, and_iff_left h.2]
  refine (exclusion_exclusive_iff hrole).trans (forall_congr' fun j => ?_)
  have := hnoShared j
  cases hj : s.roles j with
  | shared => exact absurd hj this
  | none | exclusive => simp

/-- The last look of `lock_shared`. -/
theorem excludes_next_no_writer (h : Excludes s) (hi : s.point i = .checking .no_writer)
    (hpred : Wait.no_writer.pred s.mtx = true) :
    Excludes ((threads ι).next s (i, c)) ↔
      (∀ j, s.point j ≠ .writing) ∧ s.mtx.reader_count.toNat + 1 < 2 ^ 32 := by
  have hrun : (s.point i).run s.mtx c =
      ({ s.mtx with reader_count := s.mtx.reader_count + 1 }, .reading) := by
    rw [hi]
    exact if_pos hpred
  have hrole : s.roles i = .none := by
    unfold State.roles
    rw [hi]
    rfl
  have hcard : (sharers (Function.update s.roles i Point.reading.role)).card =
      s.mtx.reader_count.toNat + 1 := by
    rw [h.2]
    exact card_sharers_enter (by rw [hrole]; decide)
  rw [excludes_next hrun, ← roles_ne_exclusive_iff, hcard]
  refine and_congr (exclusion_shared_iff hrole) ?_
  have hlt := s.mtx.reader_count.toNat_lt
  rw [UInt32.toNat_add]
  have hone : (1 : UInt32).toNat = 1 := rfl
  omega

/-- `_reader_count--` writes what it has read, less one. -/
theorem excludes_next_storing {count : UInt32} (h : Excludes s)
    (hi : s.point i = .storing count) :
    Excludes ((threads ι).next s (i, c)) ↔ count = s.mtx.reader_count := by
  have hrun : (s.point i).run s.mtx c =
      ({ s.mtx with reader_count := count - 1 }, .notifying [.reader_cv]) := by
    rw [hi]
    rfl
  have hrole : s.roles i = .shared := by
    unfold State.roles
    rw [hi]
    rfl
  have hcard : (sharers (Function.update s.roles i .none)).card + 1 =
      s.mtx.reader_count.toNat := by
    rw [h.2]
    exact card_sharers_leave hrole (by decide)
  rw [excludes_next hrun]
  have hkeep : Exclusion (Function.update s.roles i (Point.notifying [.reader_cv]).role) :=
    h.1.release i
  rw [and_iff_right hkeep]
  have hnone : (Point.notifying [.reader_cv]).role = .none := rfl
  rw [hnone, ← UInt32.toNat_inj, UInt32.toNat_sub]
  have hone : (1 : UInt32).toNat = 1 := rfl
  have hlt := s.mtx.reader_count.toNat_lt
  have hlt' := count.toNat_lt
  omega

theorem excludes_next_writing (h : Excludes s) (hi : s.point i = .writing) :
    Excludes ((threads ι).next s (i, c)) := by
  have hrun : (s.point i).run s.mtx c =
      ({ s.mtx with is_writer_entered := false }, .notifying [.writer_cv, .reader_cv]) := by
    rw [hi]
    rfl
  have hrole : s.roles i = .exclusive := by
    unfold State.roles
    rw [hi]
    rfl
  rw [excludes_next hrun]
  refine ⟨h.1.release i, h.2.trans (congrArg Finset.card ?_)⟩
  exact (sharers_keep (by rw [hrole]; decide) (by decide)).symm

omit [DecidableEq ι] [Fintype ι] in
/-- The accesses that change nobody's part and not the count. -/
theorem run_quiet {p : Point} {m : shared_mutex} (hchecking : ∀ w, p ≠ .checking w)
    (hstoring : ∀ count, p ≠ .storing count) (hwriting : p ≠ .writing) :
    (p.run m c).1 = m ∧ (p.run m c).2.role = p.role := by
  cases p with
  | outside => cases c <;> exact ⟨rfl, rfl⟩
  | checking w => exact absurd rfl (hchecking w)
  | asleep w => exact ⟨rfl, rfl⟩
  | writing => exact absurd rfl hwriting
  | reading => exact ⟨rfl, rfl⟩
  | storing count => exact absurd rfl (hstoring count)
  | notifying cvs => cases cvs <;> exact ⟨rfl, rfl⟩

/-- A look at a predicate that does not hold. -/
theorem excludes_next_asleep {w : Wait} (h : Excludes s) (hi : s.point i = .checking w)
    (hpred : ¬w.pred s.mtx = true) : Excludes ((threads ι).next s (i, c)) := by
  have hrun : (s.point i).run s.mtx c = (s.mtx, .asleep w) := by
    rw [hi]
    exact if_neg hpred
  exact excludes_next_of_quiet h (by rw [hrun]) (by rw [hrun, hi]; rfl)

theorem excludes_next_checking {w : Wait} (h : Excludes s) (hi : s.point i = .checking w) :
    Excludes ((threads ι).next s (i, c)) ↔ InTurn s (i, c) := by
  by_cases hpred : w.pred s.mtx = true
  · cases w with
    | no_reader =>
      have hrun : (s.point i).run s.mtx c = (s.mtx, .checking .nobody) := by
        rw [hi]
        exact if_pos hpred
      simp only [InTurn, hi, iff_true]
      exact excludes_next_of_quiet h (by rw [hrun]) (by rw [hrun, hi]; rfl)
    | nobody =>
      simp only [InTurn, hi]
      exact (excludes_next_nobody h hi hpred).trans (imp_iff_right hpred).symm
    | no_writer =>
      simp only [InTurn, hi]
      exact (excludes_next_no_writer h hi hpred).trans (imp_iff_right hpred).symm
  · refine iff_of_true (excludes_next_asleep h hi hpred) ?_
    cases w with
    | no_reader => simp only [InTurn, hi]
    | nobody | no_writer =>
      simp only [InTurn, hi]
      exact fun h => absurd h hpred

/-- One access: what it needs is what it takes to keep the exclusion. -/
theorem excludes_next_iff (h : Excludes s) :
    Excludes ((threads ι).next s (i, c)) ↔ InTurn s (i, c) := by
  by_cases hchecking : ∃ w, s.point i = .checking w
  · obtain ⟨w, hi⟩ := hchecking
    exact excludes_next_checking h hi
  · have hinTurn : InTurn s (i, c) ↔
        ∀ count, s.point i = .storing count → count = s.mtx.reader_count := by
      unfold InTurn
      cases hi : s.point i with
      | checking w => exact absurd ⟨w, hi⟩ hchecking
      | storing count => simp
      | _ => simp
    rw [hinTurn]
    by_cases hstoring : ∃ count, s.point i = .storing count
    · obtain ⟨count, hi⟩ := hstoring
      rw [excludes_next_storing h hi, hi]
      simp
    · refine iff_of_true ?_ fun count hi => absurd ⟨count, hi⟩ hstoring
      by_cases hwriting : s.point i = .writing
      · exact excludes_next_writing h hwriting
      · obtain ⟨hm, hp⟩ := run_quiet (c := c) (m := s.mtx) (not_exists.mp hchecking)
          (not_exists.mp hstoring) hwriting
        exact excludes_next_of_quiet h (congrArg _ hm) hp

end Step

/-- The lock excludes exactly while every thread goes in and comes out in turn. -/
theorem excludes_iff [Fintype ι] (is : List (ι × Call)) :
    (threads ι).EveryState is Excludes ↔ (threads ι).EveryStep is InTurn :=
  Machine.everyState_iff_guard ⟨by rintro i ⟨⟩, by simp [sharers, threads, State.roles, Point.role]⟩
    fun s ⟨i, c⟩ h => excludes_next_iff h

/-- The threads of `main`. -/
inductive MainThread where
  | t1
  | t2
  | t3
  deriving DecidableEq, Repr

instance : Fintype MainThread where
  elems := {.t1, .t2, .t3}
  complete t := by cases t <;> decide

/-- `t1` locks, and `t2` goes in beside it to read. -/
def main_run : List (MainThread × Call) :=
  [(.t1, .lock), (.t1, .lock), (.t1, .lock), (.t2, .lock_shared), (.t2, .lock_shared)]

theorem reader_beside_writer :
    ((threads MainThread).after main_run).point .t1 = .writing ∧
      ((threads MainThread).after main_run).point .t2 = .reading ∧
      ¬(threads MainThread).EveryState main_run Excludes := by
  refine ⟨by decide, by decide, fun h => ?_⟩
  have hwriting : ((threads MainThread).after main_run).roles .t1 = .exclusive := by decide
  have hreading : ((threads MainThread).after main_run).roles .t2 = .shared := by decide
  have hnone := h.last.1 .t1 hwriting .t2 (by decide)
  rw [hreading] at hnone
  cases hnone

end LearnNotes.Thread
