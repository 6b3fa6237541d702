import LearnNotes.Memory.Handles

/-!
# The handles that are valid

What one call does to `get`, as a function of the handle: a successful `acquire` gives its
object a handle that stood for nothing, a `release` of a valid handle takes that handle away,
and all other handles stand for what they stood for. `Acquires` and `Releases` say so for the
two operations themselves, for callers that are not a `manager` run. `releaseReports_iff`: what
`release` leaves in its error code.
-/

namespace LearnNotes.Memory

open Lib ResourceManager

variable {T : Type} {m m' : ResourceManager T} {h : Handle} {x : T}

/-- `m'` is `m` with the new object `x` under the handle `h`. -/
structure Acquires (m : ResourceManager T) (h : Handle) (x : T) (m' : ResourceManager T) :
    Prop where
  fresh : m.get h = none
  get : m'.get = Function.update m.get h (some m.heap.length)
  heap : m'.heap = m.heap ++ [x]
  inv : PoolInv m'

/-- `m'` is `m` without the handle `h`. -/
structure Releases (m : ResourceManager T) (h : Handle) (m' : ResourceManager T) : Prop where
  get : m'.get = Function.update m.get h none
  heap : m'.heap = m.heap
  inv : PoolInv m'
  length : m'.pool.length = m.pool.length

/-- An empty slot is nobody's. -/
theorem Taken.get_eq_none {idx g : UInt32} {m₁ : ResourceManager T} (ht : Taken m idx g m₁)
    (gen : UInt32) : m.get ⟨idx, gen⟩ = none := by
  refine Option.eq_none_iff_forall_ne_some.mpr fun p hp => ?_
  have := (get_eq_some_iff.mp hp).2
  rcases ht.here with hs | ⟨hs, -⟩ <;> rw [hs] at this <;> cases this

/-- **`acquire`.** -/
theorem exists_acquires (hm : PoolInv m) (hfit : Fits m) (t : T) (cb : T → T) :
    ∃ h m', m.acquire (some t) (fun t => some (cb t)) = (some h, m') ∧ Acquires m h (cb t) m' := by
  obtain ⟨idx, g, m₁, ht⟩ := exists_taken hm hfit
  have heq := acquire_eq ht t cb
  have hget := get_next hm hfit (.acquire t cb)
  have hinv := poolInv_next hm hfit (.acquire t cb)
  rw [event_acquire ht] at hget
  rw [next_acquire, heq] at hget hinv
  exact ⟨_, _, heq, ht.get_eq_none _, hget, rfl, hinv⟩

/-- **`release`** of a valid handle. -/
theorem exists_releases (hm : PoolInv m) (hfit : Fits m) (hv : m.is_valid h) (ec : Option Errc) :
    ∃ m', m.release h ec = (ec, m') ∧ Releases m h m' := by
  have heq := release_of_valid hv ec
  have hget := get_next hm hfit (.release h ec)
  have hinv := poolInv_next hm hfit (.release h ec)
  rw [event_release_of_valid hv] at hget
  rw [next_release, heq] at hget hinv
  exact ⟨_, heq, hget, rfl, hinv, List.length_set ..⟩

/-- The new handle stands for the new object. -/
theorem Acquires.get_self (ha : Acquires m h x m') : m'.get h = some m.heap.length := by
  rw [ha.get, Function.update_self]

theorem Acquires.is_valid_iff (ha : Acquires m h x m') {h' : Handle} :
    m'.is_valid h' ↔ h' = h ∨ m.is_valid h' := by
  rw [is_valid_iff_get, is_valid_iff_get, ha.get]
  by_cases he : h' = h
  · subst he
    simp
  · simp [he]

theorem Acquires.not_valid (ha : Acquires m h x m') : ¬ m.is_valid h := by
  rw [is_valid_iff_get, ha.fresh]
  rintro ⟨p, hp⟩
  cases hp

theorem Releases.is_valid_iff (hr : Releases m h m') {h' : Handle} :
    m'.is_valid h' ↔ h' ≠ h ∧ m.is_valid h' := by
  rw [is_valid_iff_get, is_valid_iff_get, hr.get]
  by_cases he : h' = h
  · subst he
    simp
  · simp [he]

/-- The pool never shrinks. -/
theorem length_le_acquire (ctor : Option T) (cb : T → Option T) :
    m.pool.length ≤ (m.acquire ctor cb).2.pool.length := by
  have htake : m.pool.length ≤ m.takeSlot.2.pool.length := by
    unfold takeSlot
    split <;> simp
  unfold acquire
  cases ctor with
  | none => simpa [modifySlot] using htake
  | some t => cases hcb : cb t <;> simpa [modifySlot, hcb] using htake

theorem length_release (h : Handle) (ec : Option Errc) (m : ResourceManager T) :
    (m.release h ec).2.pool.length = m.pool.length := by
  by_cases hv : m.is_valid h
  · rw [release_of_valid hv, List.length_set]
  · obtain ⟨e, he⟩ := release_of_not_valid hv
    rw [he]

/-- The objects' contents play no part. -/
theorem PoolInv.of_heap (hm : PoolInv m) (heap : List T) : PoolInv { m with heap := heap } :=
  ⟨hm.null, hm.nodup, hm.mem_free, hm.count⟩

/-! ## What `release` reports -/

/-- The error code tells what `release` did: it is clear afterwards iff the handle was valid, and
where it is set the slots and the free list are as they were. -/
structure ReleaseReports (m : ResourceManager T) (h : Handle) (ec : Option Errc) : Prop where
  clear_iff : (m.release h ec).1 = none ↔ m.is_valid h
  unchanged : (m.release h ec).1 ≠ none →
    (m.release h ec).2.pool = m.pool ∧ (m.release h ec).2.free = m.free

/-- **Exactly when `release` reports what it did**: a valid handle needs an `ec` that is clear
already. -/
theorem releaseReports_iff (m : ResourceManager T) (h : Handle) (ec : Option Errc) :
    ReleaseReports m h ec ↔ (m.is_valid h → ec = none) := by
  by_cases hv : m.is_valid h
  · rw [forall_prop_of_true hv]
    have heq := release_of_valid hv ec
    constructor
    · intro hr
      have hclear := hr.clear_iff.mpr hv
      rwa [heq] at hclear
    · rintro rfl
      exact ⟨by simp [heq, hv], fun hset => absurd (by rw [heq]) hset⟩
  · obtain ⟨e, he⟩ := release_of_not_valid hv
    refine iff_of_true ⟨?_, fun _ => ?_⟩ fun h => absurd h hv
    · rw [he]
      exact iff_of_false (Option.some_ne_none e) hv
    · rw [he]
      exact ⟨rfl, rfl⟩

/-- A resource is released with the error of an earlier call still in `ec`. -/
theorem release_keeps_error :
    ¬ ReleaseReports ((manager Nat).after [.acquire 7 id]) ⟨1, 1⟩
      (some (.other "skl.graphics" ⟨0x0301, by decide⟩)) := fun h => by
  have hclear := h.clear_iff.mpr (by decide)
  cases hclear

end LearnNotes.Memory
