import LearnNotes.Lib.Lease
import LearnNotes.Memory.Pool

/-!
# Handle safety

The manager refines a lease table: `get`, as a map from handles to objects, is
the table of the run's events (`get_eq_table`). A handle is issued once as long
as no slot is acquired more than `2^32 - 1` times (`nodup_handles`): the
generation after `k` bumps is `(k - 1) mod (2^32 - 1) + 1`, an `acquire` always
lands on an odd `k`, and `2^32 - 1` is odd, so two acquisitions of one slot agree
only a whole `2^32 - 1` acquisitions apart.
-/

namespace LearnNotes.Memory

open Lib Lib.Lease ResourceManager

variable {T : Type} {m : ResourceManager T}

/-! ## Generations -/

/-- The generation of a slot bumped `k` times. -/
def nthGen : Nat → UInt32
  | 0 => 0
  | k + 1 => nextGen (nthGen k)

theorem nextGen_toNat (g : UInt32) :
    (nextGen g).toNat = if g.toNat = 2 ^ 32 - 1 then 1 else g.toNat + 1 := by
  have hlt := g.toNat_lt
  have hadd := UInt32.toNat_add g 1
  rw [UInt32.toNat_one] at hadd
  have h0 : g + 1 = 0 ↔ (g + 1).toNat = 0 := by
    rw [← UInt32.toNat_inj, UInt32.toNat_zero]
  unfold nextGen
  split
  · next hz =>
    have hz' := h0.mp hz
    rw [hz, if_pos (by omega)]
    rfl
  · next hz =>
    have hz' := mt h0.mpr hz
    rw [if_neg (by omega)]
    omega

/-- The generation cycles through `1 … 2^32 - 1`. -/
theorem nthGen_succ_toNat (k : Nat) : (nthGen (k + 1)).toNat = k % (2 ^ 32 - 1) + 1 := by
  induction k with
  | zero => rfl
  | succ k ih =>
    rw [nthGen, nextGen_toNat, ih]
    split <;> omega

/-- Odd bump counts below two full cycles give different generations. -/
theorem nthGen_odd_inj {j k : Nat} (hj : j < 2 ^ 32 - 1) (hk : k < 2 ^ 32 - 1)
    (h : nthGen (2 * j + 1) = nthGen (2 * k + 1)) : j = k := by
  have h' := congrArg UInt32.toNat h
  rw [nthGen_succ_toNat, nthGen_succ_toNat, Nat.add_right_cancel_iff] at h'
  have hmod : 2 * j ≡ 2 * k [MOD 2 ^ 32 - 1] := h'
  exact (hmod.cancel_left_of_coprime (by decide)).eq_of_lt_of_lt hj hk

/-! ## The run as events -/

/-- One call as an event: a successful `acquire` issues its handle for the object it
created, a `release` that reports no error revokes. -/
def event (m : ResourceManager T) : Call T → Event Handle Ptr
  | .acquire t cb =>
    match (m.acquire (some t) fun t => some (cb t)).1 with
    | some h => .issue h m.heap.length
    | none => .quiet
  | .release h _ => if (m.release h none).1 = none then .revoke h else .quiet

def eventsFrom (m : ResourceManager T) (calls : List (Call T)) : List (Event Handle Ptr) :=
  ((manager T).stepsFrom m calls).map fun p => event p.1 p.2

def events (calls : List (Call T)) : List (Event Handle Ptr) := eventsFrom .new calls

/-- The handles the acquires of a run returned, oldest first. -/
def handles (calls : List (Call T)) : List Handle :=
  ((manager T).outs calls).filterMap fun
    | .handle h => h
    | .ec _ => none

/-- How often slot `i` was handed out. -/
def timesAcquired (i : UInt32) (hs : List Handle) : Nat := hs.countP (·.index == i)

theorem event_acquire {idx g : UInt32} {m₁ : ResourceManager T} (ht : Taken m idx g m₁) (t : T)
    (cb : T → T) : event m (.acquire t cb) = .issue ⟨idx, nextGen g⟩ m.heap.length := by
  simp only [event, acquire_eq ht]

theorem event_release_of_valid {h : Handle} (hv : m.is_valid h) (ec : Option Errc) :
    event m (.release h ec) = .revoke h := by
  simp only [event, release_of_valid hv, if_true]

theorem event_release_of_not_valid {h : Handle} (hv : ¬ m.is_valid h) (ec : Option Errc) :
    event m (.release h ec) = .quiet := by
  obtain ⟨e, he⟩ := release_of_not_valid hv
  simp only [event, he, reduceCtorEq, if_false]

theorem events_snoc (calls : List (Call T)) (c : Call T) :
    events (calls ++ [c]) = events calls ++ [event ((manager T).after calls) c] := by
  unfold events eventsFrom
  rw [Machine.stepsFrom_append]
  simp [Machine.after]

/-- The event log records exactly the handles that were returned. -/
theorem issued_event (hm : PoolInv m) (hfit : Fits m) (c : Call T) :
    issued [event m c] = ([(manager T).out m c].filterMap fun
      | .handle h => h
      | .ec _ => none) := by
  cases c with
  | acquire t cb =>
    obtain ⟨idx, g, m₁, ht⟩ := exists_taken hm hfit
    rw [event_acquire ht]
    simp only [out_acquire, acquire_eq ht]
    rfl
  | release h ec =>
    by_cases hv : m.is_valid h
    · rw [event_release_of_valid hv]
      rfl
    · rw [event_release_of_not_valid hv]
      rfl

theorem issued_events {calls : List (Call T)} (hfit : (manager T).EveryState calls Fits) :
    issued (events calls) = handles calls := by
  have hinv := everyState_poolInv hfit
  induction calls using List.reverseRecOn with
  | nil => rfl
  | append_singleton calls c ih =>
    obtain ⟨hfit, -⟩ := Machine.everyState_snoc.mp hfit
    obtain ⟨hinv, -⟩ := Machine.everyState_snoc.mp hinv
    rw [events_snoc, issued_append, ih hfit hinv, issued_event hinv.last hfit.last]
    simp [handles, Machine.outs_snoc, List.filterMap_append]

/-! ## Refinement of the lease table -/

/-- `acquire` names a resource by the new handle, where there was none. -/
theorem get_acquire {idx g : UInt32} {m₁ : ResourceManager T} (ht : Taken m idx g m₁) (t : T)
    (cb : T → T) :
    ((manager T).next m (.acquire t cb)).get =
      Function.update m.get ⟨idx, nextGen g⟩ (some m.heap.length) := by
  funext h
  apply Option.ext
  intro p
  have hlt := (List.getElem?_eq_some_iff.mp ht.slot).1
  simp only [next_acquire, acquire_eq ht, Function.update_apply]
  rw [get_eq_some_iff]
  by_cases hi : h.index = idx
  · -- the taken slot was empty, so only the new handle names a resource there
    have hold : m.get h ≠ some p := fun hp => by
      have := (get_eq_some_iff.mp hp).2
      rw [hi] at this
      rcases ht.here with hs | ⟨hs, -⟩ <;> rw [hs] at this <;> cases this
    obtain ⟨i, gen⟩ := h
    subst hi
    by_cases hgen : gen = nextGen g
    · simp [hlt, hgen, ht.ne_zero]
    · simp [hlt, hgen, Ne.symm hgen, ht.ne_zero, hold]
  · have hne : h ≠ ⟨idx, nextGen g⟩ := fun e => hi (by rw [e])
    rw [if_neg hne, get_eq_some_iff, List.getElem?_set_ne (toNat_ne (Ne.symm hi)),
      ht.other _ (toNat_ne hi)]

/-- `release` takes the name away. -/
theorem get_release {h' : Handle} (hv : m.is_valid h') (ec : Option Errc) :
    ((manager T).next m (.release h' ec)).get = Function.update m.get h' none := by
  funext h
  apply Option.ext
  intro p
  obtain ⟨h0, q, hq⟩ := is_valid_iff.mp hv
  have hlt := (List.getElem?_eq_some_iff.mp hq).1
  simp only [next_release, release_of_valid hv, Function.update_apply]
  rw [get_eq_some_iff]
  by_cases hi : h.index = h'.index
  · -- only `h'` named the slot's resource, and the slot is empty now
    rw [hi]
    simp only [hlt, List.getElem?_set_self, Option.some.injEq, Slot.mk.injEq, reduceCtorEq,
      false_and, and_false, false_iff]
    split
    · exact fun h => by cases h
    · next hne =>
      intro hp
      have := (get_eq_some_iff.mp hp).2
      rw [hi, hq] at this
      simp only [Option.some.injEq, Slot.mk.injEq] at this
      exact hne (by cases h; cases h'; simp_all)
  · have hne : h ≠ h' := fun e => hi (by rw [e])
    rw [if_neg hne, get_eq_some_iff, List.getElem?_set_ne (toNat_ne (Ne.symm hi))]

/-- **One call is one event of the table.** -/
theorem get_next (hm : PoolInv m) (hfit : Fits m) (c : Call T) :
    ((manager T).next m c).get = Lease.apply m.get (event m c) := by
  cases c with
  | acquire t cb =>
    obtain ⟨idx, g, m₁, ht⟩ := exists_taken hm hfit
    rw [event_acquire ht]
    exact get_acquire ht t cb
  | release h ec =>
    by_cases hv : m.is_valid h
    · rw [event_release_of_valid hv]
      exact get_release hv ec
    · obtain ⟨e, he⟩ := release_of_not_valid hv
      rw [event_release_of_not_valid hv]
      simp only [next_release, he, Lease.apply]

/-- **Refinement.** After any run, `get` is the lease table of its events. -/
theorem get_eq_table {calls : List (Call T)} (hfit : (manager T).EveryState calls Fits) :
    ((manager T).after calls).get = table (events calls) := by
  have hinv := everyState_poolInv hfit
  induction calls using List.reverseRecOn with
  | nil =>
    funext h
    refine Option.eq_none_iff_forall_ne_some.mpr fun p hp => ?_
    obtain ⟨h0, hs⟩ := get_eq_some_iff.mp hp
    have : h.index.toNat < 1 := (List.getElem?_eq_some_iff.mp hs).1
    exact toNat_ne h0 (by rw [UInt32.toNat_zero]; omega)
  | append_singleton calls c ih =>
    obtain ⟨hfit, -⟩ := Machine.everyState_snoc.mp hfit
    obtain ⟨hinv, -⟩ := Machine.everyState_snoc.mp hinv
    rw [Machine.after_snoc, get_next hinv.last hfit.last, ih hfit hinv, events_snoc, table_snoc]

/-! ## Handles are issued once -/

theorem timesAcquired_snoc (i : UInt32) (hs : List Handle) (h : Handle) :
    timesAcquired i (hs ++ [h]) = timesAcquired i hs + if h.index = i then 1 else 0 := by
  simp [timesAcquired, List.countP_append, List.countP_singleton]

/-- Each slot's generation counts its bumps, two for every acquisition that was
released and one for the one that was not; each handle returned so far carries the
generation of one of them. -/
structure GenInv (m : ResourceManager T) (hs : List Handle) : Prop where
  empty : ∀ i g, i ≠ 0 → m.pool[i.toNat]? = some ⟨none, g⟩ →
    g = nthGen (2 * timesAcquired i hs)
  full : ∀ i p g, m.pool[i.toNat]? = some ⟨some p, g⟩ →
    ∃ n, timesAcquired i hs = n + 1 ∧ g = nthGen (2 * n + 1)
  absent : ∀ i, m.pool[i.toNat]? = none → timesAcquired i hs = 0
  issued : ∀ h ∈ hs, ∃ k < timesAcquired h.index hs, h.generation = nthGen (2 * k + 1)

theorem genInv_new : GenInv (new : ResourceManager T) [] where
  empty i g h0 hg := by
    obtain ⟨hlt, -⟩ := List.getElem?_eq_some_iff.mp hg
    have : i.toNat < 1 := hlt
    exact absurd (by rw [UInt32.toNat_zero]; omega) (toNat_ne h0)
  full i p g hg := by
    obtain ⟨hlt, heq⟩ := List.getElem?_eq_some_iff.mp hg
    have : i.toNat = 0 := Nat.lt_one_iff.mp hlt
    simp [new, this] at heq
  absent _ _ := rfl
  issued _ h := by cases h

/-- The taken slot's generation counts the acquisitions it has had. -/
theorem GenInv.taken {hs : List Handle} {idx g : UInt32} {m₁ : ResourceManager T}
    (hg : GenInv m hs) (ht : Taken m idx g m₁) : g = nthGen (2 * timesAcquired idx hs) := by
  rcases ht.here with hs' | ⟨hs', rfl⟩
  · exact hg.empty idx g ht.ne_zero hs'
  · rw [hg.absent idx hs']
    rfl

/-- One slot is written, and only its acquisitions change. -/
theorem GenInv.write {hs hs' : List Handle} {m' : ResourceManager T} {idx : UInt32} {slot : Slot}
    (hg : GenInv m hs) (hslot : m'.pool[idx.toNat]? = some slot)
    (hother : ∀ i, i ≠ idx → m'.pool[i.toNat]? = m.pool[i.toNat]? ∧
      timesAcquired i hs' = timesAcquired i hs)
    (hempty : ∀ g, slot = ⟨none, g⟩ → g = nthGen (2 * timesAcquired idx hs'))
    (hfull : ∀ p g, slot = ⟨some p, g⟩ →
      ∃ n, timesAcquired idx hs' = n + 1 ∧ g = nthGen (2 * n + 1))
    (hissued : ∀ h ∈ hs', ∃ k < timesAcquired h.index hs', h.generation = nthGen (2 * k + 1)) :
    GenInv m' hs' := by
  refine ⟨fun i g h0 hi => ?_, fun i p g hi => ?_, fun i hi => ?_, hissued⟩
  · by_cases hne : i = idx
    · subst hne
      exact hempty g (Option.some.inj (hslot.symm.trans hi))
    · rw [(hother i hne).1] at hi
      rw [(hother i hne).2]
      exact hg.empty i g h0 hi
  · by_cases hne : i = idx
    · subst hne
      exact hfull p g (Option.some.inj (hslot.symm.trans hi))
    · rw [(hother i hne).1] at hi
      rw [(hother i hne).2]
      exact hg.full i p g hi
  · by_cases hne : i = idx
    · subst hne
      cases hslot.symm.trans hi
    · rw [(hother i hne).1] at hi
      rw [(hother i hne).2]
      exact hg.absent i hi

theorem genInv_acquire {hs : List Handle} {idx g : UInt32} {m₁ : ResourceManager T}
    (hg : GenInv m hs) (ht : Taken m idx g m₁) (p : Ptr) (heap : List T) :
    GenInv ⟨m₁.pool.set idx.toNat ⟨some p, nextGen g⟩, m₁.free, heap⟩
      (hs ++ [⟨idx, nextGen g⟩]) := by
  have hgen := hg.taken ht
  have hlt := (List.getElem?_eq_some_iff.mp ht.slot).1
  have hidx : timesAcquired idx (hs ++ [⟨idx, nextGen g⟩]) = timesAcquired idx hs + 1 := by
    rw [timesAcquired_snoc, if_pos rfl]
  refine hg.write (List.getElem?_set_self hlt) (fun i hi => ?_) (fun g' hs' => ?_)
    (fun p' g' hs' => ?_) fun h hmem => ?_
  · rw [List.getElem?_set_ne (toNat_ne (Ne.symm hi)), ht.other _ (toNat_ne hi),
      timesAcquired_snoc, if_neg (Ne.symm hi)]
    exact ⟨rfl, rfl⟩
  · cases hs'
  · cases hs'
    exact ⟨_, hidx, by rw [hgen]; rfl⟩
  · rcases List.mem_append.mp hmem with hmem | hmem
    · obtain ⟨k, hk, hkg⟩ := hg.issued h hmem
      refine ⟨k, lt_of_lt_of_le hk ?_, hkg⟩
      rw [timesAcquired_snoc]
      exact Nat.le_add_right _ _
    · rw [List.mem_singleton.mp hmem]
      exact ⟨timesAcquired idx hs, by simp only [hidx]; omega, by rw [hgen]; rfl⟩

theorem genInv_release {hs : List Handle} {h : Handle} (hg : GenInv m hs) (hv : m.is_valid h) :
    GenInv
      { m with
        pool := m.pool.set h.index.toNat ⟨none, nextGen h.generation⟩
        free := h.index :: m.free } hs := by
  obtain ⟨h0, p, hp⟩ := is_valid_iff.mp hv
  have hlt := (List.getElem?_eq_some_iff.mp hp).1
  refine hg.write (List.getElem?_set_self hlt) (fun i hi => ?_) (fun g hs' => ?_)
    (fun p' g hs' => ?_) hg.issued
  · exact ⟨List.getElem?_set_ne (toNat_ne (Ne.symm hi)), rfl⟩
  · cases hs'
    obtain ⟨n, hn, hgn⟩ := hg.full h.index p _ hp
    rw [hn, hgn]
    rfl
  · cases hs'

/-- One call keeps the generation count, and issues no handle twice while slots
are acquired at most `2^32 - 1` times. -/
theorem genInv_next {hs : List Handle} (hm : PoolInv m) (hfit : Fits m) (hg : GenInv m hs)
    (c : Call T) :
    GenInv ((manager T).next m c) (hs ++ issued [event m c]) ∧
      ((∀ i, timesAcquired i (hs ++ issued [event m c]) ≤ 2 ^ 32 - 1) → hs.Nodup →
        (hs ++ issued [event m c]).Nodup) := by
  cases c with
  | acquire t cb =>
    obtain ⟨idx, g, m₁, ht⟩ := exists_taken hm hfit
    rw [event_acquire ht]
    simp only [next_acquire, acquire_eq ht, issued_issue, issued_nil]
    refine ⟨genInv_acquire hg ht _ _, fun hle hnd => ?_⟩
    refine List.nodup_append.mpr ⟨hnd, List.nodup_singleton _, fun a ha b hb hab => ?_⟩
    rw [List.mem_singleton] at hb
    subst hab hb
    -- an older handle of this slot carries the generation of an earlier acquisition
    obtain ⟨k, hk, hkg⟩ := hg.issued _ ha
    replace hk : k < timesAcquired idx hs := hk
    have hbound := hle idx
    rw [timesAcquired_snoc, if_pos rfl] at hbound
    rw [hg.taken ht] at hkg
    exact absurd (nthGen_odd_inj (by omega) (by omega) hkg) (by omega)
  | release h ec =>
    by_cases hv : m.is_valid h
    · rw [event_release_of_valid hv]
      simp only [next_release, release_of_valid hv, issued_revoke, issued_nil,
        List.append_nil]
      exact ⟨genInv_release hg hv, fun _ hnd => hnd⟩
    · obtain ⟨e, he⟩ := release_of_not_valid hv
      rw [event_release_of_not_valid hv]
      simp only [next_release, he, issued_quiet, issued_nil, List.append_nil]
      exact ⟨hg, fun _ hnd => hnd⟩

theorem genInv_after {calls : List (Call T)} (hfit : (manager T).EveryState calls Fits) :
    GenInv ((manager T).after calls) (issued (events calls)) ∧
      ((∀ i, timesAcquired i (issued (events calls)) ≤ 2 ^ 32 - 1) →
        (issued (events calls)).Nodup) := by
  have hinv := everyState_poolInv hfit
  induction calls using List.reverseRecOn with
  | nil => exact ⟨genInv_new, fun _ => List.nodup_nil⟩
  | append_singleton calls c ih =>
    obtain ⟨hfit, -⟩ := Machine.everyState_snoc.mp hfit
    obtain ⟨hinv, -⟩ := Machine.everyState_snoc.mp hinv
    obtain ⟨hg, hnd⟩ := ih hfit hinv
    obtain ⟨hg', hnd'⟩ := genInv_next hinv.last hfit.last hg c
    rw [Machine.after_snoc, events_snoc, issued_append]
    refine ⟨hg', fun hle => hnd' hle (hnd fun i => le_trans ?_ (hle i))⟩
    rw [timesAcquired, timesAcquired, List.countP_append]
    exact Nat.le_add_right _ _

/-! ## Handle safety -/

/-- Some call among `calls`, made from `m` on, successfully released `h`. -/
def Released (m : ResourceManager T) (calls : List (Call T)) (h : Handle) : Prop :=
  ∃ p ∈ (manager T).stepsFrom m calls, ∃ ec, p.2 = .release h ec ∧ (p.1.release h none).1 = none

theorem revoke_mem_events {calls : List (Call T)} {h : Handle} :
    .revoke h ∈ eventsFrom m calls ↔ Released m calls h := by
  simp only [eventsFrom, List.mem_map, Released]
  refine exists_congr fun p => and_congr_right fun _ => ?_
  obtain ⟨s, c⟩ := p
  cases c with
  | acquire t cb =>
    simp only [event, reduceCtorEq, false_and, exists_false, iff_false]
    split <;> exact fun h => by cases h
  | release h' ec =>
    simp only [event, Call.release.injEq]
    split
    · next hok =>
      simp only [Event.revoke.injEq]
      exact ⟨fun e => ⟨ec, ⟨e, rfl⟩, e ▸ hok⟩, fun ⟨_, ⟨e, _⟩, _⟩ => e⟩
    · next hbad =>
      simp only [reduceCtorEq, false_iff]
      rintro ⟨_, ⟨rfl, _⟩, hok⟩
      exact hbad hok

theorem heap_next (hm : PoolInv m) (hfit : Fits m) (c : Call T) :
    m.heap <+: ((manager T).next m c).heap := by
  cases c with
  | acquire t cb =>
    obtain ⟨idx, g, m₁, ht⟩ := exists_taken hm hfit
    simp only [next_acquire, acquire_eq ht]
    exact List.prefix_append _ _
  | release h ec =>
    rw [next_release]
    by_cases hv : m.is_valid h
    · rw [release_of_valid hv]
    · obtain ⟨e, he⟩ := release_of_not_valid hv
      rw [he]

/-- Objects stay where they were created. -/
theorem heap_after (pre post : List (Call T))
    (hfit : (manager T).EveryState (pre ++ post) Fits) :
    ((manager T).after pre).heap <+: ((manager T).after (pre ++ post)).heap := by
  have hinv := everyState_poolInv hfit
  induction post using List.reverseRecOn with
  | nil => rw [List.append_nil]
  | append_singleton post c ih =>
    rw [← List.append_assoc] at hfit hinv ⊢
    obtain ⟨hfit, -⟩ := Machine.everyState_snoc.mp hfit
    obtain ⟨hinv, -⟩ := Machine.everyState_snoc.mp hinv
    rw [Machine.after_snoc]
    exact (ih hfit hinv).trans (heap_next hinv.last hfit.last c)

theorem events_split (pre post : List (Call T)) (c : Call T) :
    events (pre ++ c :: post) =
      events pre ++ event ((manager T).after pre) c ::
        eventsFrom ((manager T).after (pre ++ [c])) post := by
  rw [Machine.after_snoc]
  simp only [events, eventsFrom, Machine.stepsFrom_append, List.map_append]
  rfl

theorem nodup_issued_of_append {pre post : List (Call T)}
    (hnd : (issued (events (pre ++ post))).Nodup) : (issued (events pre)).Nodup := by
  unfold events eventsFrom at hnd ⊢
  rw [Machine.stepsFrom_append, List.map_append, issued_append] at hnd
  exact (List.nodup_append.mp hnd).1

section Leased

variable {pre mid : List (Call T)} {t : T} {cb : T → T} {h : Handle}

/-- The handle of an `acquire` names its object until it is released, and nothing after. -/
theorem get_leased (hfit : (manager T).EveryState (pre ++ .acquire t cb :: mid) Fits)
    (hnd : (issued (events (pre ++ .acquire t cb :: mid))).Nodup)
    (hacq : (((manager T).after pre).acquire (some t) fun t => some (cb t)).1 = some h) :
    let start := (manager T).after (pre ++ [.acquire t cb])
    (¬ Released start mid h →
        ((manager T).afterFrom start mid).get h = some ((manager T).after pre).heap.length) ∧
      (Released start mid h → ((manager T).afterFrom start mid).get h = none) := by
  intro start
  have hev : event ((manager T).after pre) (.acquire t cb) =
      .issue h ((manager T).after pre).heap.length := by
    simp only [event, hacq]
  have hafter : (manager T).after (pre ++ .acquire t cb :: mid) =
      (manager T).afterFrom start mid := by
    rw [List.append_cons, Machine.after_append]
  rw [events_split, hev] at hnd
  rw [← hafter, get_eq_table hfit, events_split, hev, ← revoke_mem_events]
  exact table_of_issue hnd

theorem is_valid_leased (hfit : (manager T).EveryState (pre ++ .acquire t cb :: mid) Fits)
    (hnd : (issued (events (pre ++ .acquire t cb :: mid))).Nodup)
    (hacq : (((manager T).after pre).acquire (some t) fun t => some (cb t)).1 = some h) :
    let start := (manager T).after (pre ++ [.acquire t cb])
    ((manager T).afterFrom start mid).is_valid h ↔ ¬ Released start mid h := by
  intro start
  obtain ⟨hlive, hdead⟩ := get_leased hfit hnd hacq
  rw [is_valid_iff_get]
  constructor
  · rintro ⟨p, hp⟩ hrel
    rw [hdead hrel] at hp
    cases hp
  · exact fun hrel => ⟨_, hlive hrel⟩

/-- The object an `acquire` appended is what `init_cb` made of it, at every later point. -/
theorem object_leased (hfit : (manager T).EveryState (pre ++ .acquire t cb :: mid) Fits) :
    ((manager T).afterFrom ((manager T).after (pre ++ [.acquire t cb])) mid).heap[
      ((manager T).after pre).heap.length]? = some (cb t) := by
  have hpre : pre <+: pre ++ .acquire t cb :: mid := List.prefix_append _ _
  obtain ⟨idx, g, m₁, ht⟩ := exists_taken (everyState_poolInv hfit pre hpre) (hfit pre hpre)
  have hstart : ((manager T).after (pre ++ [.acquire t cb])).heap[
      ((manager T).after pre).heap.length]? = some (cb t) := by
    simp only [Machine.after_snoc, next_acquire, acquire_eq ht]
    simp
  rw [List.append_cons] at hfit
  obtain ⟨tail, htail⟩ := heap_after (pre ++ [.acquire t cb]) mid hfit
  rw [← Machine.after_append, ← htail,
    List.getElem?_append_left (List.getElem?_eq_some_iff.mp hstart).1]
  exact hstart

end Leased

/-- **Handle safety.** In every run with fewer than `2^32` slots in which no slot is
acquired more than `2^32 - 1` times, the handles returned are pairwise different, and
each is valid until it is released, names the object its `acquire` created as long as
it is valid, and is never valid again after that. -/
theorem handle_safety (calls : List (Call T)) (hfit : (manager T).EveryState calls Fits)
    (hreuse : ∀ i, timesAcquired i (handles calls) ≤ 2 ^ 32 - 1) :
    (handles calls).Nodup ∧
      ∀ pre t cb h post, calls = pre ++ .acquire t cb :: post →
        (((manager T).after pre).acquire (some t) fun t => some (cb t)).1 = some h →
        let obj := ((manager T).after pre).heap.length
        let start := (manager T).after (pre ++ [.acquire t cb])
        ∀ mid rest, post = mid ++ rest →
          let m := (manager T).afterFrom start mid
          (m.is_valid h ↔ ¬ Released start mid h) ∧
            (m.is_valid h → m.get h = some obj ∧ m.heap[obj]? = some (cb t)) ∧
            (Released start mid h → ∀ more rest', rest = more ++ rest' →
              ¬ ((manager T).afterFrom m more).is_valid h) := by
  have hnd : (issued (events calls)).Nodup :=
    (genInv_after hfit).2 (by rw [issued_events hfit]; exact hreuse)
  refine ⟨issued_events hfit ▸ hnd, ?_⟩
  rintro pre t cb h post rfl hacq obj start
  -- what is left of the run after any later point changes nothing
  have hcut : ∀ mid rest, pre ++ .acquire t cb :: (mid ++ rest) =
      pre ++ .acquire t cb :: mid ++ rest := fun mid rest => by simp
  have hvalid : ∀ mid rest, post = mid ++ rest →
      (((manager T).afterFrom start mid).is_valid h ↔ ¬ Released start mid h) := by
    rintro mid rest rfl
    rw [hcut] at hfit hnd
    exact is_valid_leased (hfit.restrict (List.prefix_append _ _)) (nodup_issued_of_append hnd) hacq
  rintro mid rest rfl m
  refine ⟨hvalid mid rest rfl, fun hv => ?_, ?_⟩
  · have hrel := (hvalid mid rest rfl).mp hv
    rw [hcut] at hfit hnd
    have hfit' := hfit.restrict (List.prefix_append _ _)
    exact ⟨(get_leased hfit' (nodup_issued_of_append hnd) hacq).1 hrel, object_leased hfit'⟩
  · rintro ⟨p, hp, hrel⟩ more rest' rfl hv
    have hm : (manager T).afterFrom m more = (manager T).afterFrom start (mid ++ more) := by
      rw [Machine.afterFrom_append]
    rw [hm] at hv
    refine (hvalid (mid ++ more) rest' (by simp)).mp hv ⟨p, ?_, hrel⟩
    rw [Machine.stepsFrom_append]
    exact List.mem_append_left _ hp

/-- A released handle and the next tenant of its slot. -/
theorem handle_safety_reuse :
    let calls : List (Call Nat) := [.acquire 0 (· + 7), .release ⟨1, 1⟩ none, .acquire 0 (· + 9)]
    handles calls = [⟨1, 1⟩, ⟨1, 3⟩] ∧ (handles calls).Nodup ∧
      ((manager Nat).after [.acquire 0 (· + 7)]).get ⟨1, 1⟩ = some 0 ∧
      ¬ ((manager Nat).after calls).is_valid ⟨1, 1⟩ := by
  have h := handle_safety (T := Nat)
    [.acquire 0 (· + 7), .release ⟨1, 1⟩ none, .acquire 0 (· + 9)] (by decide)
    fun i => le_trans List.countP_le_length (by decide)
  have hacq := h.2 [] 0 (· + 7) ⟨1, 1⟩ [.release ⟨1, 1⟩ none, .acquire 0 (· + 9)] rfl (by decide)
  refine ⟨by decide, h.1, ((hacq [] _ rfl).2.1 (by decide)).1, fun hv => ?_⟩
  exact (hacq [.release ⟨1, 1⟩ none, .acquire 0 (· + 9)] [] rfl).1.mp hv
    ⟨(_, .release ⟨1, 1⟩ none), .head _, none, rfl, by decide⟩

end LearnNotes.Memory
