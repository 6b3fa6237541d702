import LearnNotes.Memory.Pool

/-!
# An `acquire` that throws

`T()` and `init_cb` may throw, and `acquire` undoes nothing when they do: the slot it took stays
taken, with a generation no handle carries. `throwingManager` serves runs with such calls.
`acquire_not_leakFree`: no `acquire` that throws is free of leaks, whatever the run before it.
`acquire_strands`: the handles of the run stay valid all the same, and the slot that is lost is
neither on the free list nor any live handle's.
-/

namespace LearnNotes.Memory

open Lib ResourceManager

/-- The calls of a run in which `acquire` may throw: `ctor` and `init_cb` are `acquire`'s. -/
inductive ThrowingCall (T : Type) where
  | acquire (ctor : Option T) (init_cb : T → Option T)
  | release (h : Handle) (ec : Option Errc)

/-- The manager serving them; an `acquire` that throws returns no handle. -/
def throwingManager (T : Type) : Machine (ResourceManager T) (ThrowingCall T) Reply where
  init := .new
  step m
    | .acquire ctor init_cb =>
      let (h, m) := m.acquire ctor init_cb
      (.handle h, m)
    | .release h ec =>
      let (ec, m) := m.release h ec
      (.ec ec, m)

variable {T : Type} {m : ResourceManager T} {ctor : Option T} {cb : T → Option T}

/-- The handles the run returned, oldest first. -/
def returned (calls : List (ThrowingCall T)) : List Handle :=
  ((throwingManager T).outs calls).filterMap fun
    | .handle h => h
    | .ec _ => none

/-- `T()` throws, or `init_cb` does. -/
def Throws (ctor : Option T) (init_cb : T → Option T) : Prop := ctor.bind init_cb = none

/-- What an `acquire` from `m` to `m'` that fails should leave to those who hold `hs`: as many
resources active, each slot free that no live handle of theirs names, and their handles valid. -/
structure LeakFree (hs : List Handle) (m m' : ResourceManager T) : Prop where
  active : m'.active = m.active
  free : ∀ i : UInt32, 1 ≤ i.toNat → i.toNat < m'.pool.length →
    (¬ ∃ h ∈ hs, m.is_valid h ∧ h.index = i) → i ∈ m'.free
  valid : ∀ h ∈ hs, m.is_valid h → m'.is_valid h

/-! ## One call -/

/-- However `acquire` ends, it has taken a slot and written to that slot. -/
theorem exists_acquire_eq (m : ResourceManager T) (ctor : Option T) (cb : T → Option T) :
    ∃ f heap, (m.acquire ctor cb).2 =
      { m.takeSlot.2.modifySlot m.takeSlot.1 f with heap := heap } := by
  have hmod : ∀ (m : ResourceManager T) idx (f g : Slot → Slot),
      (m.modifySlot idx f).modifySlot idx g = m.modifySlot idx (g ∘ f) := fun m idx f g => by
    unfold modifySlot
    rw [List.modify_modify_eq]
  unfold acquire
  cases ctor with
  | none => exact ⟨_, m.takeSlot.2.heap, rfl⟩
  | some t =>
    cases hcb : cb t with
    | none =>
      simp only [hcb, hmod]
      exact ⟨_, _, rfl⟩
    | some t' =>
      simp only [hcb, hmod]
      exact ⟨_, _, rfl⟩

theorem acquire_fst_eq_none_iff : (m.acquire ctor cb).1 = none ↔ Throws ctor cb := by
  unfold acquire Throws
  cases ctor with
  | none => simp
  | some t => cases hcb : cb t <;> simp [hcb]

theorem active_takeSlot (m : ResourceManager T) : m.takeSlot.2.active = m.active + 1 := by
  have hone : UInt64.ofNat 1 = 1 := rfl
  unfold takeSlot active capacity
  cases m.free with
  | nil =>
    simp only [List.length_append, List.length_singleton, UInt64.ofNat_add, hone]
    grind
  | cons idx free =>
    simp only [List.length_cons, UInt64.ofNat_add, hone]
    grind

/-- Whether it throws or not, `acquire` leaves one resource more active. -/
theorem active_acquire (m : ResourceManager T) (ctor : Option T) (cb : T → Option T) :
    (m.acquire ctor cb).2.active = m.active + 1 := by
  obtain ⟨f, heap, heq⟩ := exists_acquire_eq m ctor cb
  rw [heq, ← active_takeSlot]
  simp [active, capacity, modifySlot]

/-! ## The free list -/

/-- What throwing leaves of the pool invariant: the free list is empty slots, and slot 0 is not one
of them. -/
structure FreeInv (m : ResourceManager T) : Prop where
  pos : 0 < m.pool.length
  nodup : m.free.Nodup
  empty : ∀ i ∈ m.free, i ≠ 0 ∧ ∃ g, m.pool[i.toNat]? = some ⟨none, g⟩

/-- `takeSlot` gave `idx` and `m₁`. -/
structure Takes (m : ResourceManager T) (idx : UInt32) (m₁ : ResourceManager T) : Prop where
  eq : m.takeSlot = (idx, m₁)
  ne_zero : idx ≠ 0
  lt : idx.toNat < m₁.pool.length
  notMem : idx ∉ m₁.free
  /-- The slot held no resource. -/
  empty : ∀ p g, m.pool[idx.toNat]? ≠ some ⟨some p, g⟩
  other : ∀ i, i ≠ idx.toNat → m₁.pool[i]? = m.pool[i]?
  inv : FreeInv m₁

theorem exists_takes (h : FreeInv m) (hfit : Fits m) : ∃ idx m₁, Takes m idx m₁ := by
  cases hf : m.free with
  | nil =>
    have hidx : (UInt32.ofNat m.pool.length).toNat = m.pool.length :=
      UInt32.toNat_ofNat_of_lt' hfit
    have hpos := h.pos
    refine ⟨UInt32.ofNat m.pool.length, { m with pool := m.pool ++ [⟨none, 0⟩] },
      by simp [takeSlot, hf], ?_, by simp [hidx], by simp [hf], ?_, ?_,
      by simp, by simp [hf], by simp [hf]⟩
    · intro e
      have := congrArg UInt32.toNat e
      rw [hidx, UInt32.toNat_zero] at this
      omega
    · intro p g
      simp [hidx]
    · intro i hi
      rw [hidx] at hi
      rcases Nat.lt_or_gt_of_ne hi with hlt | hgt
      · rw [List.getElem?_append_left hlt]
      · rw [List.getElem?_eq_none (by simp; omega), List.getElem?_eq_none (by omega)]
  | cons idx rest =>
    obtain ⟨hne, g, hg⟩ := h.empty idx (by simp [hf])
    have hnd := h.nodup
    rw [hf, List.nodup_cons] at hnd
    refine ⟨idx, { m with free := rest }, by simp [takeSlot, hf], hne,
      (List.getElem?_eq_some_iff.mp hg).1, hnd.1, fun p g' hp => ?_, fun _ _ => rfl, h.pos, hnd.2,
      fun i hi => h.empty i (by simp [hf, hi])⟩
    rw [hg] at hp
    cases hp

/-- Writing to a slot that is not free keeps the free list's slots empty. -/
theorem FreeInv.modifySlot {idx : UInt32} (h : FreeInv m) (hidx : idx ∉ m.free) (f : Slot → Slot)
    (heap : List T) : FreeInv { m.modifySlot idx f with heap := heap } where
  pos := by simpa [ResourceManager.modifySlot] using h.pos
  nodup := h.nodup
  empty i hi := by
    obtain ⟨hne, g, hg⟩ := h.empty i hi
    have hi' : idx ≠ i := fun e => hidx (e ▸ hi)
    refine ⟨hne, g, ?_⟩
    rw [← hg]
    exact List.getElem?_modify_ne _ _ (toNat_ne hi')

theorem freeInv_acquire (h : FreeInv m) (hfit : Fits m) (ctor : Option T) (cb : T → Option T) :
    FreeInv (m.acquire ctor cb).2 := by
  obtain ⟨idx, m₁, ht⟩ := exists_takes h hfit
  obtain ⟨f, heap, heq⟩ := exists_acquire_eq m ctor cb
  rw [heq, ht.eq]
  exact ht.inv.modifySlot ht.notMem f heap

theorem freeInv_release (h : FreeInv m) (h' : Handle) (ec : Option Errc) :
    FreeInv (m.release h' ec).2 := by
  by_cases hv : m.is_valid h'
  · obtain ⟨h0, p, hp⟩ := is_valid_iff.mp hv
    have hlt := (List.getElem?_eq_some_iff.mp hp).1
    have hnot : h'.index ∉ m.free := fun hmem => by
      obtain ⟨-, g, hg⟩ := h.empty _ hmem
      rw [hp] at hg
      cases hg
    rw [release_of_valid hv]
    refine ⟨by simpa using h.pos, List.nodup_cons.mpr ⟨hnot, h.nodup⟩, fun i hi => ?_⟩
    rcases List.mem_cons.mp hi with rfl | hi
    · exact ⟨h0, nextGen h'.generation, by simp [hlt]⟩
    · obtain ⟨hne, g, hg⟩ := h.empty i hi
      have hi' : h'.index ≠ i := fun e => hnot (e ▸ hi)
      exact ⟨hne, g, by rw [← hg]; exact List.getElem?_set_ne (toNat_ne hi')⟩
  · obtain ⟨e, he⟩ := release_of_not_valid hv
    rw [he]
    exact h

theorem freeInv_new : FreeInv (new : ResourceManager T) :=
  ⟨Nat.one_pos, List.nodup_nil, fun _ hi => by cases hi⟩

theorem everyState_freeInv {calls : List (ThrowingCall T)}
    (hfit : (throwingManager T).EveryState calls Fits) :
    (throwingManager T).EveryState calls FreeInv := by
  refine Machine.everyState_of_guard freeInv_new (fun m c hm hf => ?_) hfit.everyStep
  cases c with
  | acquire ctor cb => exact freeInv_acquire hm hf ctor cb
  | release h ec => exact freeInv_release hm h ec

/-! ## What a throw costs -/

/-- The slot taken is no longer free, it is no valid handle's, and the handles that were valid
still are. -/
theorem acquire_strands {calls : List (ThrowingCall T)}
    (hfit : (throwingManager T).EveryState calls Fits) (ctor : Option T) (cb : T → Option T) :
    let m := (throwingManager T).after calls
    let m' := (m.acquire ctor cb).2
    (∃ idx : UInt32, idx ≠ 0 ∧ idx.toNat < m'.pool.length ∧ idx ∉ m'.free ∧
      ∀ h, m.is_valid h → h.index ≠ idx) ∧
    ∀ h, m.is_valid h → m'.is_valid h := by
  intro m m'
  obtain ⟨idx, m₁, ht⟩ := exists_takes (everyState_freeInv hfit).last hfit.last
  obtain ⟨f, heap, heq⟩ := exists_acquire_eq m ctor cb
  have hm' : m' = { m₁.modifySlot idx f with heap := heap } := by
    rw [show m' = (m.acquire ctor cb).2 from rfl, heq, ht.eq]
  have hother : ∀ h, m.is_valid h → h.index ≠ idx := by
    rintro h hv rfl
    obtain ⟨-, p, hp⟩ := is_valid_iff.mp hv
    exact ht.empty p _ hp
  rw [hm']
  refine ⟨⟨idx, ht.ne_zero, by simpa [modifySlot] using ht.lt, ht.notMem, hother⟩, fun h hv => ?_⟩
  obtain ⟨h0, p, hp⟩ := is_valid_iff.mp hv
  have hne : h.index.toNat ≠ idx.toNat := toNat_ne (hother h hv)
  refine is_valid_iff.mpr ⟨h0, p, ?_⟩
  rw [← hp, ← ht.other _ hne]
  exact List.getElem?_modify_ne _ _ (Ne.symm hne)

/-- **No `acquire` that throws is free of leaks**: it returns no handle, and one resource more is
active. -/
theorem acquire_not_leakFree (calls : List (ThrowingCall T)) (ctor : Option T) (cb : T → Option T)
    (hthrow : Throws ctor cb) :
    let m := (throwingManager T).after calls
    (m.acquire ctor cb).1 = none ∧ ¬ LeakFree (returned calls) m (m.acquire ctor cb).2 := by
  intro m
  refine ⟨acquire_fst_eq_none_iff.mpr hthrow, fun h => ?_⟩
  have hactive := h.active
  rw [active_acquire] at hactive
  exact absurd hactive (by grind)

/-- `init_cb` throws on a slot that was used before. -/
theorem acquire_not_leakFree_recycled :
    let m := (throwingManager Nat).after [.acquire (some 0) some, .release ⟨1, 1⟩ none]
    (m.acquire (some 0) fun _ => none).1 = none ∧
      ¬ LeakFree (returned [.acquire (some 0) some, .release ⟨1, 1⟩ none]) m
        (m.acquire (some 0) fun _ => none).2 :=
  acquire_not_leakFree [.acquire (some 0) some, .release ⟨1, 1⟩ none] (some 0) (fun _ => none) rfl

/-- `T()` throws in the first `acquire`: a resource is active, slot 1 is on no free list. -/
theorem acquire_leaks :
    let m' := ((throwingManager Nat).after []).acquire none some
    m'.2.active = 1 ∧ m'.2.free = [] ∧
      ¬ LeakFree (returned ([] : List (ThrowingCall Nat))) ((throwingManager Nat).after [])
          m'.2 := by
  refine ⟨by decide, rfl, fun h => ?_⟩
  have hfree := h.free 1 (by decide) (by decide) (by rintro ⟨_, hmem, -⟩; cases hmem)
  cases hfree

end LearnNotes.Memory
