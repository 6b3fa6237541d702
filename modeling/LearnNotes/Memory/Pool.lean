import LearnNotes.Memory.Manager

/-!
# The pool and its free list

`PoolInv` ties the slots, the free list and the sizes together; every call keeps
it (`poolInv_next`). `Taken` is the state between `takeSlot` and the store of the
new resource: the same invariant with one slot withheld. `capacity` is one more
than the most resources ever active at once (`capacity_isGreatest`).
-/

namespace LearnNotes.Memory

open Lib ResourceManager

variable {T : Type} {m : ResourceManager T}

/-- The slots holding a resource. -/
def occupied (m : ResourceManager T) : Nat := m.pool.countP (·.pres.isSome)

/-- The pool invariant. -/
structure PoolInv (m : ResourceManager T) : Prop where
  /-- Slot 0 exists and holds nothing. -/
  null : ∃ g, m.pool[0]? = some ⟨none, g⟩
  nodup : m.free.Nodup
  /-- The free list is the empty slots other than slot 0. -/
  mem_free : ∀ i, i ∈ m.free ↔ i ≠ 0 ∧ ∃ g, m.pool[i.toNat]? = some ⟨none, g⟩
  count : m.free.length + occupied m + 1 = m.pool.length

/-- Fewer than `2^32` slots. -/
def Fits (m : ResourceManager T) : Prop := m.pool.length < 2 ^ 32

instance : DecidablePred (Fits (T := T)) := fun m =>
  inferInstanceAs (Decidable (m.pool.length < 2 ^ 32))

/-- `takeSlot` gave `idx`, whose empty slot is at generation `g`, and `m₁`. -/
structure Taken (m : ResourceManager T) (idx g : UInt32) (m₁ : ResourceManager T) : Prop where
  eq : m.takeSlot = (idx, m₁)
  slot : m₁.pool[idx.toNat]? = some ⟨none, g⟩
  ne_zero : idx ≠ 0
  null : ∃ g, m₁.pool[0]? = some ⟨none, g⟩
  nodup : m₁.free.Nodup
  mem_free : ∀ i, i ∈ m₁.free ↔ i ≠ 0 ∧ i ≠ idx ∧ ∃ g, m₁.pool[i.toNat]? = some ⟨none, g⟩
  count : m₁.free.length + occupied m₁ + 2 = m₁.pool.length
  heap : m₁.heap = m.heap
  /-- The other slots are as they were. -/
  other : ∀ i, i ≠ idx.toNat → m₁.pool[i]? = m.pool[i]?
  /-- A slot that was there is taken as it was; a new one starts at generation 0. -/
  here : m.pool[idx.toNat]? = some ⟨none, g⟩ ∨ m.pool[idx.toNat]? = none ∧ g = 0
  occupied_eq : occupied m₁ = occupied m
  length : m₁.pool.length = if m.free = [] then m.pool.length + 1 else m.pool.length

theorem poolInv_new : PoolInv (new : ResourceManager T) where
  null := ⟨0, rfl⟩
  nodup := List.nodup_nil
  mem_free i := by
    simp only [new, List.not_mem_nil, false_iff, not_and, not_exists]
    intro hi g hg
    obtain ⟨hlt, -⟩ := List.getElem?_eq_some_iff.mp hg
    exact hi (UInt32.toNat_inj.mp (by simpa using hlt))
  count := rfl

theorem toNat_ne {i j : UInt32} (h : i ≠ j) : i.toNat ≠ j.toNat :=
  fun e => h (UInt32.toNat_inj.mp e)

theorem taken_of_free (h : PoolInv m) {idx : UInt32} {rest : List UInt32}
    (hf : m.free = idx :: rest) : ∃ g, Taken m idx g { m with free := rest } := by
  obtain ⟨hne, g, hg⟩ := (h.mem_free idx).mp (by simp [hf])
  have hnd := h.nodup
  rw [hf, List.nodup_cons] at hnd
  refine ⟨g, by simp [takeSlot, hf], hg, hne, h.null, hnd.2, fun i => ?_, ?_, rfl,
    fun _ _ => rfl, .inl hg, rfl, by simp [hf]⟩
  · have hi := h.mem_free i
    rw [hf, List.mem_cons] at hi
    constructor
    · intro hm
      obtain ⟨h0, hs⟩ := hi.mp (.inr hm)
      exact ⟨h0, fun e => hnd.1 (e ▸ hm), hs⟩
    · rintro ⟨h0, hi', hs⟩
      exact (hi.mpr ⟨h0, hs⟩).resolve_left hi'
  · have := h.count
    simp only [hf, List.length_cons, occupied] at this ⊢
    omega

theorem taken_of_grow (h : PoolInv m) (hfit : Fits m) (hf : m.free = []) :
    Taken m (UInt32.ofNat m.pool.length) 0 { m with pool := m.pool ++ [⟨none, 0⟩] } := by
  have hpos : 0 < m.pool.length := by have := h.count; omega
  have hidx : (UInt32.ofNat m.pool.length).toNat = m.pool.length :=
    UInt32.toNat_ofNat_of_lt' hfit
  refine ⟨by simp [takeSlot, hf], by simp [hidx], ?_, ?_, by simp [hf], fun i => ?_, ?_, rfl,
    fun i hi => ?_, .inr ⟨by simp [hidx], rfl⟩, by simp [occupied], by simp [hf]⟩
  · intro e
    have := congrArg UInt32.toNat e
    rw [hidx, UInt32.toNat_zero] at this
    omega
  · obtain ⟨g, hg⟩ := h.null
    exact ⟨g, by rw [List.getElem?_append_left hpos]; exact hg⟩
  · -- no old slot is both empty and off the free list
    rw [hf]
    simp only [List.not_mem_nil, false_iff, not_and, not_exists]
    intro h0 hi g hg
    have hlt : i.toNat < m.pool.length := by
      obtain ⟨hb, -⟩ := List.getElem?_eq_some_iff.mp hg
      have hne : i.toNat ≠ m.pool.length := hidx ▸ toNat_ne hi
      simp only [List.length_append, List.length_singleton] at hb
      omega
    rw [List.getElem?_append_left hlt] at hg
    have := (h.mem_free i).mpr ⟨h0, g, hg⟩
    simp [hf] at this
  · have := h.count
    simp only [hf, List.length_nil, occupied] at this ⊢
    simp only [List.countP_append, List.length_append, List.length_singleton]
    simp
    omega
  · rw [hidx] at hi
    rcases Nat.lt_or_gt_of_ne hi with hlt | hgt
    · rw [List.getElem?_append_left hlt]
    · rw [List.getElem?_eq_none (by simp; omega), List.getElem?_eq_none (by omega)]

/-- **What `takeSlot` does**, from a state with the pool invariant. -/
theorem exists_taken (h : PoolInv m) (hfit : Fits m) : ∃ idx g m₁, Taken m idx g m₁ := by
  cases hf : m.free with
  | nil => exact ⟨_, _, _, taken_of_grow h hfit hf⟩
  | cons idx rest =>
    obtain ⟨g, ht⟩ := taken_of_free h hf
    exact ⟨idx, g, _, ht⟩

/-! ## The operations, as one slot write -/

theorem modify_eq_set {l : List Slot} {i : Nat} {a : Slot} (h : l[i]? = some a) (f : Slot → Slot) :
    l.modify i f = l.set i (f a) := by
  rw [List.modify_eq_set_getElem?, h]
  rfl

/-- **What `acquire` does** when nothing throws. -/
theorem acquire_eq {idx g : UInt32} {m₁ : ResourceManager T} (ht : Taken m idx g m₁) (t : T)
    (cb : T → T) :
    m.acquire (some t) (fun t => some (cb t)) =
      (some ⟨idx, nextGen g⟩,
        { pool := m₁.pool.set idx.toNat ⟨some m.heap.length, nextGen g⟩
          free := m₁.free
          heap := m.heap ++ [cb t] }) := by
  have hlt := (List.getElem?_eq_some_iff.mp ht.slot).1
  unfold acquire
  rw [ht.eq]
  simp only [modifySlot, modify_eq_set ht.slot, ht.heap]
  rw [modify_eq_set (a := ⟨none, nextGen g⟩) (by simp [hlt])]
  simp [generationOf, hlt]

theorem is_valid_iff {h : Handle} :
    m.is_valid h ↔ h.index ≠ 0 ∧ ∃ p, m.pool[h.index.toNat]? = some ⟨some p, h.generation⟩ := by
  unfold is_valid slotOf Handle.toBool
  by_cases h0 : h.index = 0
  · simp [h0]
  · cases hs : m.pool[h.index.toNat]? with
    | none => simp [h0]
    | some slot =>
      obtain ⟨pres, gen⟩ := slot
      cases pres <;> simp [h0]

theorem get_eq_some_iff {h : Handle} {p : Ptr} :
    m.get h = some p ↔
      h.index ≠ 0 ∧ m.pool[h.index.toNat]? = some ⟨some p, h.generation⟩ := by
  by_cases hv : m.is_valid h
  · obtain ⟨h0, q, hq⟩ := is_valid_iff.mp hv
    simp [ResourceManager.get, hv, slotOf, Handle.toBool, h0, hq]
  · simp only [ResourceManager.get, hv, Bool.false_eq_true, if_false, reduceCtorEq, false_iff]
    rintro ⟨h0, hp⟩
    exact hv (is_valid_iff.mpr ⟨h0, p, hp⟩)

theorem is_valid_iff_get {h : Handle} : m.is_valid h ↔ ∃ p, m.get h = some p := by
  simp only [is_valid_iff, get_eq_some_iff, exists_and_left]

/-- **What `release` does** to a valid handle. -/
theorem release_of_valid {h : Handle} (hv : m.is_valid h) (ec : Option Errc) :
    m.release h ec =
      (ec,
        { m with
          pool := m.pool.set h.index.toNat ⟨none, nextGen h.generation⟩
          free := h.index :: m.free }) := by
  obtain ⟨h0, p, hp⟩ := is_valid_iff.mp hv
  simp [release, slotOf, Handle.toBool, h0, hp, modifySlot, modify_eq_set hp]

/-- **What `release` does** to any other handle: it reports an error, and nothing else. -/
theorem release_of_not_valid {h : Handle} (hv : ¬ m.is_valid h) :
    ∃ e, ∀ ec, m.release h ec = (some e, m) := by
  unfold release
  unfold is_valid at hv
  cases hs : m.slotOf h with
  | none => exact ⟨_, fun _ => rfl⟩
  | some slot =>
    simp only [hs, Bool.and_eq_true, beq_iff_eq, not_and, Option.isSome_iff_ne_none] at hv
    refine ⟨.invalid_argument, fun ec => ?_⟩
    simp only
    rw [if_pos]
    by_cases hg : slot.generation = h.generation
    · exact .inr (not_not.mp (hv hg))
    · exact .inl hg

/-! ## Every call keeps the invariant -/

theorem occupied_set {pool : List Slot} {i : Nat} {a b : Slot} (h : pool[i]? = some a) :
    (pool.set i b).countP (·.pres.isSome) + (if a.pres.isSome then 1 else 0) =
      pool.countP (·.pres.isSome) + (if b.pres.isSome then 1 else 0) := by
  obtain ⟨hlt, rfl⟩ := List.getElem?_eq_some_iff.mp h
  rw [List.countP_set hlt]
  have hpos : (if pool[i].pres.isSome then 1 else 0) ≤ pool.countP (·.pres.isSome) := by
    split
    · next hs => exact List.countP_pos_iff.mpr ⟨_, List.getElem_mem hlt, hs⟩
    · exact Nat.zero_le _
  omega

theorem poolInv_fill {idx g g' : UInt32} {m₁ : ResourceManager T} (ht : Taken m idx g m₁) (p : Ptr)
    (heap : List T) : PoolInv ⟨m₁.pool.set idx.toNat ⟨some p, g'⟩, m₁.free, heap⟩ where
  null := by
    obtain ⟨g₀, h₀⟩ := ht.null
    have hne : idx.toNat ≠ 0 := toNat_ne ht.ne_zero
    exact ⟨g₀, by simpa [List.getElem?_set_ne hne] using h₀⟩
  nodup := ht.nodup
  mem_free i := by
    rw [ht.mem_free i]
    by_cases hi : i = idx
    · subst hi
      have hlt := (List.getElem?_eq_some_iff.mp ht.slot).1
      simp [hlt]
    · simp [hi, List.getElem?_set_ne (toNat_ne (Ne.symm hi))]
  count := by
    have h₁ := ht.count
    have h₂ := occupied_set (b := ⟨some p, g'⟩) ht.slot
    simp only [occupied, Option.isSome_none, Option.isSome_some, Bool.false_eq_true, if_false,
      if_true, List.length_set] at h₁ h₂ ⊢
    omega

theorem poolInv_empty (hm : PoolInv m) {h : Handle} (hv : m.is_valid h) (g : UInt32) :
    PoolInv { m with pool := m.pool.set h.index.toNat ⟨none, g⟩, free := h.index :: m.free } := by
  obtain ⟨h0, p, hp⟩ := is_valid_iff.mp hv
  have hlt := (List.getElem?_eq_some_iff.mp hp).1
  refine ⟨?_, ?_, fun i => ?_, ?_⟩
  · obtain ⟨g₀, h₀⟩ := hm.null
    have hne : h.index.toNat ≠ 0 := toNat_ne h0
    exact ⟨g₀, by simpa [List.getElem?_set_ne hne] using h₀⟩
  · -- an occupied slot is not on the free list
    refine List.nodup_cons.mpr ⟨fun hmem => ?_, hm.nodup⟩
    obtain ⟨-, g₁, h₁⟩ := (hm.mem_free _).mp hmem
    rw [hp] at h₁
    cases h₁
  · simp only [List.mem_cons, hm.mem_free i]
    by_cases hi : i = h.index
    · subst hi
      simp [h0, hlt]
    · simp [hi, List.getElem?_set_ne (toNat_ne (Ne.symm hi))]
  · have h₁ := hm.count
    have h₂ := occupied_set (b := ⟨none, g⟩) hp
    simp only [occupied, Option.isSome_none, Option.isSome_some, Bool.false_eq_true, if_false,
      if_true, List.length_set, List.length_cons] at h₁ h₂ ⊢
    omega

/-- **Every call keeps the pool invariant**, whatever handle it is given. -/
theorem poolInv_next (hm : PoolInv m) (hfit : Fits m) (c : Call T) :
    PoolInv ((manager T).next m c) := by
  cases c with
  | acquire t cb =>
    obtain ⟨idx, g, m₁, ht⟩ := exists_taken hm hfit
    simp only [next_acquire, acquire_eq ht]
    exact poolInv_fill ht _ _
  | release h ec =>
    rw [next_release]
    by_cases hv : m.is_valid h
    · rw [release_of_valid hv]
      exact poolInv_empty hm hv _
    · obtain ⟨e, he⟩ := release_of_not_valid hv
      rw [he]
      exact hm

theorem everyState_poolInv {calls : List (Call T)} (hfit : (manager T).EveryState calls Fits) :
    (manager T).EveryState calls PoolInv :=
  Machine.everyState_of_guard poolInv_new (fun _ c hm hf => poolInv_next hm hf c) hfit.everyStep

/-! ## Sizes -/

theorem capacity_toNat (hfit : Fits m) : m.capacity.toNat = m.pool.length := by
  have hsize : UInt64.size = 2 ^ 64 := rfl
  unfold Fits at hfit
  exact UInt64.toNat_ofNat_of_lt' (by omega)

theorem active_toNat (hm : PoolInv m) (hfit : Fits m) : m.active.toNat = occupied m := by
  have hc := hm.count
  have hcap := capacity_toNat hfit
  have hsize : UInt64.size = 2 ^ 64 := rfl
  unfold Fits at hfit
  have hfree : (UInt64.ofNat m.free.length).toNat = m.free.length :=
    UInt64.toNat_ofNat_of_lt' (by omega)
  have h1 : (m.capacity - 1).toNat = m.pool.length - 1 := by
    rw [UInt64.toNat_sub_of_le _ _ (by rw [UInt64.le_iff_toNat_le, hcap, UInt64.toNat_one]; omega),
      hcap, UInt64.toNat_one]
  rw [active, UInt64.toNat_sub_of_le _ _ (by rw [UInt64.le_iff_toNat_le, hfree, h1]; omega), h1,
    hfree]
  omega

/-- **The pool grows only when every slot is in use.** -/
theorem grow_next (hm : PoolInv m) (hfit : Fits m) (c : Call T) :
    ((manager T).next m c).pool.length = m.pool.length ∨
      ((manager T).next m c).pool.length = m.pool.length + 1 ∧
        occupied ((manager T).next m c) = m.pool.length := by
  have hinv := poolInv_next hm hfit c
  cases c with
  | acquire t cb =>
    obtain ⟨idx, g, m₁, ht⟩ := exists_taken hm hfit
    have hlen := ht.length
    have hcount := ht.count
    have hocc := ht.occupied_eq
    have hc' := hinv.count
    simp only [next_acquire, acquire_eq ht, List.length_set] at hc' ⊢
    split at hlen
    · next hf =>
      have hc := hm.count
      rw [hf, List.length_nil] at hc
      exact .inr ⟨hlen, by omega⟩
    · exact .inl hlen
  | release h ec =>
    left
    rw [next_release]
    by_cases hv : m.is_valid h
    · rw [release_of_valid hv, List.length_set]
    · obtain ⟨e, he⟩ := release_of_not_valid hv
      rw [he]

/-- The most resources ever active at once is one less than the pool's size. -/
theorem length_isGreatest {calls : List (Call T)} (hfit : (manager T).EveryState calls Fits) :
    IsGreatest {n | ∃ pre, pre <+: calls ∧ n = occupied ((manager T).after pre)}
      (((manager T).after calls).pool.length - 1) := by
  have hinv := everyState_poolInv hfit
  induction calls using List.reverseRecOn with
  | nil =>
    refine ⟨⟨[], List.nil_prefix, rfl⟩, ?_⟩
    rintro n ⟨pre, hpre, rfl⟩
    rw [List.prefix_nil.mp hpre]
    rfl
  | append_singleton calls c ih =>
    obtain ⟨hfit', -⟩ := Machine.everyState_snoc.mp hfit
    obtain ⟨hinv', hlast⟩ := Machine.everyState_snoc.mp hinv
    obtain ⟨⟨pre, hpre, hmax⟩, hub⟩ := ih hfit' hinv'
    have hcount := hinv'.last.count
    have hcount' := hlast.count
    have hle : ∀ q, q <+: calls → occupied ((manager T).after q) ≤
        ((manager T).after calls).pool.length - 1 := fun q hq => hub ⟨q, hq, rfl⟩
    rw [Machine.after_snoc]
    refine ⟨?_, ?_⟩
    · rcases grow_next hinv'.last hfit'.last c with hsame | ⟨hlen, hocc⟩
      · exact ⟨pre, hpre.trans (List.prefix_append _ _), by rw [hsame, hmax]⟩
      · exact ⟨calls ++ [c], List.prefix_refl _, by rw [Machine.after_snoc]; omega⟩
    · rintro n ⟨q, hq, rfl⟩
      rcases List.prefix_concat_iff.mp hq with rfl | hq
      · rw [Machine.after_snoc]
        omega
      · have := hle q hq
        rcases grow_next hinv'.last hfit'.last c with hsame | ⟨hlen, -⟩ <;> omega

/-- **The pool invariant of every run.** -/
theorem pool_invariant (calls : List (Call T)) (hfit : (manager T).EveryState calls Fits) :
    let m := (manager T).after calls
    (∃ g, m.pool[0]? = some ⟨none, g⟩) ∧
      (∀ h, .handle (some h) ∈ (manager T).outs calls → h.index ≠ 0) ∧
      0 ∉ m.free ∧ m.free.Nodup ∧
      (∀ i, i ∈ m.free ↔
        1 ≤ i.toNat ∧ i.toNat < m.pool.length ∧ ∃ s, m.pool[i.toNat]? = some s ∧ s.pres = none) ∧
      m.free.length + 1 ≤ m.pool.length ∧ m.active.toNat = occupied m ∧
      IsGreatest {n | ∃ pre, pre <+: calls ∧ n = ((manager T).after pre).active.toNat}
        (m.capacity.toNat - 1) := by
  intro m
  have hinv := everyState_poolInv hfit
  have hm : PoolInv m := hinv.last
  refine ⟨hm.null, ?_, fun h => ((hm.mem_free 0).mp h).1 rfl, hm.nodup, fun i => ?_, ?_,
    active_toNat hm hfit.last, ?_⟩
  · intro h hmem
    obtain ⟨⟨s, c⟩, hp, hout⟩ := List.mem_map.mp hmem
    have hs := hinv.everyStep _ hp
    have hf := hfit.everyStep _ hp
    cases c with
    | acquire t cb =>
      obtain ⟨idx, g, m₁, ht⟩ := exists_taken hs hf
      simp only [out_acquire, acquire_eq ht, Reply.handle.injEq, Option.some.injEq] at hout
      subst hout
      exact ht.ne_zero
    | release h ec => cases hout
  · rw [hm.mem_free i, Nat.one_le_iff_ne_zero]
    refine and_congr ⟨fun h => toNat_ne h, fun h e => h (by rw [e]; rfl)⟩ ⟨?_, ?_⟩
    · rintro ⟨g, hg⟩
      exact ⟨(List.getElem?_eq_some_iff.mp hg).1, _, hg, rfl⟩
    · rintro ⟨-, ⟨pres, g⟩, hs, rfl⟩
      exact ⟨g, hs⟩
  · have := hm.count
    omega
  · rw [capacity_toNat hfit.last]
    convert length_isGreatest hfit using 3 with n
    refine exists_congr fun pre => and_congr_right fun hpre => ?_
    rw [active_toNat (hinv pre hpre) (hfit pre hpre)]

/-- Two resources, the first released and rejected the second time, then reused. -/
theorem pool_invariant_reuse :
    let calls : List (Call Nat) :=
      [.acquire 0 (· + 7), .acquire 0 id, .release ⟨1, 1⟩ none, .release ⟨1, 1⟩ none,
        .acquire 0 id]
    ((manager Nat).after calls).active.toNat = 2 ∧
      IsGreatest {n | ∃ pre, pre <+: calls ∧ n = ((manager Nat).after pre).active.toNat} 2 :=
  have h := pool_invariant
    [.acquire 0 (· + 7), .acquire 0 id, .release ⟨1, 1⟩ none, .release ⟨1, 1⟩ none, .acquire 0 id]
    (by decide)
  ⟨h.2.2.2.2.2.2.1, h.2.2.2.2.2.2.2⟩

end LearnNotes.Memory
