import LearnNotes.Signal.SignalSlot
import LearnNotes.Lib.Table

/-!
# The signal table is a bounded set

`Holds sig l`: the table holds the list `l` in front and `NULL` behind it. `Takes l c rc l'` is
what a call can do to that list, and `Holds.call` says that it is what the code does.
`bounded` is the specification, a set of at most `cap` slots; the signal answers its calls
as the set does and stands for the same set all along: `signal_refines`.
-/

namespace LearnNotes.Signal

open Lib

variable {F : Type} [DecidableEq F] {name : String} {sig sig' : signal_t F} {l l' : List F}
  {c : Call F} {f : F} {rc : Int}

/-! ## The table holds a list -/

structure Holds (sig : signal_t F) (l : List F) : Prop where
  slots : sig.slots.toList = pad MAX_SLOTS l
  count : sig.slot_count.toNat = l.length
  bound : l.length ≤ MAX_SLOTS
  nodup : l.Nodup

omit [DecidableEq F] in
theorem holds_init (name : String) : Holds (SIGNAL_INIT name : signal_t F) [] where
  slots := rfl
  count := rfl
  bound := Nat.zero_le _
  nodup := List.nodup_nil

omit [DecidableEq F] in
theorem Holds.entry (h : Holds sig l) (i : Nat) : sig.entry i = l[i]? := by
  rw [signal_t.entry, ← Vector.getElem?_toList, h.slots, join_getElem?_pad]

theorem Holds.find (h : Holds sig l) (f : F) : sig.find f = l.idxOf? f := by
  rw [signal_t.find, h.slots, h.count, take_pad, List.idxOf?, List.findIdx?_map]
  rfl

theorem getElem?_of_idxOf? {j : Nat} (hj : l.idxOf? f = some j) : l[j]? = some f := by
  obtain ⟨hlt, heq, -⟩ := List.idxOf?_eq_some_iff.mp hj
  rw [List.getElem?_eq_getElem hlt, heq]

omit [DecidableEq F] in
theorem Holds.append (h : Holds sig l) (hf : f ∉ l) (hl : l.length < MAX_SLOTS) :
    Holds (sig.append f) (l ++ [f]) where
  slots := by
    show (sig.slots.setIfInBounds _ (some f)).toList = _
    rw [Vector.toList_setIfInBounds, h.slots, h.count, pad_concat hl]
  count := by
    have hcount := h.count
    unfold MAX_SLOTS at hl
    show (sig.slot_count + 1).toNat = _
    rw [UInt8.toNat_add, List.length_append, List.length_singleton, UInt8.toNat_one,
      Nat.mod_eq_of_lt (by omega), hcount]
  bound := by
    rw [List.length_append, List.length_singleton]
    exact hl
  nodup := List.nodup_append.mpr ⟨h.nodup, List.nodup_singleton f, by
    rintro a ha b hb rfl
    exact hf (List.mem_singleton.mp hb ▸ ha)⟩

omit [DecidableEq F] in
theorem Holds.removeAt (h : Holds sig l) {j : Nat} (hj : l[j]? = some f) :
    Holds (sig.removeAt j) (swapRemove l j) := by
  obtain ⟨hlt, -⟩ := List.getElem?_eq_some_iff.mp hj
  have hcount : (sig.slot_count - 1).toNat = l.length - 1 := by
    have hone : (1 : UInt8) ≤ sig.slot_count := by
      rw [UInt8.le_iff_toNat_le, h.count]
      exact Nat.one_le_of_lt hlt
    rw [UInt8.toNat_sub_of_le _ _ hone, h.count]
    rfl
  constructor
  · show ((sig.slots.setIfInBounds j (sig.entry _)).setIfInBounds _ none).toList = _
    rw [Vector.toList_setIfInBounds, Vector.toList_setIfInBounds, h.slots, hcount, h.entry,
      pad_swapRemove hj h.bound]
  · rw [length_swapRemove hj]
    exact hcount
  · rw [length_swapRemove hj]
    exact Nat.le_trans (Nat.sub_le _ _) h.bound
  · exact nodup_swapRemove hj h.nodup

/-! ## What a call can do -/

inductive Takes : List F → Call F → Int → List F → Prop
  | present {l : List F} {f : F} : f ∈ l → Takes l (.connect (some f)) EXIT_SUCCESS l
  | added {l : List F} {f : F} : f ∉ l → l.length < MAX_SLOTS →
      Takes l (.connect (some f)) EXIT_SUCCESS (l ++ [f])
  | full {l : List F} {f : F} : f ∉ l → MAX_SLOTS ≤ l.length →
      Takes l (.connect (some f)) EXIT_FAILURE l
  | removed {l : List F} {f : F} {j : Nat} : l.idxOf? f = some j →
      Takes l (.disconnect (some f)) EXIT_SUCCESS (swapRemove l j)
  | absent {l : List F} {f : F} : f ∉ l → Takes l (.disconnect (some f)) EXIT_FAILURE l
  | connect_null {l : List F} : Takes l (.connect none) EXIT_FAILURE l
  | disconnect_null {l : List F} : Takes l (.disconnect none) EXIT_FAILURE l

theorem Holds.on (h : Holds sig l) (c : Call F) :
    ∃ sig' l', c.on sig = ((c.on sig).1, some sig') ∧ Takes l c (c.on sig).1 l' ∧
      Holds sig' l' := by
  cases c with
  | connect slot =>
    cases slot with
    | none => exact ⟨sig, l, rfl, .connect_null, h⟩
    | some f =>
      simp only [Call.on, signal_connect, h.find, List.isSome_idxOf?, h.count]
      split_ifs with hf hfull
      · exact ⟨sig, l, rfl, .present hf, h⟩
      · exact ⟨sig, l, rfl, .full hf hfull, h⟩
      · have hroom := Nat.lt_of_not_le hfull
        exact ⟨sig.append f, l ++ [f], rfl, .added hf hroom, h.append hf hroom⟩
  | disconnect slot =>
    cases slot with
    | none => exact ⟨sig, l, rfl, .disconnect_null, h⟩
    | some f =>
      simp only [Call.on, signal_disconnect, h.find]
      cases hj : l.idxOf? f with
      | none => exact ⟨sig, l, rfl, .absent (List.idxOf?_eq_none_iff.mp hj), h⟩
      | some j =>
        exact ⟨sig.removeAt j, swapRemove l j, rfl, .removed hj,
          h.removeAt (getElem?_of_idxOf? hj)⟩

/-- **Step.** A call on a table that holds a list. -/
theorem Holds.call (name : String) (h : Holds sig l) (c : Call F) :
    ∃ l', Takes l c ((signal F name).out sig c) l' ∧ Holds ((signal F name).next sig c) l' := by
  obtain ⟨sig', l', hon, htakes, hholds⟩ := h.on c
  have hnext : (signal F name).next sig c = sig' := by
    show (c.on sig).2.getD sig = sig'
    rw [hon]
    rfl
  exact ⟨l', htakes, hnext ▸ hholds⟩

/-- A call that fails leaves the signal as it was, whatever state it was in. -/
theorem unchanged_of_failed (h : (signal F name).out sig c ≠ EXIT_SUCCESS) :
    (signal F name).next sig c = sig := by
  show (c.on sig).2.getD sig = sig
  replace h : (c.on sig).1 ≠ EXIT_SUCCESS := h
  cases c with
  | connect slot =>
    cases slot with
    | none => rfl
    | some f =>
      simp only [Call.on, signal_connect] at h ⊢
      split_ifs at h ⊢
      · rfl
      · rfl
      · exact absurd rfl h
  | disconnect slot =>
    cases slot with
    | none => rfl
    | some f =>
      simp only [Call.on, signal_disconnect] at h ⊢
      cases hfind : sig.find f with
      | none => rfl
      | some j =>
        rw [hfind] at h
        exact absurd rfl h

/-! ## The specification -/

/-- A set of at most `cap` slots. -/
def bounded (F : Type) [DecidableEq F] (cap : Nat) : Machine (Finset F) (Call F) Int where
  init := ∅
  step S
    | .connect (some f) =>
      if f ∈ S ∨ S.card < cap then (EXIT_SUCCESS, insert f S) else (EXIT_FAILURE, S)
    | .disconnect (some f) => if f ∈ S then (EXIT_SUCCESS, S.erase f) else (EXIT_FAILURE, S)
    | .connect none => (EXIT_FAILURE, S)
    | .disconnect none => (EXIT_FAILURE, S)

/-- The structure stands for the set of connected slots `S`. -/
structure Represents (sig : signal_t F) (S : Finset F) : Prop where
  count : sig.slot_count.toNat = S.card
  bound : S.card ≤ MAX_SLOTS
  connected : ∀ f, f ∈ S ↔ ∃ i < sig.slot_count.toNat, sig.entry i = some f
  not_null : ∀ i < sig.slot_count.toNat, sig.entry i ≠ none
  distinct : ∀ i < sig.slot_count.toNat, ∀ j < sig.slot_count.toNat,
    sig.entry i = sig.entry j → i = j
  cleared : ∀ i, sig.slot_count.toNat ≤ i → sig.entry i = none

/-- The table holds the elements of a set. -/
structure Lists (sig : signal_t F) (S : Finset F) (l : List F) : Prop where
  holds : Holds sig l
  elements : S = l.toFinset

variable {S : Finset F}

theorem Lists.card (h : Lists sig S l) : S.card = l.length := by
  rw [h.elements, List.toFinset_card_of_nodup h.holds.nodup]

theorem Lists.mem (h : Lists sig S l) : f ∈ S ↔ f ∈ l := by
  rw [h.elements, List.mem_toFinset]

theorem Lists.represents (h : Lists sig S l) : Represents sig S where
  count := by rw [h.card, h.holds.count]
  bound := by
    rw [h.card]
    exact h.holds.bound
  connected f := by
    simp only [h.mem, h.holds.count, h.holds.entry, List.mem_iff_getElem?]
    exact exists_congr fun i => ⟨fun hi => ⟨(List.getElem?_eq_some_iff.mp hi).1, hi⟩, And.right⟩
  not_null i hi := by
    rw [h.holds.count] at hi
    rw [h.holds.entry, List.getElem?_eq_getElem hi]
    exact Option.some_ne_none _
  distinct i hi j _ hij := by
    rw [h.holds.count] at hi
    rw [h.holds.entry, h.holds.entry] at hij
    exact (List.getElem?_inj hi h.holds.nodup).mp hij
  cleared i hi := by
    rw [h.holds.count] at hi
    rw [h.holds.entry, List.getElem?_eq_none hi]

/-- What a call does to the list, the specification does to the set. -/
theorem Takes.spec (h : Takes l c rc l') (hl : l.Nodup) :
    (bounded F MAX_SLOTS).step l.toFinset c = (rc, l'.toFinset) := by
  have hcard := List.toFinset_card_of_nodup hl
  cases h with
  | present hf => simp [bounded, hf]
  | added hf hroom => simp [bounded, hf, hcard, hroom]
  | full hf hfull => simp [bounded, hf, hcard, Nat.not_lt.mpr hfull]
  | @removed g j hj =>
    have hget := getElem?_of_idxOf? hj
    have herase : l.toFinset.erase g = (swapRemove l j).toFinset := by
      ext a
      rw [Finset.mem_erase, List.mem_toFinset, List.mem_toFinset, mem_swapRemove hget hl,
        and_comm]
    simp [bounded, List.mem_of_getElem? hget, herase]
  | absent hf => simp [bounded, hf]
  | connect_null => rfl
  | disconnect_null => rfl

/-! ## Refinement -/

theorem table_run (name : String) (calls : List (Call F)) :
    (signal F name).outs calls = (bounded F MAX_SLOTS).outs calls ∧
      ∃ l, Lists ((signal F name).after calls) ((bounded F MAX_SLOTS).after calls) l := by
  refine Machine.sim (R := fun sig S => ∃ l, Lists sig S l) ⟨[], holds_init name, rfl⟩ ?_
  rintro sig S c ⟨l, hholds, rfl⟩
  obtain ⟨l', htakes, hholds'⟩ := hholds.call name c
  have hspec := htakes.spec hholds.nodup
  refine ⟨(congrArg Prod.fst hspec).symm, l', hholds', congrArg Prod.snd hspec⟩

/-- The table holds a list after any calls. -/
theorem exists_holds (name : String) (calls : List (Call F)) :
    ∃ l, Holds ((signal F name).after calls) l := by
  obtain ⟨-, l, hl⟩ := table_run name calls
  exact ⟨l, hl.holds⟩

/-- The callbacks leave the signal alone: the loop goes through the rest of the list. -/
theorem Holds.loop_passive (h : Holds sig l) (made : List (Moment F)) :
    ∀ (n i : Nat) (invoked : List F), n + i = 255 →
      Emission.loop (fun _ _ => []) n i ⟨sig, invoked, made⟩ =
        ⟨sig, invoked ++ l.drop i, made⟩ := by
  have hbound := h.bound
  unfold MAX_SLOTS at hbound
  intro n
  induction n with
  | zero =>
    intro i invoked hi
    rw [List.drop_eq_nil_of_le (by omega), List.append_nil]
    rfl
  | succ n ih =>
    intro i invoked hi
    unfold Emission.loop
    split_ifs with hlt
    · have hlt' : i < l.length := h.count ▸ hlt
      have hvisit : Emission.visit (fun _ _ => []) i ⟨sig, invoked, made⟩ =
          ⟨sig, invoked ++ [l[i]], made⟩ := by
        unfold Emission.visit
        dsimp only
        rw [h.entry, List.getElem?_eq_getElem hlt']
        rfl
      rw [hvisit, ih (i + 1) _ (by omega), List.append_assoc, List.singleton_append,
        List.cons_getElem_drop_succ]
    · have hle : l.length ≤ i := h.count ▸ Nat.le_of_not_lt hlt
      rw [List.drop_eq_nil_of_le hle, List.append_nil]

/-- What the code promises its callers after any calls. -/
structure RefinesSet (name : String) (calls : List (Call F)) : Prop where
  answers : (signal F name).outs calls = (bounded F MAX_SLOTS).outs calls
  represents : Represents ((signal F name).after calls) ((bounded F MAX_SLOTS).after calls)
  unchanged : (signal F name).EveryStep calls fun sig c =>
    (signal F name).out sig c ≠ EXIT_SUCCESS → (signal F name).next sig c = sig
  /-- Callbacks that do not touch the signal run once each. -/
  emits : ∃ e, signal_emit (fun _ _ => []) (some ((signal F name).after calls)) = some e ∧
    ∀ f, e.invoked.count f = if f ∈ (bounded F MAX_SLOTS).after calls then 1 else 0

/-- **Refinement.** Whatever slots are connected and disconnected, in any order. -/
theorem signal_refines (name : String) (calls : List (Call F)) : RefinesSet name calls := by
  obtain ⟨houts, l, hl⟩ := table_run name calls
  refine ⟨houts, hl.represents, fun _ _ => unchanged_of_failed, _, rfl, fun f => ?_⟩
  rw [Emission.of, hl.holds.loop_passive [] 255 0 [] rfl, List.drop_zero, List.nil_append,
    hl.holds.nodup.count]
  exact if_congr hl.mem.symm rfl rfl

end LearnNotes.Signal
