import LearnNotes.Queue.Lifetime

/-!
# Exceptions in the queues

The element's constructor may throw in `emplace` and its assignment in `pop`. `Unwinds` is what such
a call should leave: `m_head` and `m_tail` as they were, the queue unlocked, and every later call
answered as if there had been no failed one. `CircularQueueLK` leaves its lock to a guard, and the
element to an assignment that may have changed it before it threw; `CircularQueueSeq` sets its flag
and has nobody to clear it, so one exception closes it for good (`usesSeq_threw`,
`usesSeq_closed`). `unwinds_iff`: the one unwinds where the element kept its value, the other never.
-/

namespace LearnNotes.Queue

open Lib

variable {T : Type} {Cap : UInt64} {σ : Type}

/-- The answers to `calls`, from `q` on. -/
def repliesFrom (M : Machine σ (Use T) (Option (Reply T))) (q : σ) (calls : List (Use T)) :
    List (Option (Reply T)) := (M.stepsFrom q calls).map fun p => M.out p.1 p.2

theorem repliesFrom_cons (M : Machine σ (Use T) (Option (Reply T))) (q : σ) (c : Use T)
    (calls : List (Use T)) :
    repliesFrom M q (c :: calls) = M.out q c :: repliesFrom M (M.next q c) calls := by
  unfold repliesFrom
  rw [Machine.stepsFrom_cons, List.map_cons]

/-- The call leaves the queue as if it had not been made, and unlocked. -/
structure Restores (M : Machine σ (Use T) (Option (Reply T))) (ring : σ → Ring T)
    (busy : σ → Bool) (q : σ) (c : Use T) : Prop where
  head : (ring (M.next q c)).head = (ring q).head
  tail : (ring (M.next q c)).tail = (ring q).tail
  unlocked : busy (M.next q c) = false
  later : ∀ calls, repliesFrom M (M.next q c) calls = repliesFrom M q calls

/-- If the call throws, it restores the queue. -/
def Unwinds (M : Machine σ (Use T) (Option (Reply T))) (ring : σ → Ring T) (busy : σ → Bool)
    (q : σ) (c : Use T) : Prop := M.out q c = some .threw → Restores M ring busy q c

/-- The call gets to the constructor or to the assignment, and that throws. -/
def Raises (busy : Bool) (r : Ring T) : Use T → Prop
  | .emplace none => busy = false ∧ r.full = false
  | .pop (.throws _) => busy = false ∧ r.empty = false
  | _ => False

/-- The assignment throws and does not leave the element with the value it had. -/
def Spoils (busy : Bool) (r : Ring T) : Use T → Prop
  | .pop (.throws left) =>
    busy = false ∧ r.empty = false ∧ left ≠ (r.data r.head.toNat).value
  | _ => False

/-! ## Rings that look alike -/

namespace Ring

/-- The same indices and, in every cell, the same value. -/
structure Alike (r r' : Ring T) : Prop where
  max_size : r.max_size = r'.max_size
  head : r.head = r'.head
  tail : r.tail = r'.tail
  contents : r.contents Cell.value = r'.contents Cell.value

variable {r r' : Ring T}

theorem Alike.refl (r : Ring T) : Alike r r := ⟨rfl, rfl, rfl, rfl⟩

theorem Alike.full (h : Alike r r') : r.full = r'.full := by
  unfold Ring.full
  rw [h.max_size, h.head, h.tail]

theorem Alike.empty (h : Alike r r') : r.empty = r'.empty := by
  unfold Ring.empty
  rw [h.head, h.tail]

theorem assigned_eq_iff {c c' : Cell T} : c.assigned = c'.assigned ↔ c.value = c'.value := by
  cases c <;> cases c' <;> simp [Cell.assigned, Cell.value]

theorem Alike.front (h : Alike r r') : r.front = r'.front := by
  unfold Ring.front
  rw [h.head]
  exact assigned_eq_iff.mpr (congrFun h.contents _)

/-- The same value written to the same cell. -/
theorem Alike.update (h : Alike r r') {i i' : UInt64} (hi : i = i') (c : Cell T) :
    Alike { r with data := Function.update r.data i.toNat c }
      { r' with data := Function.update r'.data i'.toNat c } where
  max_size := h.max_size
  head := h.head
  tail := h.tail
  contents := by rw [contents_update, contents_update, h.contents, hi]

theorem Alike.construct (h : Alike r r') (v : T) : Alike (r.construct v) (r'.construct v) :=
  h.update h.tail _

theorem Alike.moveFront (h : Alike r r') : Alike r.moveFront r'.moveFront := h.update h.head _

theorem Alike.leaveFront (h : Alike r r') (left : Option T) :
    Alike (r.leaveFront left) (r'.leaveFront left) := h.update h.head _

theorem Alike.advanceTail (h : Alike r r') : Alike r.advanceTail r'.advanceTail :=
  ⟨h.max_size, h.head, by unfold Ring.advanceTail; rw [h.tail, h.max_size], h.contents⟩

theorem Alike.advanceHead (h : Alike r r') : Alike r.advanceHead r'.advanceHead :=
  ⟨h.max_size, by unfold Ring.advanceHead; rw [h.head, h.max_size], h.tail, h.contents⟩

@[simp] theorem value_ofLeft (left : Option T) : (Cell.ofLeft left).value = left := by
  cases left <;> rfl

theorem front_leaveFront (r : Ring T) (left : Option T) :
    (r.leaveFront left).front = (Cell.ofLeft left).assigned :=
  congrArg Cell.assigned (Function.update_self ..)

/-- An element left with its value. -/
theorem alike_leaveFront (r : Ring T) :
    Alike (r.leaveFront (r.data r.head.toNat).value) r where
  max_size := rfl
  head := rfl
  tail := rfl
  contents := by
    unfold Ring.leaveFront
    rw [contents_update, value_ofLeft]
    exact Function.update_eq_self r.head.toNat (r.contents Cell.value)

end Ring

/-! ## `CircularQueueLK` -/

theorem Ring.front_ne_threw (r : Ring T) : some r.front ≠ some .threw := by
  unfold Ring.front Cell.assigned
  split <;> nofun

variable (Cap) in
/-- Nothing but the values of the elements tells one queue from another. -/
theorem usesLK_alike {q q' : CircularQueueLK T} (hr : q.ring.Alike q'.ring)
    (hm : q.mutex = q'.mutex) (c : Use T) :
    (usesLK T Cap).out q c = (usesLK T Cap).out q' c ∧
      ((usesLK T Cap).next q c).ring.Alike ((usesLK T Cap).next q' c).ring ∧
      ((usesLK T Cap).next q c).mutex = ((usesLK T Cap).next q' c).mutex := by
  cases c with
  | emplace ctor =>
    simp only [Machine.out, Machine.next, usesLK, CircularQueueLK.emplace, hm, hr.full]
    split_ifs
    · exact ⟨rfl, hr, hm⟩
    · exact ⟨rfl, hr, hm⟩
    · cases ctor with
      | none => exact ⟨rfl, hr, hm⟩
      | some v => exact ⟨rfl, (hr.construct v).advanceTail, rfl⟩
  | pop assignment =>
    simp only [Machine.out, Machine.next, usesLK, CircularQueueLK.pop, hm, hr.empty]
    split_ifs
    · exact ⟨rfl, hr, hm⟩
    · exact ⟨rfl, hr, hm⟩
    · cases assignment with
      | throws left => exact ⟨rfl, hr.leaveFront left, rfl⟩
      | assigns => exact ⟨congrArg some hr.front, hr.moveFront.advanceHead, rfl⟩

theorem repliesFrom_alike {q q' : CircularQueueLK T} (hr : q.ring.Alike q'.ring)
    (hm : q.mutex = q'.mutex) (calls : List (Use T)) :
    repliesFrom (usesLK T Cap) q calls = repliesFrom (usesLK T Cap) q' calls := by
  induction calls generalizing q q' with
  | nil => rfl
  | cons c calls ih =>
    obtain ⟨hout, hring, hmutex⟩ := usesLK_alike Cap hr hm c
    rw [repliesFrom_cons, repliesFrom_cons, hout, ih hring hmutex]

/-- A call that throws: the guard unlocks, the indices are as they were, and the element at
`m_head` is what the assignment left. -/
theorem usesLK_threw {q : CircularQueueLK T} {c : Use T}
    (h : (usesLK T Cap).out q c = some .threw) :
    q.mutex = false ∧ ((usesLK T Cap).next q c = q ∨ ∃ left, c = .pop (.throws left) ∧
      q.ring.empty = false ∧ (usesLK T Cap).next q c = ⟨q.ring.leaveFront left, false⟩) := by
  obtain ⟨r, mutex⟩ := q
  cases c with
  | emplace ctor =>
    simp only [Machine.out, Machine.next, usesLK, CircularQueueLK.emplace] at h ⊢
    split_ifs at h ⊢ with hm hf
    · cases h
    · cases h
    · cases ctor with
      | none => exact ⟨by simpa using hm, .inl rfl⟩
      | some v => cases h
  | pop assignment =>
    simp only [Machine.out, Machine.next, usesLK, CircularQueueLK.pop] at h ⊢
    split_ifs at h ⊢ with hm he
    · cases h
    · cases h
    · cases assignment with
      | throws left =>
        obtain rfl : mutex = false := by simpa using hm
        exact ⟨rfl, .inr ⟨left, rfl, by simpa using he, rfl⟩⟩
      | assigns => exact absurd h r.front_ne_threw

/-- A failed `pop` is heard of by the next one, unless the element kept its value. -/
theorem value_of_later {r : Ring T} {left : Option T} (he : r.empty = false)
    (h : repliesFrom (usesLK T Cap) ⟨r.leaveFront left, false⟩ [.pop .assigns] =
      repliesFrom (usesLK T Cap) ⟨r, false⟩ [.pop .assigns]) :
    left = (r.data r.head.toNat).value := by
  have hout : ∀ r : Ring T, r.empty = false →
      (usesLK T Cap).out ⟨r, false⟩ (.pop .assigns) = some r.front := by
    intro r he
    simp [Machine.out, usesLK, CircularQueueLK.pop, he, served]
  rw [repliesFrom_cons, repliesFrom_cons, hout r he, hout (r.leaveFront left) he] at h
  have hfront : (r.leaveFront left).front = r.front := Option.some.inj (List.cons.inj h).1
  rw [Ring.front_leaveFront] at hfront
  rw [← Ring.assigned_eq_iff.mp hfront, Ring.value_ofLeft]

theorem usesLK_unwinds_iff (q : CircularQueueLK T) (c : Use T) :
    Unwinds (usesLK T Cap) CircularQueueLK.ring CircularQueueLK.mutex q c ↔
      ¬ Spoils q.mutex q.ring c := by
  constructor
  · intro h hs
    cases c with
    | emplace => exact hs
    | pop assignment =>
      cases assignment with
      | assigns => exact hs
      | throws left =>
        obtain ⟨r, mutex⟩ := q
        obtain ⟨rfl, he, hne⟩ := hs
        have hcall : (usesLK T Cap).step ⟨r, false⟩ (.pop (.throws left)) =
            (some .threw, ⟨r.leaveFront left, false⟩) := by
          simp [usesLK, CircularQueueLK.pop, he, served]
        have hlater := (h (congrArg Prod.fst hcall)).later [.pop .assigns]
        rw [Machine.next, hcall] at hlater
        exact hne (value_of_later he hlater)
  · intro hno h
    obtain ⟨hm, hnext | ⟨left, rfl, he, hnext⟩⟩ := usesLK_threw h
    · exact ⟨by rw [hnext], by rw [hnext], by rw [hnext, hm], fun _ => by rw [hnext]⟩
    · have hvalue : left = (q.ring.data q.ring.head.toNat).value := by
        by_contra hne
        exact hno ⟨hm, he, hne⟩
      refine ⟨by rw [hnext]; rfl, by rw [hnext]; rfl, by rw [hnext], fun calls => ?_⟩
      rw [hnext, hvalue]
      exact repliesFrom_alike q.ring.alike_leaveFront hm.symm calls

/-! ## `CircularQueueSeq` -/

/-- An exception comes between the two exchanges: the flag stays set. -/
theorem usesSeq_threw {q : CircularQueueSeq T} {c : Use T} (h : Raises q.atomic_using q.ring c) :
    (usesSeq T Cap).out q c = some .threw ∧
      ((usesSeq T Cap).next q c).atomic_using = true := by
  obtain ⟨r, atomic_using⟩ := q
  cases c with
  | emplace ctor =>
    cases ctor with
    | some v => exact h.elim
    | none =>
      obtain ⟨rfl, hf⟩ := h
      simp [Machine.out, Machine.next, usesSeq, served, CircularQueueSeq.emplace, hf]
  | pop assignment =>
    cases assignment with
    | assigns => exact h.elim
    | throws left =>
      obtain ⟨rfl, he⟩ := h
      simp [Machine.out, Machine.next, usesSeq, served, CircularQueueSeq.pop, he]

theorem raises_of_threw {q : CircularQueueSeq T} {c : Use T}
    (h : (usesSeq T Cap).out q c = some .threw) : Raises q.atomic_using q.ring c := by
  obtain ⟨r, atomic_using⟩ := q
  cases atomic_using with
  | true => cases c <;> cases h
  | false =>
    cases c with
    | emplace ctor =>
      simp only [Machine.out, usesSeq, CircularQueueSeq.emplace,
        CircularQueueSeq.compare_exchange_ft_unset, Option.bind_eq_bind, Option.bind_some] at h
      split_ifs at h with hf
      · cases h
      · cases ctor with
        | none => exact ⟨rfl, by simpa using hf⟩
        | some v => cases h
    | pop assignment =>
      simp only [Machine.out, usesSeq, CircularQueueSeq.pop,
        CircularQueueSeq.compare_exchange_ft_unset, Option.bind_eq_bind, Option.bind_some] at h
      split_ifs at h with he
      · cases h
      · cases assignment with
        | throws left => exact ⟨rfl, by simpa using he⟩
        | assigns => exact absurd h r.front_ne_threw

theorem usesSeq_unwinds_iff (q : CircularQueueSeq T) (c : Use T) :
    Unwinds (usesSeq T Cap) CircularQueueSeq.ring CircularQueueSeq.atomic_using q c ↔
      ¬ Raises q.atomic_using q.ring c := by
  constructor
  · intro h hr
    obtain ⟨hout, hbusy⟩ := @usesSeq_threw T Cap q c hr
    have hunlocked := (h hout).unlocked
    rw [hbusy] at hunlocked
    cases hunlocked
  · exact fun hno hout => absurd (raises_of_threw hout) hno

/-- A queue closed by an exception never answers again. -/
theorem usesSeq_closed (r : Ring T) (calls : List (Use T)) :
    repliesFrom (usesSeq T Cap) ⟨r, true⟩ calls = calls.map fun _ => none := by
  induction calls with
  | nil => rfl
  | cons c calls ih =>
    have hnext : (usesSeq T Cap).next ⟨r, true⟩ c = ⟨r, true⟩ := by cases c <;> rfl
    have hout : (usesSeq T Cap).out ⟨r, true⟩ c = none := by cases c <;> rfl
    rw [repliesFrom_cons, List.map_cons, hnext, hout, ih]

/-! ## Both -/

/-- **Exactly when the queues are exception safe**: in every step of every run, `CircularQueueLK`
unwinds iff a failed assignment leaves the element its value, and `CircularQueueSeq` does iff there
is nothing to unwind. -/
theorem unwinds_iff (Cap : UInt64) (calls : List (Use T)) :
    ((usesLK T Cap).EveryStep calls fun q c =>
      (Unwinds (usesLK T Cap) CircularQueueLK.ring CircularQueueLK.mutex q c ↔
        ¬ Spoils q.mutex q.ring c)) ∧
    (usesSeq T Cap).EveryStep calls fun q c =>
      (Unwinds (usesSeq T Cap) CircularQueueSeq.ring CircularQueueSeq.atomic_using q c ↔
        ¬ Raises q.atomic_using q.ring c) :=
  ⟨fun p _ => usesLK_unwinds_iff p.1 p.2, fun p _ => usesSeq_unwinds_iff p.1 p.2⟩

/-- The constructor throws in the first `emplace`: the flag is set for good. -/
theorem emplace_closes :
    ¬ (usesSeq Nat 2).EveryStep [.emplace none] fun q c =>
      Unwinds (usesSeq Nat 2) CircularQueueSeq.ring CircularQueueSeq.atomic_using q c := by
  intro h
  have hunlocked := (h (.new 2, .emplace none) (List.mem_singleton.mpr rfl) rfl).unlocked
  cases hunlocked

end LearnNotes.Queue
