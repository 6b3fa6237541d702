import LearnNotes.Lib.Ledger
import LearnNotes.Queue.Fifo

/-!
# The life of the elements

What the queues ask of `std::allocator<T>`, from the constructor to the destructor: a ledger
of the cells of `m_data` on which `construct` made an object and `destroy` was called. The
destructors destroy what lies between `m_head` and `m_tail`; `pop` moves an element out and
lets its cell go, with the object it was moved from still in it. So the ledger balances iff
no `pop` ever takes an element (`life_balanced_iff`).
-/

namespace LearnNotes.Queue

open Lib

variable {T : Type} {Cap : UInt64}

/-! ## Calls and destructors -/

/-- A call, with what `T` does in it: the element the arguments of `emplace` construct, `none`
for an exception, and the assignment in `pop`. -/
inductive Use (T : Type) where
  | emplace (ctor : Option T)
  | pop (assignment : Assignment T)
  deriving DecidableEq

def usesLK (T : Type) (Cap : UInt64) :
    Machine (CircularQueueLK T) (Use T) (Option (Reply T)) where
  init := .new Cap
  step q
    | .emplace ctor => served q (q.emplace ctor)
    | .pop assignment => served q (q.pop assignment)

def usesSeq (T : Type) (Cap : UInt64) :
    Machine (CircularQueueSeq T) (Use T) (Option (Reply T)) where
  init := .new Cap
  step q
    | .emplace ctor => served q (q.emplace ctor)
    | .pop assignment => served q (q.pop assignment)

/-- `emplace` returns true where `construct(m_data+m_tail,…)` made an object, and only there. -/
def record (led : Ledger Nat) (r : Ring T) : Option (Reply T) → Ledger Nat
  | some (.emplaced true) => .create r.tail.toNat :: led
  | _ => led

namespace Ring

variable (r : Ring T)

/-- `destroy(m_data+m_head)`. -/
def destroy : Ring T := { r with data := Function.update r.data r.head.toNat .raw }

/-- The loop of the destructors, which ends within `n = m_max_size` rounds. -/
def destroyAll : Nat → Ring T → Ledger Nat → Ledger Nat
  | 0, _, led => led
  | n + 1, r, led =>
    if r.empty then led else destroyAll n r.destroy.advanceHead (.delete r.head.toNat :: led)

end Ring

/-- `~CircularQueueLK`, which takes the lock. -/
def CircularQueueLK.destruct (q : CircularQueueLK T) (led : Ledger Nat) : Option (Ledger Nat) :=
  if q.mutex then none else some (q.ring.destroyAll q.ring.max_size.toNat led)

/-- `~CircularQueueSeq`, which leaves the flag alone. -/
def CircularQueueSeq.destruct (q : CircularQueueSeq T) (led : Ledger Nat) :
    Option (Ledger Nat) := some (q.ring.destroyAll q.ring.max_size.toNat led)

/-- The ledger of a queue on which `calls` are made and which is then destroyed. -/
def lifeLK (Cap : UInt64) (calls : List (Use T)) : Option (Ledger Nat) :=
  let M := usesLK T Cap
  let s := (M.withHistory [] fun led q c => record led q.ring (M.out q c)).after calls
  s.1.destruct s.2

def lifeSeq (Cap : UInt64) (calls : List (Use T)) : Option (Ledger Nat) :=
  let M := usesSeq T Cap
  let s := (M.withHistory [] fun led q c => record led q.ring (M.out q c)).after calls
  s.1.destruct s.2

/-- The queue is destroyed, `construct` never met a live object and `destroy` met nothing else,
and what was constructed in a cell was destroyed there, each object once. -/
def Balanced (life : Option (Ledger Nat)) : Prop :=
  ∃ led, life = some led ∧ led.WellUsed ∧ ∀ k, led.count (.create k) = led.count (.delete k)

/-- The call takes an element: a `pop` that is let in, finds one and assigns it. -/
def Takes (busy : Bool) (r : Ring T) (c : Use T) : Prop :=
  busy = false ∧ c = .pop .assigns ∧ r.empty = false

/-! ## Steps of the ring -/

/-- What a call can do to the ring of a queue. -/
inductive RingStep (busy : Bool) (r : Ring T) : Use T → Option (Reply T) → Ring T → Prop
  | idle {c : Use T} {reply : Option (Reply T)} : reply ≠ some (.emplaced true) →
      ¬ Takes busy r c → RingStep busy r c reply r
  | put (v : T) : r.full = false →
      RingStep busy r (.emplace (some v)) (some (.emplaced true)) (r.construct v).advanceTail
  | leave (left : Option T) : r.empty = false →
      RingStep busy r (.pop (.throws left)) (some .threw) (r.leaveFront left)
  | take : busy = false → r.empty = false →
      RingStep busy r (.pop .assigns) (some r.front) r.moveFront.advanceHead

theorem usesLK_step (q : CircularQueueLK T) (c : Use T) :
    RingStep q.mutex q.ring c ((usesLK T Cap).out q c) ((usesLK T Cap).next q c).ring := by
  obtain ⟨r, mutex⟩ := q
  cases c with
  | emplace ctor =>
    simp only [Machine.out, Machine.next, usesLK, CircularQueueLK.emplace]
    split_ifs with hm hf
    · exact .idle (by simp [served]) (by simp [Takes])
    · exact .idle (by simp [served]) (by simp [Takes])
    · cases ctor with
      | none => exact .idle (by simp [served]) (by simp [Takes])
      | some v => exact .put v (by simpa using hf)
  | pop assignment =>
    simp only [Machine.out, Machine.next, usesLK, CircularQueueLK.pop]
    split_ifs with hm he
    · exact .idle (by simp [served]) (by simp [Takes, hm])
    · exact .idle (by simp [served]) (by simp [Takes, he])
    · cases assignment with
      | throws left => exact .leave left (by simpa using he)
      | assigns => exact .take (by simpa using hm) (by simpa using he)

theorem usesSeq_step (q : CircularQueueSeq T) (c : Use T) :
    RingStep q.atomic_using q.ring c ((usesSeq T Cap).out q c)
      ((usesSeq T Cap).next q c).ring := by
  obtain ⟨r, atomic_using⟩ := q
  cases atomic_using with
  | true =>
    cases c <;> exact .idle (by simp [Machine.out, usesSeq, served, CircularQueueSeq.emplace,
      CircularQueueSeq.pop]) (by simp [Takes])
  | false =>
    cases c with
    | emplace ctor =>
      simp only [Machine.out, Machine.next, usesSeq, CircularQueueSeq.emplace,
        CircularQueueSeq.compare_exchange_ft_unset, Option.bind_eq_bind, Option.bind_some]
      split_ifs with hf
      · exact .idle (by simp [served]) (by simp [Takes])
      · cases ctor with
        | none => exact .idle (by simp [served]) (by simp [Takes])
        | some v => exact .put v (by simpa using hf)
    | pop assignment =>
      simp only [Machine.out, Machine.next, usesSeq, CircularQueueSeq.pop,
        CircularQueueSeq.compare_exchange_ft_unset, Option.bind_eq_bind, Option.bind_some]
      split_ifs with he
      · exact .idle (by simp [served]) (by simp [Takes, he])
      · cases assignment with
        | throws left => exact .leave left (by simpa using he)
        | assigns => exact .take rfl (by simpa using he)

/-! ## The cells the queue knows -/

namespace Ring

variable {r : Ring T} {l : List (Cell T)} {c : Cell T} {led : Ledger Nat}

/-- The cells from `m_head` to `m_tail` are `l`. -/
abbrev Spans (Cap : UInt64) (r : Ring T) (l : List (Cell T)) : Prop := HoldsAs Cap some r l

theorem Spans.length_lt (h : Spans Cap r l) (hfull : r.full = false) : l.length < Cap.toNat := by
  by_contra hl
  rw [h.full_iff.mpr hl] at hfull
  cases hfull

theorem Spans.exists_cons (h : Spans Cap r l) (he : r.empty = false) : ∃ c l', l = c :: l' := by
  refine List.exists_cons_of_ne_nil fun hl => ?_
  rw [h.empty_iff.mpr hl] at he
  cases he

/-- The cells from `m_head` to `m_tail`. -/
def known (Cap : UInt64) (r : Ring T) (l : List (Cell T)) : Finset Nat :=
  cells (Cap.toNat + 1) r.head.toNat l.length

theorem Spans.tail_notMem (h : Spans Cap r l) : r.tail.toNat ∉ r.known Cap l := by
  rw [h.rings.tail_eq]
  exact slot_notMem_cells h.rings.length_lt

theorem Spans.head_mem (h : Spans Cap r (c :: l)) : r.head.toNat ∈ r.known Cap (c :: l) :=
  head_mem_cells h.rings.head_lt

theorem Spans.known_put (h : Spans Cap r l) (v : T) :
    (r.construct v).advanceTail.known Cap (l ++ [.obj v]) =
      insert r.tail.toNat (r.known Cap l) := by
  unfold known
  rw [List.length_append, List.length_singleton, cells_succ, h.rings.tail_eq]
  rfl

/-- The oldest cell let go. -/
theorem Spans.known_advance (h : Spans Cap r (c :: l)) {r' : Ring T}
    (hhead : r'.head = (r.head + 1) % r.max_size) :
    r'.known Cap l = (r.known Cap (c :: l)).erase r.head.toNat := by
  unfold known
  rw [hhead, toNat_next h.max_size h.rings.head_lt,
    cells_advance h.rings.head_lt (Nat.le_of_lt h.rings.length_lt), List.length_cons]

theorem Spans.destroy (h : Spans Cap r (c :: l)) : Spans Cap r.destroy.advanceHead l :=
  HoldsAs.advance h .raw

/-- **The destructors' loop.** It deletes the cells the queue knows, one by one, to the last. -/
theorem Spans.destroyAll {Q : Ledger Nat → Finset Nat → Prop}
    (hdelete : ∀ {led S k}, Q led S → k ∈ S → Q (.delete k :: led) (S.erase k)) :
    ∀ {n : Nat} {r : Ring T} {l : List (Cell T)} {led : Ledger Nat}, Spans Cap r l → l.length ≤ n →
      Q led (r.known Cap l) → Q (r.destroyAll n led) ∅ := by
  intro n
  induction n with
  | zero =>
    intro r l led h hn hQ
    obtain rfl := List.length_eq_zero_iff.mp (Nat.le_zero.mp hn)
    exact hQ
  | succ n ih =>
    intro r l led h hn hQ
    unfold Ring.destroyAll
    cases l with
    | nil =>
      rw [if_pos (h.empty_iff.mpr rfl)]
      exact hQ
    | cons c l =>
      rw [if_neg fun he => List.cons_ne_nil _ _ (h.empty_iff.mp he)]
      refine ih h.destroy (Nat.le_of_succ_le_succ hn) ?_
      rw [h.known_advance rfl]
      exact hdelete hQ h.head_mem

end Ring

/-! ## Whole lives -/

theorem Ring.front_ne_emplaced (r : Ring T) : some r.front ≠ some (.emplaced true) := by
  unfold Ring.front Cell.assigned
  split <;> nofun

theorem record_eq {led : Ledger Nat} {r : Ring T} {reply : Option (Reply T)}
    (h : reply ≠ some (.emplaced true)) : record led r reply = led := by
  unfold record
  split
  · exact absurd rfl h
  · rfl

section Life

variable {σ : Type} {M : Machine σ (Use T) (Option (Reply T))} {ring : σ → Ring T}
  {busy : σ → Bool}

/-- The ledger stands to the cells the ring knows as `Q` says. -/
def Stands (Cap : UInt64) (Q : Ledger Nat → Finset Nat → Prop) (r : Ring T)
    (led : Ledger Nat) : Prop := ∃ l, r.Spans Cap l ∧ Q led (r.known Cap l)

variable {b : Bool} {c : Use T} {reply : Option (Reply T)} {r r' : Ring T} {led : Ledger Nat}

/-- A call keeps what a construction in an unknown cell keeps, and, where it takes an element,
the loss of a known one. -/
theorem RingStep.stands {Q : Ledger Nat → Finset Nat → Prop} (h : RingStep b r c reply r')
    (hr : Stands Cap Q r led)
    (hcreate : ∀ {led S k}, Q led S → k ∉ S → Q (.create k :: led) (insert k S))
    (htake : Takes b r c → ∀ {S k}, Q led S → k ∈ S → Q led (S.erase k)) :
    Stands Cap Q r' (record led r reply) := by
  obtain ⟨l, hspans, hQ⟩ := hr
  cases h with
  | idle hreply =>
    rw [record_eq hreply]
    exact ⟨l, hspans, hQ⟩
  | put v hfull =>
    refine ⟨l ++ [.obj v], hspans.emplace (hspans.length_lt hfull) rfl, ?_⟩
    rw [hspans.known_put]
    exact hcreate hQ hspans.tail_notMem
  | leave left he =>
    obtain ⟨c, l, rfl⟩ := hspans.exists_cons he
    have hreply : some .threw ≠ some (Reply.emplaced (T := T) true) := nofun
    rw [record_eq hreply]
    exact ⟨_, hspans.leaveFront rfl, hQ⟩
  | take hb he =>
    obtain ⟨c, l, rfl⟩ := hspans.exists_cons he
    rw [record_eq r.front_ne_emplaced]
    refine ⟨l, hspans.pop, ?_⟩
    have hknown : r.moveFront.advanceHead.known Cap l = _ := hspans.known_advance rfl
    rw [hknown]
    exact htake ⟨hb, rfl, he⟩ hQ hspans.head_mem

/-- **Step**, while no element was taken. -/
theorem RingStep.keeps (h : RingStep b r c reply r') (hr : Stands Cap Ledger.Keeps r led)
    (hG : ¬ Takes b r c) : Stands Cap Ledger.Keeps r' (record led r reply) :=
  h.stands hr Ledger.Keeps.create fun ht => absurd ht hG

/-- **Step**, where an element is taken: its cell is lost. -/
theorem RingStep.forgets (h : RingStep b r c reply r') (hr : Stands Cap Ledger.Keeps r led)
    (hG : Takes b r c) : Stands Cap Ledger.Loses r' (record led r reply) := by
  obtain ⟨l, hspans, hkeeps⟩ := hr
  cases h with
  | idle _ hnot => exact absurd hG hnot
  | put => exact absurd hG.2.1 nofun
  | leave => exact absurd hG.2.1 nofun
  | take hb he =>
    obtain ⟨c, l, rfl⟩ := hspans.exists_cons he
    rw [record_eq r.front_ne_emplaced]
    refine ⟨l, hspans.pop, hkeeps.forget hspans.head_mem ?_⟩
    have hknown : r.moveFront.advanceHead.known Cap l = _ := hspans.known_advance rfl
    rw [hknown]
    exact Finset.notMem_erase _ _

/-- **Step**, after that. -/
theorem RingStep.loses (h : RingStep b r c reply r') (hr : Stands Cap Ledger.Loses r led) :
    Stands Cap Ledger.Loses r' (record led r reply) :=
  h.stands hr (fun hl _ => hl.create _) fun _ _ _ hl _ => hl.mono (Finset.erase_subset _ _)

/-- What the destructors' loop makes of a ledger. -/
theorem Stands.destroyAll {Q : Ledger Nat → Finset Nat → Prop} (h : Stands Cap Q r led)
    (hdelete : ∀ {led S k}, Q led S → k ∈ S → Q (.delete k :: led) (S.erase k)) :
    Q (r.destroyAll r.max_size.toNat led) ∅ := by
  obtain ⟨l, hspans, hQ⟩ := h
  refine hspans.destroyAll hdelete ?_ hQ
  rw [hspans.max_size]
  exact Nat.le_of_lt hspans.rings.length_lt

/-- **Run.** The ledger of a life balances iff no call of it takes an element. -/
theorem balanced_iff (h0 : ring M.init = .new Cap) (hCap : Cap.toNat + 1 < 2 ^ 64)
    (hstep : ∀ q c, RingStep (busy q) (ring q) c (M.out q c) (ring (M.next q c)))
    (calls : List (Use T)) {s : σ × Ledger Nat}
    (hs : s = (M.withHistory [] fun led q c => record led (ring q) (M.out q c)).after calls) :
    Balanced (some ((ring s.1).destroyAll (ring s.1).max_size.toNat s.2)) ↔
      M.EveryStep calls fun q c => ¬ Takes (busy q) (ring q) c := by
  have hinit : Stands Cap Ledger.Keeps (ring M.init) [] :=
    ⟨[], h0 ▸ Ring.holdsAs_new hCap some, Ledger.keeps_nil⟩
  have hrun := Machine.after_of_guard calls
    (M := M.withHistory [] fun led q c => record led (ring q) (M.out q c))
    (P := fun s => Stands Cap Ledger.Keeps (ring s.1) s.2)
    (B := fun s => Stands Cap Ledger.Loses (ring s.1) s.2)
    (G := fun s c => ¬ Takes (busy s.1) (ring s.1) c) hinit
    (fun s c h hG => (hstep s.1 c).keeps h hG)
    (fun s c h hG => (hstep s.1 c).forgets h (not_not.mp hG))
    (fun s c h => (hstep s.1 c).loses h)
  rw [← hs, Machine.everyStep_withHistory (G := fun q c => ¬ Takes (busy q) (ring q) c)] at hrun
  constructor
  · rintro ⟨led, hled, hbal⟩
    by_contra hG
    have hloses := (hrun.2 hG).destroyAll Ledger.Loses.delete
    exact hloses.not_balanced (Option.some.inj hled ▸ hbal)
  · intro hG
    have hkeeps := (hrun.1 hG).destroyAll Ledger.Keeps.delete
    exact ⟨_, rfl, hkeeps.1, hkeeps.balanced⟩

end Life

theorem usesLK_mutex (calls : List (Use T)) : ((usesLK T Cap).after calls).mutex = false := by
  suffices h : (usesLK T Cap).EveryState calls fun q => q.mutex = false from h.last
  refine Machine.everyState_of_step rfl fun q c h => ?_
  cases c with
  | emplace ctor =>
    simp only [Machine.next, usesLK, CircularQueueLK.emplace]
    split_ifs
    · exact h
    · exact h
    · cases ctor <;> exact h
  | pop assignment =>
    simp only [Machine.next, usesLK, CircularQueueLK.pop]
    split_ifs
    · exact h
    · exact h
    · cases assignment <;> exact h

/-- **Main.** For every capacity and every sequence of calls, on either class: the objects in
`m_data` are destroyed once each, and cells are constructed and destroyed in turn, iff no call
takes an element. -/
theorem life_balanced_iff (Cap : UInt64) (hCap : Cap.toNat + 1 < 2 ^ 64) (calls : List (Use T)) :
    (Balanced (lifeLK Cap calls) ↔
      (usesLK T Cap).EveryStep calls fun q c => ¬ Takes q.mutex q.ring c) ∧
    (Balanced (lifeSeq Cap calls) ↔
      (usesSeq T Cap).EveryStep calls fun q c => ¬ Takes q.atomic_using q.ring c) := by
  constructor
  · rw [← balanced_iff (M := usesLK T Cap) rfl hCap usesLK_step calls rfl]
    unfold lifeLK CircularQueueLK.destruct
    dsimp only
    rw [Machine.after_withHistory, usesLK_mutex, if_neg Bool.false_ne_true]
  · exact balanced_iff (M := usesSeq T Cap) rfl hCap usesSeq_step calls rfl

instance (busy : Bool) (r : Ring T) (c : Use T) [DecidableEq T] : Decidable (Takes busy r c) :=
  inferInstanceAs (Decidable (_ ∧ _))

theorem life_balanced_emplace :
    Balanced
      (lifeLK 2 [.emplace (some 7), .pop (.throws none), .emplace none, .emplace (some 8)]) :=
  (life_balanced_iff (T := Nat) 2 (by decide)
    [.emplace (some 7), .pop (.throws none), .emplace none, .emplace (some 8)]).1.mpr (by decide)

/-- An element goes in and comes out: nobody destroys what is left in cell 0. -/
theorem pop_forgets : ¬ Balanced (lifeLK 2 [.emplace (some 7), .pop .assigns]) := by
  rintro ⟨led, hled, -, hcount⟩
  obtain rfl : [.create 0] = led := Option.some.inj hled
  exact absurd (hcount 0) (by decide)

end LearnNotes.Queue
