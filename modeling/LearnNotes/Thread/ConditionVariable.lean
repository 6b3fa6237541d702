import LearnNotes.Lib.Termination

/-!
# `conditional_variable.cpp`

Threads `rthread`, any number of them, and one `sthread`, with the mutex and the condition variable
they share; the program starts one of each. A wait gives the mutex back and falls asleep in one
step; the one notification wakes one sleeper, if there is one, and with `spurious` a sleeper may
wake by itself. `handed_over`: no data is read that was not stored, whatever the order of the steps,
and in the end nobody is left asleep but those the notification did not reach, which a thread alone
cannot be.
-/

namespace LearnNotes.Thread.ConditionVariable

open Lib Relation

/-! ## Who has a mutex -/

section Held

variable {τ : Type} {holder : Option τ} {inside inside' : τ → Prop} {a b : τ}

/-- The thread recorded as the holder is the one that is inside, if any is. -/
def Held (holder : Option τ) (inside : τ → Prop) : Prop := ∀ a, holder = some a ↔ inside a

/-- **Mutual exclusion.** -/
theorem Held.exclusive (h : Held holder inside) (ha : inside a) (hb : inside b) : a = b :=
  Option.some.inj (((h a).mpr ha).symm.trans ((h b).mpr hb))

theorem Held.acquire (h : Held none inside) (ha : inside' a)
    (hother : ∀ b, b ≠ a → (inside' b ↔ inside b)) : Held (some a) inside' := by
  intro b
  by_cases heq : b = a
  · rw [heq]
    exact iff_of_true rfl ha
  · rw [hother b heq, ← h b]
    exact iff_of_false (fun hs => heq (Option.some.inj hs).symm) nofun

theorem Held.release (h : Held holder inside) (ha : inside a) (hout : ¬ inside' a)
    (hother : ∀ b, b ≠ a → (inside' b ↔ inside b)) : Held none inside' := by
  intro b
  refine iff_of_false nofun fun hb => ?_
  by_cases heq : b = a
  · exact hout (heq ▸ hb)
  · exact heq (h.exclusive ((hother b heq).mp hb) ha)

theorem Held.stay (h : Held holder inside) (hsame : ∀ b, inside' b ↔ inside b) :
    Held holder inside' := fun b => (h b).trans (hsame b).symm

end Held

/-! ## The program -/

/-- Where an `rthread` is. -/
inductive Receiver where
  | locking
  /-- It has the mutex and is about to look at the data. -/
  | checking
  | asleep
  | relocking
  | printing
  | unlocking
  | done
  deriving DecidableEq

/-- Where `sthread` is. -/
inductive Sender where
  | formatting
  | locking (msg : String)
  | storing (msg : String)
  | unlocking
  | notifying
  | done
  deriving DecidableEq

/-- Who has the mutex. -/
inductive Holder (ι : Type) where
  | receiver (i : ι)
  | sender
  deriving DecidableEq

inductive Line (ι : Type) where
  | waiting (i : ι)
  | received (i : ι) (data : String)
  | sent (id : Nat) (data : String)
  deriving DecidableEq

structure State (ι : Type) where
  mtx : Option (Holder ι) := none
  data : String := ""
  id : Nat := 0
  receiver : ι → Receiver := fun _ => .locking
  sender : Sender := .formatting
  printed : List (Line ι) := []

/-- `fmt::format("Hello from thread {}", id)`. -/
def message (id : Nat) : String := "Hello from thread " ++ toString id

variable {ι : Type} [DecidableEq ι]

namespace State

def setReceiver (i : ι) (r : Receiver) (s : State ι) : State ι :=
  { s with receiver := Function.update s.receiver i r }

def print (line : Line ι) (s : State ι) : State ι := { s with printed := s.printed ++ [line] }

def lock (h : Holder ι) (s : State ι) : State ι := { s with mtx := some h }

def unlock (s : State ι) : State ι := { s with mtx := none }

def setSender (p : Sender) (s : State ι) : State ι := { s with sender := p }

/-- What the critical section of `sthread` does. -/
def store (msg : String) (s : State ι) : State ι :=
  { s with data := msg, printed := s.printed ++ [.sent s.id msg], id := s.id + 1 }

end State

/-- The steps; the printing of an `rthread` at its start goes with its lock. -/
inductive Step (spurious : Prop) (s : State ι) : State ι → Prop where
  | lock {i : ι} : s.receiver i = .locking → s.mtx = none →
      Step spurious s (((s.lock (.receiver i)).print (.waiting i)).setReceiver i .checking)
  | pass {i : ι} : s.receiver i = .checking → s.data ≠ "" →
      Step spurious s (s.setReceiver i .printing)
  | wait {i : ι} : s.receiver i = .checking → s.data = "" →
      Step spurious s (s.unlock.setReceiver i .asleep)
  | wake {i : ι} : spurious → s.receiver i = .asleep →
      Step spurious s (s.setReceiver i .relocking)
  | relock {i : ι} : s.receiver i = .relocking → s.mtx = none →
      Step spurious s ((s.lock (.receiver i)).setReceiver i .checking)
  | receive {i : ι} : s.receiver i = .printing →
      Step spurious s ((s.print (.received i s.data)).setReceiver i .unlocking)
  | leave {i : ι} : s.receiver i = .unlocking →
      Step spurious s (s.unlock.setReceiver i .done)
  | format : s.sender = .formatting → Step spurious s (s.setSender (.locking (message s.id)))
  | lockSender {msg : String} : s.sender = .locking msg → s.mtx = none →
      Step spurious s ((s.lock .sender).setSender (.storing msg))
  | store {msg : String} : s.sender = .storing msg →
      Step spurious s ((s.store msg).setSender .unlocking)
  | unlockSender : s.sender = .unlocking → Step spurious s (s.unlock.setSender .notifying)
  | notify_one {i : ι} : s.sender = .notifying → s.receiver i = .asleep →
      Step spurious s ((s.setReceiver i .relocking).setSender .done)
  | notify_none : s.sender = .notifying → (∀ i, s.receiver i ≠ .asleep) →
      Step spurious s (s.setSender .done)

/-! ## What holds in every order -/

def Receiver.Holds : Receiver → Prop
  | .checking | .printing | .unlocking => True
  | _ => False

def Sender.Holds : Sender → Prop
  | .storing _ | .unlocking => True
  | _ => False

/-- The data is there. -/
def Sender.Stored : Sender → Prop
  | .unlocking | .notifying | .done => True
  | _ => False

/-- It has seen the data. -/
def Receiver.Past : Receiver → Prop
  | .printing | .unlocking | .done => True
  | _ => False

/-- It has printed the data. -/
def Receiver.Out : Receiver → Prop
  | .unlocking | .done => True
  | _ => False

instance : DecidablePred Receiver.Out
  | .unlocking | .done => .isTrue trivial
  | .locking | .checking | .asleep | .relocking | .printing => .isFalse id

/-- It is neither at its start nor asleep. -/
def Receiver.Awake : Receiver → Prop
  | .locking | .asleep => False
  | _ => True

/-- The message under way. -/
def Sender.pending : Sender → Option String
  | .locking msg | .storing msg => some msg
  | _ => none

/-- The thread is between its lock and its unlock. -/
def Inside (s : State ι) : Holder ι → Prop
  | .receiver i => (s.receiver i).Holds
  | .sender => s.sender.Holds

/-- The data is the message once it is stored, and is seen only then. -/
structure Data (s : State ι) : Prop where
  pending : ∀ msg ∈ s.sender.pending, msg = message 0
  unsent : ¬ s.sender.Stored → s.data = "" ∧ s.id = 0
  sent : s.sender.Stored → s.data = message 0 ∧ .sent 0 (message 0) ∈ s.printed
  past : ∀ i, (s.receiver i).Past → s.sender.Stored
  woken : s.sender = .done → ∀ i, s.receiver i = .asleep → ∃ j, (s.receiver j).Awake

/-- What each `rthread` has printed. -/
structure Printed (s : State ι) : Prop where
  count : ∀ i, s.printed.count (.received i (message 0)) =
    if (s.receiver i).Out then 1 else 0
  only : ∀ i data, .received i data ∈ s.printed → data = message 0
  order : ∀ pre i data post, s.printed = pre ++ .received i data :: post →
    .sent 0 (message 0) ∈ pre

theorem message_ne (id : Nat) : message id ≠ "" := fun h =>
  absurd (String.append_eq_empty_iff.mp h).1 (by decide)

variable {spurious : Prop} {s t : State ι} {i : ι} {r : Receiver}

/-! ## The mutex -/

theorem inside_setReceiver (hr : (r.Holds ↔ (s.receiver i).Holds)) (h : Holder ι) :
    Inside (s.setReceiver i r) h ↔ Inside s h := by
  cases h with
  | sender => exact Iff.rfl
  | receiver j =>
    show (Function.update s.receiver i r j).Holds ↔ _
    by_cases hj : j = i
    · subst hj
      rw [Function.update_self]
      exact hr
    · rw [Function.update_of_ne hj]
      exact Iff.rfl

theorem inside_other {h : Holder ι} (hne : h ≠ .receiver i) :
    Inside (s.setReceiver i r) h ↔ Inside s h := by
  cases h with
  | sender => exact Iff.rfl
  | receiver j =>
    have hj : j ≠ i := fun hj => hne (by rw [hj])
    show (Function.update s.receiver i r j).Holds ↔ _
    rw [Function.update_of_ne hj]
    exact Iff.rfl

theorem inside_self : Inside (s.setReceiver i r) (.receiver i) ↔ r.Holds := by
  show (Function.update s.receiver i r i).Holds ↔ _
  rw [Function.update_self]

omit [DecidableEq ι] in
theorem inside_setSender {p : Sender} {h : Holder ι} (hne : h ≠ .sender) :
    Inside (s.setSender p) h ↔ Inside s h := by
  cases h with
  | sender => exact absurd rfl hne
  | receiver j => exact Iff.rfl

omit [DecidableEq ι] in
theorem inside_same {p : Sender} (hp : p.Holds ↔ s.sender.Holds) (h : Holder ι) :
    Inside (s.setSender p) h ↔ Inside s h := by
  cases h with
  | sender => exact hp
  | receiver j => exact Iff.rfl

/-- **One step keeps the mutex.** -/
theorem held_step (h : Held s.mtx (Inside s)) (hst : Step spurious s t) :
    Held t.mtx (Inside t) := by
  cases hst with
  | @lock i hi hfree =>
    rw [hfree] at h
    exact h.acquire (inside_self.mpr trivial) fun h' hne => inside_other hne
  | @pass i hi =>
    exact h.stay (inside_setReceiver (iff_of_true trivial (by rw [hi]; trivial)))
  | @wait i hi =>
    exact h.release (a := .receiver i) (show (s.receiver i).Holds by rw [hi]; trivial)
      (inside_self.not.mpr id) fun h' hne => inside_other hne
  | @wake i _ hi =>
    exact h.stay (inside_setReceiver (iff_of_false id (by rw [hi]; exact id)))
  | @relock i hi hfree =>
    rw [hfree] at h
    exact h.acquire (inside_self.mpr trivial) fun h' hne => inside_other hne
  | @receive i hi =>
    exact h.stay (inside_setReceiver (iff_of_true trivial
      (show (s.receiver i).Holds by rw [hi]; trivial)))
  | @leave i hi =>
    exact h.release (a := .receiver i) (show (s.receiver i).Holds by rw [hi]; trivial)
      (inside_self.not.mpr id) fun h' hne => inside_other hne
  | format hs =>
    exact h.stay (inside_same (iff_of_false id (by rw [hs]; exact id)))
  | lockSender hs hfree =>
    rw [hfree] at h
    refine h.acquire (a := .sender) ?_ fun h' hne => inside_setSender hne
    exact trivial
  | store hs =>
    exact h.stay (inside_same (s := s.store _)
      (iff_of_true trivial (show s.sender.Holds by rw [hs]; trivial)))
  | unlockSender hs =>
    exact h.release (a := .sender) (show s.sender.Holds by rw [hs]; trivial) id
      fun h' hne => inside_setSender hne
  | @notify_one i hs hi =>
    have hstay := h.stay (inside_setReceiver (s := s) (i := i) (r := .relocking)
      (iff_of_false id (by rw [hi]; exact id)))
    exact hstay.stay (inside_same (iff_of_false id (show ¬ s.sender.Holds by rw [hs]; exact id)))
  | notify_none hs hnone =>
    exact h.stay (inside_same (iff_of_false id (by rw [hs]; exact id)))

/-! ## The data -/

/-- A step of an `rthread`, whatever it does to the mutex and prints. -/
theorem Data.move (h : Data s) (mtx : Option (Holder ι)) {printed : List (Line ι)}
    (hprinted : ∀ line ∈ s.printed, line ∈ printed) (hpast : r.Past → s.sender.Stored)
    (hawake : s.sender = .done → r.Awake) :
    Data { s with
      mtx := mtx, printed := printed, receiver := Function.update s.receiver i r } where
  pending := h.pending
  unsent := h.unsent
  sent hs := ⟨(h.sent hs).1, hprinted _ (h.sent hs).2⟩
  past j hj := by
    by_cases hji : j = i
    · subst hji
      exact hpast (by simpa using hj)
    · exact h.past j (by simpa [hji] using hj)
  woken hs j _ := ⟨i, by simpa using hawake hs⟩

omit [DecidableEq ι] in
/-- The sender's steps but the store. -/
theorem Data.moveSender (h : Data s) (mtx : Option (Holder ι)) {p : Sender}
    (hpending : ∀ msg ∈ p.pending, msg = message 0) (hstored : p.Stored ↔ s.sender.Stored)
    (hp : p ≠ .done) : Data { s with mtx := mtx, sender := p } where
  pending := hpending
  unsent hs := h.unsent (mt hstored.mpr hs)
  sent hs := h.sent (hstored.mp hs)
  past j hj := hstored.mpr (h.past j hj)
  woken hs := absurd hs hp

omit [DecidableEq ι] in
theorem Data.ne_done (h : Data s) (hdata : s.data = "") : s.sender ≠ .done := fun hs => by
  have := (h.sent (by rw [hs]; trivial)).1
  rw [hdata] at this
  exact message_ne 0 this.symm

omit [DecidableEq ι] in
theorem stored_of_data (h : Data s) (hdata : s.data ≠ "") : s.sender.Stored := by
  by_contra hns
  exact hdata (h.unsent hns).1

/-- **One step keeps the data.** -/
theorem data_step (h : Data s) (hst : Step spurious s t) : Data t := by
  cases hst with
  | lock hi hfree => exact h.move _ (fun _ => List.mem_append_left _) nofun fun _ => trivial
  | pass hi hdata =>
    exact h.move s.mtx (fun _ => id) (fun _ => stored_of_data h hdata) fun _ => trivial
  | wait hi hdata => exact h.move none (fun _ => id) nofun fun hs => absurd hs (h.ne_done hdata)
  | wake hsp hi => exact h.move s.mtx (fun _ => id) nofun fun _ => trivial
  | relock hi hfree => exact h.move _ (fun _ => id) nofun fun _ => trivial
  | @receive i hi =>
    exact h.move s.mtx (fun _ => List.mem_append_left _) (fun _ => h.past i (by rw [hi]; trivial))
      fun _ => trivial
  | @leave i hi =>
    exact h.move none (fun _ => id) (fun _ => h.past i (by rw [hi]; trivial)) fun _ => trivial
  | format hs =>
    have hns : ¬ s.sender.Stored := by rw [hs]; exact id
    refine h.moveSender s.mtx (fun msg hmsg => ?_) (iff_of_false id hns) nofun
    rw [← Option.some.inj hmsg, (h.unsent hns).2]
  | lockSender hs hfree =>
    have hns : ¬ s.sender.Stored := by rw [hs]; exact id
    exact h.moveSender _ (fun msg hmsg => h.pending msg (by rw [hs]; exact hmsg))
      (iff_of_false id hns) nofun
  | @store msg hs =>
    have hns : ¬ s.sender.Stored := by rw [hs]; exact id
    have hmsg : msg = message 0 := h.pending msg (by rw [hs]; rfl)
    have hid := (h.unsent hns).2
    refine ⟨nofun, fun hst => absurd trivial hst, fun _ => ⟨hmsg, ?_⟩, fun _ _ => trivial, nofun⟩
    show _ ∈ s.printed ++ [.sent s.id msg]
    rw [hid, hmsg]
    exact List.mem_append_right _ List.mem_cons_self
  | unlockSender hs =>
    exact h.moveSender none nofun (iff_of_true trivial (by rw [hs]; trivial)) nofun
  | @notify_one i hs hi =>
    have hstored : s.sender.Stored := by rw [hs]; trivial
    refine ⟨nofun, fun hst => absurd trivial hst, fun _ => h.sent hstored, fun _ _ => trivial,
      fun _ _ _ => ⟨i, ?_⟩⟩
    show (Function.update s.receiver i .relocking i).Awake
    rw [Function.update_self]
    trivial
  | notify_none hs hnone =>
    have hstored : s.sender.Stored := by rw [hs]; trivial
    exact ⟨nofun, fun hst => absurd trivial hst, fun _ => h.sent hstored, fun _ _ => trivial,
      fun _ i hi => absurd hi (hnone i)⟩

/-! ## What is printed -/

theorem out_move {receiver : ι → Receiver} {old : Receiver} (hi : receiver i = old)
    (hr : r.Out ↔ old.Out) (j : ι) :
    (Function.update receiver i r j).Out ↔ (receiver j).Out := by
  by_cases hji : j = i
  · rw [hji, Function.update_self, hi]
    exact hr
  · rw [Function.update_of_ne hji]

/-- A step that prints nothing. -/
theorem Printed.same (h : Printed s) (hprinted : t.printed = s.printed)
    (hout : ∀ j, (t.receiver j).Out ↔ (s.receiver j).Out) : Printed t := by
  refine ⟨fun j => ?_, ?_, ?_⟩
  · rw [hprinted, h.count j]
    simp only [hout]
  · rw [hprinted]
    exact h.only
  · rw [hprinted]
    exact h.order

omit [DecidableEq ι] in
theorem order_concat {printed : List (Line ι)} {line : Line ι}
    (h : ∀ pre i data post, printed = pre ++ .received i data :: post →
      .sent 0 (message 0) ∈ pre)
    (hline : ∀ i data, line = .received i data → .sent 0 (message 0) ∈ printed)
    (pre : List (Line ι)) (i : ι) (data : String) (post : List (Line ι))
    (heq : printed ++ [line] = pre ++ .received i data :: post) : .sent 0 (message 0) ∈ pre := by
  cases post using List.reverseRecOn with
  | nil =>
    obtain ⟨rfl, hlast⟩ := List.append_inj' heq rfl
    exact hline i data (List.cons.inj hlast).1
  | append_singleton post last =>
    rw [← List.cons_append, ← List.append_assoc] at heq
    exact h pre i data post (List.append_inj' heq rfl).1

/-- A step that prints a line of another kind. -/
theorem Printed.other (h : Printed s) {line : Line ι} (hprinted : t.printed = s.printed ++ [line])
    (hline : ∀ i data, line ≠ .received i data)
    (hout : ∀ j, (t.receiver j).Out ↔ (s.receiver j).Out) : Printed t := by
  refine ⟨fun j => ?_, fun j data hmem => ?_, ?_⟩
  · have hne : ¬ (line == .received j (message 0)) = true := by simpa using hline j (message 0)
    rw [hprinted, List.count_append, List.count_singleton, h.count j, if_neg hne]
    simp only [hout, Nat.add_zero]
  · rw [hprinted] at hmem
    rcases List.mem_append.mp hmem with hmem | hmem
    · exact h.only j data hmem
    · exact absurd (List.mem_singleton.mp hmem).symm (hline j data)
  · rw [hprinted]
    exact order_concat h.order fun i data heq => absurd heq (hline i data)

/-- An `rthread` prints the data. -/
theorem Printed.receive (h : Printed s) (hd : Data s) (hi : s.receiver i = .printing) :
    Printed ((s.print (.received i s.data)).setReceiver i .unlocking) := by
  obtain ⟨hdata, hsent⟩ := hd.sent (hd.past i (by rw [hi]; trivial))
  refine ⟨fun j => ?_, fun j data hmem => ?_, order_concat h.order fun _ _ _ => hsent⟩
  · show (s.printed ++ [Line.received i s.data]).count _ =
      if (Function.update s.receiver i .unlocking j).Out then 1 else 0
    rw [List.count_append, List.count_singleton, h.count j, hdata]
    by_cases hji : j = i
    · subst hji
      rw [Function.update_self, hi]
      simp [Receiver.Out]
    · have hne : ¬ (Line.received i (message 0) == .received j (message 0)) = true := by
        simpa using fun h => hji h.symm
      rw [Function.update_of_ne hji, if_neg hne, Nat.add_zero]
  · have hmem : _ ∈ s.printed ++ [.received i s.data] := hmem
    rcases List.mem_append.mp hmem with hmem | hmem
    · exact h.only j data hmem
    · obtain ⟨-, rfl⟩ := Line.received.inj (List.mem_singleton.mp hmem)
      exact hdata

/-- **One step keeps what is printed.** -/
theorem printed_step (h : Printed s) (hd : Data s) (hst : Step spurious s t) : Printed t := by
  cases hst with
  | lock hi hfree => exact h.other rfl nofun (out_move hi (iff_of_false id id))
  | pass hi hdata => exact h.same rfl (out_move hi (iff_of_false id id))
  | wait hi hdata => exact h.same rfl (out_move hi (iff_of_false id id))
  | wake hsp hi => exact h.same rfl (out_move hi (iff_of_false id id))
  | relock hi hfree => exact h.same rfl (out_move hi (iff_of_false id id))
  | receive hi => exact h.receive hd hi
  | leave hi => exact h.same rfl (out_move hi (iff_of_true trivial trivial))
  | notify_one hs hi => exact h.same rfl (out_move hi (iff_of_false id id))
  | store hs => exact h.other rfl nofun fun _ => Iff.rfl
  | _ => exact h.same rfl fun _ => Iff.rfl

/-! ## Whole runs -/

/-- What every order of steps keeps. -/
structure Inv (s : State ι) : Prop where
  held : Held s.mtx (Inside s)
  data : Data s
  printed : Printed s

theorem inv_init : Inv ({} : State ι) where
  held h := by
    refine iff_of_false nofun ?_
    cases h <;> exact id
  data := ⟨nofun, fun _ => ⟨rfl, rfl⟩, nofun, nofun, nofun⟩
  printed := ⟨fun _ => rfl, nofun, fun pre i data post h => absurd h.symm (by simp)⟩

theorem Inv.step (h : Inv s) (hst : Step spurious s t) : Inv t :=
  ⟨held_step h.held hst, data_step h.data hst, printed_step h.printed h.data hst⟩

/-! ## The end -/

def Receiver.rank : Receiver → Nat
  | .locking | .relocking => 5
  | .checking => 4
  | .printing => 2
  | .asleep | .unlocking => 1
  | .done => 0

def Sender.rank : Sender → Nat
  | .formatting => 5
  | .locking _ => 4
  | .storing _ => 3
  | .unlocking => 2
  | .notifying => 1
  | .done => 0

/-- What is left to do: the notification wakes one sleeper. -/
def left [Fintype ι] (s : State ι) : Nat :=
  ∑ i, (s.receiver i).rank + 5 * s.sender.rank

/-- A step of an `rthread` to a lower rank. -/
theorem left_move [Fintype ι] {old : Receiver} (hi : s.receiver i = old) (hlt : r.rank < old.rank)
    (ht : t.receiver = Function.update s.receiver i r) (hs : t.sender = s.sender) :
    left t < left s := by
  have hsum := sum_update Receiver.rank s.receiver i r
  unfold left
  rw [ht, hs]
  rw [hi] at hsum
  omega

/-- Without spurious wake-ups every step leaves less to do. -/
theorem left_step [Fintype ι] (hst : Step False s t) : left t < left s := by
  have hsender : ∀ {p : Sender}, s.sender = p → t.sender.rank < p.rank →
      t.receiver = s.receiver → left t < left s := fun hs hlt hr => by
    unfold left
    rw [hr, hs]
    omega
  cases hst with
  | lock hi hfree => exact left_move hi (by decide) rfl rfl
  | pass hi hdata => exact left_move hi (by decide) rfl rfl
  | wait hi hdata => exact left_move hi (by decide) rfl rfl
  | wake hsp hi => exact absurd hsp id
  | relock hi hfree => exact left_move hi (by decide) rfl rfl
  | receive hi => exact left_move hi (by decide) rfl rfl
  | leave hi => exact left_move hi (by decide) rfl rfl
  | format hs => exact hsender hs (show 4 < 5 by decide) rfl
  | lockSender hs hfree => exact hsender hs (show 3 < 4 by decide) rfl
  | store hs => exact hsender hs (show 2 < 3 by decide) rfl
  | unlockSender hs => exact hsender hs (show 1 < 2 by decide) rfl
  | @notify_one i hs hi =>
    -- the sleeper has four steps more to make, and the sender its last one less
    have hsum := sum_update Receiver.rank s.receiver i .relocking
    rw [hi] at hsum
    unfold left
    rw [hs]
    show ∑ j, (Function.update s.receiver i .relocking j).rank + 5 * 0 < _ + 5 * 1
    have h1 : Receiver.relocking.rank = 5 := rfl
    have h2 : Receiver.asleep.rank = 1 := rfl
    omega
  | notify_none hs hnone => exact hsender hs (show 0 < 1 by decide) rfl

/-- Whoever has the mutex can go on. -/
theorem Inv.mtx_of_final (h : Inv s) (hfinal : Final (Step spurious) s) : s.mtx = none := by
  cases hm : s.mtx with
  | none => rfl
  | some holder =>
    have hin := (h.held holder).mp hm
    cases holder with
    | receiver i =>
      have hin : (s.receiver i).Holds := hin
      cases hi : s.receiver i with
      | checking =>
        by_cases hdata : s.data = ""
        · exact absurd (.wait hi hdata) (hfinal _)
        · exact absurd (.pass hi hdata) (hfinal _)
      | printing => exact absurd (.receive hi) (hfinal _)
      | unlocking => exact absurd (.leave hi) (hfinal _)
      | _ => rw [hi] at hin; exact absurd hin id
    | sender =>
      have hin : s.sender.Holds := hin
      cases hs : s.sender with
      | storing msg => exact absurd (.store hs) (hfinal _)
      | unlocking => exact absurd (.unlockSender hs) (hfinal _)
      | _ => rw [hs] at hin; exact absurd hin id

/-- Where nothing can be done, nothing is left to do but by sleepers. -/
theorem Inv.final (h : Inv s) (hfinal : Final (Step spurious) s) :
    s.sender = .done ∧ ∀ i, s.receiver i = .done ∨ s.receiver i = .asleep := by
  have hfree := h.mtx_of_final hfinal
  constructor
  · cases hs : s.sender with
    | formatting => exact absurd (.format hs) (hfinal _)
    | locking msg => exact absurd (.lockSender hs hfree) (hfinal _)
    | storing msg => exact absurd (.store hs) (hfinal _)
    | unlocking => exact absurd (.unlockSender hs) (hfinal _)
    | notifying =>
      by_cases hasleep : ∃ i, s.receiver i = .asleep
      · obtain ⟨i, hi⟩ := hasleep
        exact absurd (.notify_one hs hi) (hfinal _)
      · exact absurd (.notify_none hs (not_exists.mp hasleep)) (hfinal _)
    | done => rfl
  · intro i
    cases hi : s.receiver i with
    | locking => exact absurd (.lock hi hfree) (hfinal _)
    | checking =>
      have hin := (h.held (.receiver i)).mpr (show (s.receiver i).Holds by rw [hi]; trivial)
      rw [hfree] at hin
      cases hin
    | asleep => exact .inr rfl
    | relocking => exact absurd (.relock hi hfree) (hfinal _)
    | printing => exact absurd (.receive hi) (hfinal _)
    | unlocking => exact absurd (.leave hi) (hfinal _)
    | done => exact .inl rfl

/-- **The data is handed over.** In every order of steps, spurious wake-ups among them: one thread
at a time has the mutex, an `rthread` prints once at most, behind the sender and what it stored.
Without more spurious wake-ups the threads come to an end; `sthread` is done then, and each
`rthread` has printed the data or is asleep, not all of them asleep. -/
theorem handed_over [Fintype ι] {spurious : Prop} {s : State ι}
    (hrun : ReflTransGen (Step spurious) {} s) :
    (∀ h h', Inside s h → Inside s h' → h = h') ∧
      (∀ pre i data post, s.printed = pre ++ .received i data :: post →
        data = message 0 ∧ .sent 0 data ∈ pre) ∧
      (∀ i, s.printed.count (.received i (message 0)) ≤ 1) ∧
      Terminates (Step False) s ∧
      (Final (Step False) s → s.sender = .done ∧
        (∀ i, s.printed.count (.received i (message 0)) = 1 ∨ s.receiver i = .asleep) ∧
        (∀ i, s.receiver i = .asleep → ∃ j ≠ i, s.receiver j = .done)) := by
  have hinv : Inv s := invariant_of_step (fun s t h hst => Inv.step h hst) inv_init hrun
  refine ⟨fun h h' => hinv.held.exclusive, fun pre i data post heq => ?_, fun i => ?_,
    terminates_of_measure left (fun s t _ hst => ⟨trivial, left_step hst⟩) (P := fun _ => True)
      trivial, fun hfinal => ?_⟩
  · have hdata := hinv.printed.only i data (by rw [heq]; simp)
    rw [hdata]
    exact ⟨rfl, hinv.printed.order pre i data post heq⟩
  · rw [hinv.printed.count]
    split <;> decide
  · obtain ⟨hs, hreceivers⟩ := hinv.final hfinal
    refine ⟨hs, fun i => ?_, fun i hi => ?_⟩
    · refine (hreceivers i).imp (fun hi => ?_) id
      rw [hinv.printed.count, hi]
      rfl
    · obtain ⟨j, hj⟩ := hinv.data.woken hs i hi
      have hdone : s.receiver j = .done := (hreceivers j).resolve_right fun hasleep => by
        rw [hasleep] at hj
        exact hj
      refine ⟨j, fun heq => ?_, hdone⟩
      rw [heq, hi] at hdone
      cases hdone

/-- The one `rthread` of the program falls asleep before the data is stored. -/
theorem handed_over_asleep :
    Terminates (Step False)
      ((((({} : State Unit).lock (.receiver ())).print (.waiting ())).setReceiver ()
        .checking).unlock.setReceiver () .asleep) :=
  (handed_over (ReflTransGen.refl.tail (.lock rfl rfl) |>.tail
    (.wait rfl rfl : Step True _ _))).2.2.2.1

end LearnNotes.Thread.ConditionVariable
