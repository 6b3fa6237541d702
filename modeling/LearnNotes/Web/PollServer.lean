import Mathlib.Logic.Function.Basic
import LearnNotes.Lib.Machine

/-!
# The connection table of `poll_server`

`web/poll_server.cpp` keeps its sockets in `fds`: the listener in slot 0, each connection in the
first slot whose `fd` is -1, and `maxfd` the highest slot in use so far. One step of the machine
is one turn of the event loop on what `poll`, `accept` and `read` answer. The slot search leaves
`index` at `MAX_FDS` where no slot is free, and `maxfd` takes it: `tableOk_iff`, a run keeps the
table in order exactly while nobody knocks at a full one.

Messages and their answers are left out. Each message is answered with the 26 bytes of `ctime` in a
`sendbuf` of 20, so what holds of a run that reads one takes 6 bytes behind `sendbuf` that nothing
else uses; `write` may also raise SIGPIPE, which ends the run.
-/

namespace LearnNotes.Web

open Lib

def MAX_FDS : Nat := 1024

/-- `struct pollfd`; of `events` and `revents` the bit `POLLIN`. -/
structure pollfd where
  fd : Int
  events : Bool
  revents : Bool

/-- The array and the stack behind it. -/
abbrev Fds := Nat → pollfd

/-! ## Initialisation -/

/-- The body of the loop, which sets five entries at a time. -/
def clearFrom (fds : Fds) (i : Nat) : Fds := fun j =>
  if i ≤ j ∧ j < i + 5 then { fds j with fd := -1, events := true } else fds j

/-- `for(int i = 0; i + 3 < MAX_FDS; i+=4)`. -/
def clearAll (fds : Fds) : Fds :=
  (List.range (MAX_FDS / 4)).foldl (fun fds k => clearFrom fds (4 * k)) fds

/-- The server: its variables, the connections `accept` has given and `close` has not taken
back, and the indices of `fds` and the counts for `poll` that the loop has used. -/
structure Server where
  listenfd : Nat
  fds : Fds
  maxfd : Nat := 0
  opened : List Int := []
  touched : List Nat := []
  polled : List Nat := []
  running : Bool := true

def Server.new (listenfd : Nat) (mem : Fds) : Server where
  listenfd := listenfd
  fds := Function.update (clearAll mem) 0 { clearAll mem 0 with fd := listenfd }

/-! ## The event loop -/

/-- One turn: what `poll` reports for each entry, or -1, the descriptor `accept` gives, or -1,
and what `read` returns for each slot. -/
structure Outcome where
  poll : Option (Nat → Bool)
  accept : Option Nat
  read : Nat → Int

namespace Server

/-- The loop uses these entries of `fds`. -/
def touch (is : List Nat) (s : Server) : Server := { s with touched := is ++ s.touched }

/-- `poll(fds, maxfd + 1, -1)`, which ignores negative descriptors. -/
def poll (ready : Nat → Bool) (s : Server) : Server :=
  { s with
    polled := (s.maxfd + 1) :: s.polled
    fds := fun i =>
      if i < s.maxfd + 1 then
        { s.fds i with revents := ready i && (s.fds i).events && decide (0 ≤ (s.fds i).fd) }
      else s.fds i }

/-- `for(; index < MAX_FDS; ++index) if(fds[index].fd == -1)`, with `left` turns to go. -/
def search (fds : Fds) : (left : Nat) → (index : Nat) → Nat
  | 0, index => index
  | left + 1, index => if (fds index).fd = -1 then index else search fds left (index + 1)

/-- `accept`: a descriptor that is not open, or -1. -/
def acceptfd (answer : Option Nat) (s : Server) : Int :=
  match answer with
  | none => -1
  | some fd => if fd = s.listenfd ∨ (fd : Int) ∈ s.opened then -1 else fd

/-- `fds[index].fd = fd`. -/
def setFd (index : Nat) (fd : Int) (s : Server) : Server :=
  { s with fds := Function.update s.fds index { s.fds index with fd := fd } }

/-- A connection request. -/
def accept (answer : Option Nat) (s : Server) : Server :=
  let acceptfd := s.acceptfd answer
  let index := search s.fds MAX_FDS 0
  let s := { s with opened := if acceptfd = -1 then s.opened else acceptfd :: s.opened }
  let s := s.touch (List.range (min (index + 1) MAX_FDS))
  let s := if index < MAX_FDS then s.setFd index acceptfd else s
  { s with maxfd := if index > s.maxfd then index else s.maxfd }

/-- `close(fd)`. -/
def close (fd : Int) (s : Server) : Server := { s with opened := s.opened.filter (· ≠ fd) }

/-- One slot; `read` on a negative descriptor fails. -/
def visit (read : Nat → Int) (s : Server) (i : Nat) : Server :=
  let s := s.touch [i]
  if (s.fds i).revents then
    let len := if (s.fds i).fd < 0 then -1 else read i
    if len > 0 then s
    else if len = 0 then (s.close (s.fds i).fd).setFd i (-1)
    else s
  else s

/-- `for(int i = 1; i <= maxfd; ++i)`. -/
def visitAll (read : Nat → Int) (s : Server) : Server :=
  (List.range' 1 s.maxfd).foldl (visit read) s

/-- One turn of the loop; where `poll` fails, `ERR` ends the process. -/
def turn (s : Server) (o : Outcome) : Server :=
  if !s.running then s
  else
    match o.poll with
    | none => { s with polled := (s.maxfd + 1) :: s.polled, running := false }
    | some ready =>
      let s := (s.poll ready).touch [0]
      (if (s.fds 0).revents then s.accept o.accept else s).visitAll o.read

end Server

/-- `main` after its sockets are set up; `mem` is what the stack holds. -/
def pollServer (listenfd : Nat) (mem : Fds) : Machine Server Outcome Unit where
  init := .new listenfd mem
  step s o := ((), s.turn o)

theorem next_pollServer (listenfd : Nat) (mem : Fds) (s : Server) (o : Outcome) :
    (pollServer listenfd mem).next s o = s.turn o := rfl

/-! ## The table -/

/-- The slots of connections. -/
def Server.Holds (s : Server) (fd : Int) (i : Nat) : Prop :=
  1 ≤ i ∧ i ≤ s.maxfd ∧ (s.fds i).fd = fd

/-- Indices and counts stay within the array, and every connection that is open has one slot. -/
structure TableOk (s : Server) : Prop where
  touched : ∀ i ∈ s.touched, i < MAX_FDS
  polled : ∀ n ∈ s.polled, n ≤ MAX_FDS
  slot : ∀ fd ∈ s.opened, ∃! i, s.Holds fd i

/-- Every slot for a connection is in use. -/
def Server.Full (s : Server) : Prop := ∀ i, 1 ≤ i → i < MAX_FDS → (s.fds i).fd ≠ -1

/-- The turn takes no connection request with a full table. -/
def NotWhileFull (s : Server) (o : Outcome) : Prop :=
  s.running = true → ∀ ready, o.poll = some ready → ready 0 = true → ¬s.Full

/-! ## The table at the start -/

def Cleared (fds : Fds) (j : Nat) : Prop := (fds j).fd = -1 ∧ (fds j).events = true

theorem cleared_clearFrom {fds : Fds} {i j : Nat} (h : (i ≤ j ∧ j < i + 5) ∨ Cleared fds j) :
    Cleared (clearFrom fds i) j := by
  unfold Cleared clearFrom
  by_cases hj : i ≤ j ∧ j < i + 5
  · simp [hj]
  · rw [if_neg hj]
    exact h.resolve_left hj

theorem cleared_foldl {ks : List Nat} {fds : Fds} {j : Nat}
    (h : (∃ k ∈ ks, 4 * k ≤ j ∧ j < 4 * k + 5) ∨ Cleared fds j) :
    Cleared (ks.foldl (fun fds k => clearFrom fds (4 * k)) fds) j := by
  induction ks generalizing fds with
  | nil => simpa using h
  | cons k ks ih =>
    rw [List.foldl_cons]
    rcases h with ⟨k', hk', hj⟩ | hold
    · rcases List.mem_cons.mp hk' with rfl | hk'
      · exact ih (.inr (cleared_clearFrom (.inl hj)))
      · exact ih (.inl ⟨k', hk', hj⟩)
    · exact ih (.inr (cleared_clearFrom (.inr hold)))

/-- The loop sets every entry, and the one behind the array. -/
theorem cleared_clearAll (mem : Fds) {j : Nat} (hj : j ≤ MAX_FDS) : Cleared (clearAll mem) j := by
  have hmax : MAX_FDS = 1024 := rfl
  refine cleared_foldl (.inl ⟨min (j / 4) 255, ?_, ?_⟩)
  · rw [List.mem_range]
    omega
  · omega

variable {s : Server} {fds : Fds} {read : Nat → Int} {answer : Option Nat} {i j left index : Nat}
  {is : List Nat}

/-! ## The slot search -/

namespace Server

theorem fd_search (h : search fds left index < index + left) :
    (fds (search fds left index)).fd = -1 := by
  induction left generalizing index with
  | zero => exact absurd h (Nat.lt_irrefl _)
  | succ left ih =>
    unfold search at h ⊢
    by_cases hfree : (fds index).fd = -1
    · rw [if_pos hfree]
      exact hfree
    · rw [if_neg hfree] at h ⊢
      exact ih (by omega)

theorem fd_ne_of_lt_search (hi : index ≤ i) (h : i < search fds left index) :
    (fds i).fd ≠ -1 := by
  induction left generalizing index with
  | zero => exact absurd h (Nat.not_lt.mpr hi)
  | succ left ih =>
    unfold search at h
    by_cases hfree : (fds index).fd = -1
    · rw [if_pos hfree] at h
      omega
    · rw [if_neg hfree] at h
      rcases Nat.lt_or_eq_of_le hi with hlt | rfl
      · exact ih hlt h
      · exact hfree

/-! ## What the turns keep -/

/-- The connection is in the slot, be it above `maxfd`. -/
def InSlot (s : Server) (fd : Int) (i : Nat) : Prop :=
  1 ≤ i ∧ i < MAX_FDS ∧ (s.fds i).fd = fd

/-- The invariant: the listener in slot 0, open connections one to a slot, and nothing else;
no connection above `maxfd`. -/
structure Slots (s : Server) : Prop where
  listener : (s.fds 0).fd = s.listenfd
  listens : (s.fds 0).events = true
  maxfd : s.maxfd < MAX_FDS
  free : ∀ i, s.maxfd < i → i < MAX_FDS → (s.fds i).fd = -1
  held : ∀ i, 1 ≤ i → i < MAX_FDS → (s.fds i).fd = -1 ∨ (s.fds i).fd ∈ s.opened
  opened : ∀ fd ∈ s.opened, 0 ≤ fd
  slot : ∀ fd ∈ s.opened, ∃! i, s.InSlot fd i

/-- Descriptors and connections are as they were. -/
structure SameSlots (s t : Server) : Prop where
  listenfd : t.listenfd = s.listenfd
  maxfd : t.maxfd = s.maxfd
  opened : t.opened = s.opened
  fd : ∀ i, (t.fds i).fd = (s.fds i).fd
  events : ∀ i, (t.fds i).events = (s.fds i).events

theorem Slots.of_same {t : Server} (h : s.Slots) (hst : s.SameSlots t) : t.Slots := by
  obtain ⟨hl, hm, ho, hfd, he⟩ := hst
  have hin : ∀ fd i, t.InSlot fd i ↔ s.InSlot fd i := fun fd i => by
    unfold InSlot
    rw [hfd]
  exact
    { listener := by rw [hfd, hl]; exact h.listener
      listens := by rw [he]; exact h.listens
      maxfd := by rw [hm]; exact h.maxfd
      free := by simpa only [hm, hfd] using h.free
      held := by simpa only [ho, hfd] using h.held
      opened := by rw [ho]; exact h.opened
      slot := by simpa only [ho, hin] using h.slot }

theorem sameSlots_touch (is : List Nat) (s : Server) : s.SameSlots (s.touch is) :=
  ⟨rfl, rfl, rfl, fun _ => rfl, fun _ => rfl⟩

theorem sameSlots_poll (ready : Nat → Bool) (s : Server) : s.SameSlots (s.poll ready) := by
  refine ⟨rfl, rfl, rfl, fun i => ?_, fun i => ?_⟩ <;>
  · unfold poll
    dsimp only
    split <;> rfl

theorem Slots.new (listenfd : Nat) (mem : Fds) : (Server.new listenfd mem).Slots := by
  have hne : ∀ i, i ≠ 0 → (Server.new listenfd mem).fds i = clearAll mem i := fun i hi =>
    Function.update_of_ne hi ..
  have hzero : ((Server.new listenfd mem).fds 0).fd = listenfd ∧
      ((Server.new listenfd mem).fds 0).events = (clearAll mem 0).events := by
    unfold Server.new
    simp only [Function.update_self, and_self]
  have hfree : ∀ i, i ≠ 0 → i < MAX_FDS → ((Server.new listenfd mem).fds i).fd = -1 := by
    intro i hi hlt
    rw [hne i hi]
    exact (cleared_clearAll mem (Nat.le_of_lt hlt)).1
  exact
    { listener := hzero.1
      listens := hzero.2.trans (cleared_clearAll mem (Nat.zero_le _)).2
      maxfd := (by decide : 0 < MAX_FDS)
      free := fun i hi hlt => hfree i (Nat.ne_of_gt hi) hlt
      held := fun i hi hlt => .inl (hfree i (Nat.ne_of_gt hi) hlt)
      opened := by rintro _ ⟨⟩
      slot := by rintro _ ⟨⟩ }

theorem setFd_self (s : Server) (index : Nat) (fd : Int) :
    (s.setFd index fd).fds index = { s.fds index with fd := fd } := Function.update_self ..

theorem setFd_of_ne (h : i ≠ index) (s : Server) (fd : Int) :
    (s.setFd index fd).fds i = s.fds i := Function.update_of_ne h ..

/-- A slot that neither held the connection nor is given it makes no difference. -/
theorem inSlot_setFd {fd fd' : Int} (hold : (s.fds index).fd ≠ fd) (hnew : fd' ≠ fd) (i : Nat) :
    (s.setFd index fd').InSlot fd i ↔ s.InSlot fd i := by
  unfold InSlot
  by_cases hi : i = index
  · subst hi
    rw [setFd_self]
    exact iff_of_false (fun h => hnew h.2.2) fun h => hold h.2.2
  · rw [setFd_of_ne hi]

/-- A slot that is found is a free one for a connection. -/
theorem Slots.search_pos (h : s.Slots) (hi : search s.fds MAX_FDS 0 < MAX_FDS) :
    1 ≤ search s.fds MAX_FDS 0 := by
  rcases Nat.eq_zero_or_pos (search s.fds MAX_FDS 0) with h0 | hpos
  · have hfree : (s.fds 0).fd = -1 := by
      have := @fd_search s.fds MAX_FDS 0 (by omega)
      rwa [h0] at this
    have := h.listener
    omega
  · exact hpos

/-- The search fails exactly in a full table. -/
theorem Slots.search_lt_iff (h : s.Slots) : search s.fds MAX_FDS 0 < MAX_FDS ↔ ¬s.Full := by
  constructor
  · intro hlt hfull
    exact hfull _ (h.search_pos hlt) hlt (fd_search (by omega))
  · intro hfull
    obtain ⟨i, hi⟩ := not_forall.mp hfull
    obtain ⟨hpos, hi⟩ := Classical.not_imp.mp hi
    obtain ⟨hlt, hfree⟩ := Classical.not_imp.mp hi
    by_contra hle
    exact hfree (fd_ne_of_lt_search (Nat.zero_le i) (show i < search s.fds MAX_FDS 0 by omega))

/-- `fd` is put in the slot, with what was there closed and what is put there opened. -/
structure Assigns (s t : Server) (index : Nat) (fd : Int) : Prop where
  pos : 1 ≤ index
  lt : index < MAX_FDS
  fds : t.fds = (s.setFd index fd).fds
  listenfd : t.listenfd = s.listenfd
  le_maxfd : s.maxfd ≤ t.maxfd
  maxfd_lt : t.maxfd < MAX_FDS
  below : fd = -1 ∨ index ≤ t.maxfd
  fresh : fd = -1 ∨ (0 ≤ fd ∧ fd ∉ s.opened)
  opened : ∀ d, d ∈ t.opened ↔ (d ∈ s.opened ∧ d ≠ (s.fds index).fd) ∨ (d = fd ∧ fd ≠ -1)

/-- Each connection keeps its slot, and the one put in is in no other. -/
theorem Slots.slot_assign {t : Server} {fd : Int} (h : s.Slots) (ha : s.Assigns t index fd) :
    ∀ d ∈ t.opened, ∃! i, t.InSlot d i := by
  have hin : ∀ d i, t.InSlot d i ↔ (s.setFd index fd).InSlot d i := fun d i => by
    unfold InSlot
    rw [ha.fds]
  simp only [hin]
  intro d hd
  rcases (ha.opened d).mp hd with ⟨hold, hne⟩ | ⟨rfl, hnew⟩
  · have hfd : fd ≠ d := by
      have := h.opened d hold
      rcases ha.fresh with hclosed | ⟨-, hfresh⟩
      · omega
      · exact fun heq => hfresh (heq ▸ hold)
    simpa only [inSlot_setFd (Ne.symm hne) hfd] using h.slot d hold
  · obtain ⟨hnonneg, hfresh⟩ := ha.fresh.resolve_left hnew
    refine ⟨index, ⟨ha.pos, ha.lt, by rw [setFd_self]⟩, ?_⟩
    -- a slot that had the number before would have an open connection
    rintro i ⟨hi1, hi2, hi⟩
    by_contra hne
    rw [setFd_of_ne hne] at hi
    rcases h.held i hi1 hi2 with hfree | hopen
    · omega
    · exact hfresh (hi ▸ hopen)

theorem Slots.assign {t : Server} {fd : Int} (h : s.Slots) (ha : s.Assigns t index fd) :
    t.Slots := by
  have hself : (t.fds index).fd = fd := by
    rw [ha.fds, setFd_self]
  have hother : ∀ i, i ≠ index → t.fds i = s.fds i := fun i hi => by
    rw [ha.fds, setFd_of_ne hi]
  have hzero := hother 0 (Nat.ne_of_lt ha.pos)
  refine
    { listener := by rw [hzero, ha.listenfd]; exact h.listener
      listens := by rw [hzero]; exact h.listens
      maxfd := ha.maxfd_lt
      free := fun i hi hlt => ?_
      held := fun i hpos hlt => ?_
      opened := fun d hd => ?_
      slot := h.slot_assign ha }
  · by_cases hi' : i = index
    · rw [hi', hself]
      exact ha.below.resolve_right (by omega)
    · rw [hother i hi']
      exact h.free i (Nat.lt_of_le_of_lt ha.le_maxfd hi) hlt
  · by_cases hi : i = index
    · rw [hi, hself]
      exact or_iff_not_imp_left.mpr fun hne => (ha.opened fd).mpr (.inr ⟨rfl, hne⟩)
    · rw [hother i hi]
      refine (h.held i hpos hlt).imp id fun hopen =>
        (ha.opened _).mpr (.inl ⟨hopen, fun heq => hi ?_⟩)
      exact (h.slot _ hopen).unique ⟨hpos, hlt, rfl⟩ ⟨ha.pos, ha.lt, heq.symm⟩
  · rcases (ha.opened d).mp hd with ⟨hold, -⟩ | ⟨rfl, hnew⟩
    · exact h.opened d hold
    · exact (ha.fresh.resolve_left hnew).1

/-- `accept` gives no descriptor that is in use. -/
theorem acceptfd_cases (answer : Option Nat) (s : Server) :
    s.acceptfd answer = -1 ∨ (0 ≤ s.acceptfd answer ∧ s.acceptfd answer ∉ s.opened) := by
  cases answer with
  | none => exact .inl rfl
  | some fd =>
    have hfd : s.acceptfd (some fd) =
        if fd = s.listenfd ∨ (fd : Int) ∈ s.opened then -1 else (fd : Int) := rfl
    rw [hfd]
    by_cases huse : fd = s.listenfd ∨ (fd : Int) ∈ s.opened
    · rw [if_pos huse]
      exact .inl rfl
    · rw [if_neg huse]
      exact .inr ⟨Int.natCast_nonneg fd, fun h => huse (.inr h)⟩

section Accept

variable (answer : Option Nat) (hlt : search s.fds MAX_FDS 0 < MAX_FDS)

theorem accept_maxfd (s : Server) :
    (s.accept answer).maxfd = max s.maxfd (search s.fds MAX_FDS 0) := by
  unfold accept setFd touch
  dsimp only
  split <;> dsimp only <;> split <;> omega

theorem accept_opened (s : Server) :
    (s.accept answer).opened =
      if s.acceptfd answer = -1 then s.opened else s.acceptfd answer :: s.opened := by
  unfold accept setFd touch
  dsimp only
  split <;> rfl

theorem accept_listenfd (s : Server) : (s.accept answer).listenfd = s.listenfd := by
  unfold accept setFd touch
  dsimp only
  split <;> rfl

include hlt in
theorem accept_fds :
    (s.accept answer).fds =
      (s.setFd (search s.fds MAX_FDS 0) (s.acceptfd answer)).fds := by
  unfold accept setFd touch
  dsimp only
  rw [if_pos hlt]

end Accept

/-- A request with a slot to spare puts its connection, if `accept` gives one, in a free slot. -/
theorem assigns_accept (h : s.Slots) (hfull : ¬s.Full) (answer : Option Nat) :
    s.Assigns (s.accept answer) (search s.fds MAX_FDS 0) (s.acceptfd answer) := by
  have hlt := h.search_lt_iff.mpr hfull
  have hfree := @fd_search s.fds MAX_FDS 0 (by omega)
  refine
    { pos := h.search_pos hlt
      lt := hlt
      fds := accept_fds answer hlt
      listenfd := accept_listenfd answer s
      le_maxfd := by rw [accept_maxfd]; exact Nat.le_max_left ..
      maxfd_lt := by rw [accept_maxfd]; exact Nat.max_lt.mpr ⟨h.maxfd, hlt⟩
      below := .inr (by rw [accept_maxfd]; exact Nat.le_max_right ..)
      fresh := acceptfd_cases answer s
      opened := fun fd => ?_ }
  have hold : fd ∈ s.opened → fd ≠ (s.fds (search s.fds MAX_FDS 0)).fd := fun hfd => by
    have := h.opened fd hfd
    omega
  rw [accept_opened, and_iff_left_of_imp hold]
  by_cases hfail : s.acceptfd answer = -1
  · rw [if_pos hfail]
    exact (or_iff_left fun hnew => hnew.2 hfail).symm
  · rw [if_neg hfail, List.mem_cons, or_comm, and_iff_left hfail]

/-- What a slot comes to: nothing changes, or its connection is closed. -/
theorem visit_cases (read : Nat → Int) (s : Server) (i : Nat) :
    s.visit read i = s.touch [i] ∨
      s.visit read i = ((s.close (s.fds i).fd).setFd i (-1)).touch [i] := by
  unfold visit
  dsimp only
  by_cases hready : ((s.touch [i]).fds i).revents
  · rw [if_pos hready]
    by_cases hneg : ((s.touch [i]).fds i).fd < 0
    · rw [if_pos hneg]
      exact .inl rfl
    · rw [if_neg hneg]
      split
      · exact .inl rfl
      · split
        · exact .inr rfl
        · exact .inl rfl
  · rw [if_neg hready]
    exact .inl rfl

/-- A connection that is closed leaves its slot. -/
theorem assigns_close (h : s.Slots) (hpos : 1 ≤ i) (hi : i ≤ s.maxfd) :
    s.Assigns ((s.close (s.fds i).fd).setFd i (-1)) i (-1) where
  pos := hpos
  lt := Nat.lt_of_le_of_lt hi h.maxfd
  fds := rfl
  listenfd := rfl
  le_maxfd := Nat.le_refl _
  maxfd_lt := h.maxfd
  below := .inl rfl
  fresh := .inl rfl
  opened fd := by
    have hmem : fd ∈ ((s.close (s.fds i).fd).setFd i (-1)).opened ↔
        fd ∈ s.opened ∧ fd ≠ (s.fds i).fd := by
      unfold close setFd
      rw [List.mem_filter, decide_eq_true_eq]
    rw [hmem]
    exact (or_iff_left fun hnew => hnew.2 rfl).symm

theorem Slots.visit (h : s.Slots) (hpos : 1 ≤ i) (hi : i ≤ s.maxfd) :
    (s.visit read i).Slots := by
  rcases visit_cases read s i with heq | heq
  · rw [heq]
    exact h.of_same (sameSlots_touch [i] s)
  · rw [heq]
    exact (h.assign (assigns_close h hpos hi)).of_same (sameSlots_touch [i] _)

/-! ## A whole turn -/

theorem visit_maxfd (read : Nat → Int) (s : Server) (i : Nat) :
    (s.visit read i).maxfd = s.maxfd := by
  rcases visit_cases read s i with heq | heq <;> rw [heq] <;> rfl

theorem visit_touched (read : Nat → Int) (s : Server) (i : Nat) :
    (s.visit read i).touched = i :: s.touched := by
  rcases visit_cases read s i with heq | heq <;> rw [heq] <;> rfl

theorem visit_polled (read : Nat → Int) (s : Server) (i : Nat) :
    (s.visit read i).polled = s.polled := by
  rcases visit_cases read s i with heq | heq <;> rw [heq] <;> rfl

theorem visit_running (read : Nat → Int) (s : Server) (i : Nat) :
    (s.visit read i).running = s.running := by
  rcases visit_cases read s i with heq | heq <;> rw [heq] <;> rfl

theorem visitAll_maxfd (read : Nat → Int) (s : Server) :
    (s.visitAll read).maxfd = s.maxfd :=
  List.foldlRecOn (motive := fun t => t.maxfd = s.maxfd) _ _ rfl fun t ht i _ =>
    (visit_maxfd read t i).trans ht

theorem visitAll_running (read : Nat → Int) (s : Server) :
    (s.visitAll read).running = s.running :=
  List.foldlRecOn (motive := fun t => t.running = s.running) _ _ rfl fun t ht i _ =>
    (visit_running read t i).trans ht

theorem visitAll_touched (read : Nat → Int) (s : Server) :
    (s.visitAll read).touched = (List.range' 1 s.maxfd).reverse ++ s.touched := by
  unfold visitAll
  generalize List.range' 1 s.maxfd = is
  induction is generalizing s with
  | nil => rfl
  | cons i is ih =>
    rw [List.foldl_cons, ih, visit_touched, List.reverse_cons, List.append_assoc]
    rfl

theorem visitAll_polled (read : Nat → Int) (s : Server) :
    (s.visitAll read).polled = s.polled :=
  List.foldlRecOn (motive := fun t => t.polled = s.polled) _ _ rfl fun t ht i _ =>
    (visit_polled read t i).trans ht

theorem Slots.visitAll (h : s.Slots) (read : Nat → Int) : (s.visitAll read).Slots := by
  refine (List.foldlRecOn (motive := fun t : Server => t.Slots ∧ t.maxfd = s.maxfd) _ _ ⟨h, rfl⟩
    fun t ht i hi => ?_).1
  obtain ⟨ht, hmax⟩ := ht
  rw [List.mem_range'_1] at hi
  exact ⟨ht.visit hi.1 (by omega), (visit_maxfd read t i).trans hmax⟩

theorem accept_touched (answer : Option Nat) (s : Server) :
    (s.accept answer).touched =
      List.range (min (search s.fds MAX_FDS 0 + 1) MAX_FDS) ++ s.touched := by
  unfold accept setFd touch
  dsimp only
  split <;> rfl

theorem accept_running (answer : Option Nat) (s : Server) :
    (s.accept answer).running = s.running := by
  unfold accept setFd touch
  dsimp only
  split <;> rfl

theorem accept_polled (answer : Option Nat) (s : Server) :
    (s.accept answer).polled = s.polled := by
  unfold accept setFd touch
  dsimp only
  split <;> rfl

/-- The turn has used no index and no count beyond the array. -/
structure Bounded (s : Server) : Prop where
  touched : ∀ i ∈ s.touched, i < MAX_FDS
  polled : ∀ n ∈ s.polled, n ≤ MAX_FDS

theorem Bounded.accept (h : s.Bounded) (answer : Option Nat) : (s.accept answer).Bounded where
  touched := by
    rw [accept_touched]
    rintro i hi
    rcases List.mem_append.mp hi with hi | hi
    · rw [List.mem_range] at hi
      omega
    · exact h.touched i hi
  polled := by
    rw [accept_polled]
    exact h.polled

theorem Bounded.visitAll (h : s.Bounded) (hmax : s.maxfd < MAX_FDS) (read : Nat → Int) :
    (s.visitAll read).Bounded where
  touched := by
    rw [visitAll_touched]
    intro i hi
    rcases List.mem_append.mp hi with hi | hi
    · rw [List.mem_reverse, List.mem_range'_1] at hi
      omega
    · exact h.touched i hi
  polled := by
    rw [visitAll_polled]
    exact h.polled

/-- What `poll` and the test of the listener's entry leave. -/
def polledWith (ready : Nat → Bool) (s : Server) : Server := (s.poll ready).touch [0]

theorem sameSlots_polledWith (ready : Nat → Bool) (s : Server) :
    s.SameSlots (s.polledWith ready) :=
  let h := sameSlots_poll ready s
  ⟨h.listenfd, h.maxfd, h.opened, h.fd, h.events⟩

theorem full_polledWith (ready : Nat → Bool) (s : Server) :
    (s.polledWith ready).Full ↔ s.Full := by
  unfold Full
  simp only [(sameSlots_polledWith ready s).fd]

theorem Bounded.polledWith (h : s.Bounded) (hmax : s.maxfd < MAX_FDS) (ready : Nat → Bool) :
    (s.polledWith ready).Bounded where
  touched := List.forall_mem_cons.mpr ⟨by decide, h.touched⟩
  polled := List.forall_mem_cons.mpr ⟨hmax, h.polled⟩

/-- A turn of a table in order: a request is taken where the listener is ready. -/
theorem Slots.turn_eq {o : Outcome} {ready : Nat → Bool} (h : s.Slots) (hrun : s.running = true)
    (ho : o.poll = some ready) :
    s.turn o =
      (if ready 0 then (s.polledWith ready).accept o.accept
        else s.polledWith ready).visitAll o.read := by
  have hready : ((s.polledWith ready).fds 0).revents = ready 0 := by
    have hfd : 0 ≤ (s.fds 0).fd := by
      have := h.listener
      omega
    unfold Server.polledWith Server.touch Server.poll
    simp [h.listens, hfd]
  unfold turn
  rw [hrun, ho, ← hready]
  rfl

structure Inv (s : Server) : Prop extends s.Slots, s.Bounded

theorem Inv.new (listenfd : Nat) (mem : Fds) : (Server.new listenfd mem).Inv :=
  ⟨Slots.new listenfd mem, { touched := by rintro _ ⟨⟩, polled := by rintro _ ⟨⟩ }⟩

theorem Inv.turn {o : Outcome} (h : s.Inv) (hg : NotWhileFull s o) : (s.turn o).Inv := by
  cases hrun : s.running with
  | false =>
    have heq : s.turn o = s := by
      unfold Server.turn
      rw [hrun]
      rfl
    rw [heq]
    exact h
  | true =>
    cases ho : o.poll with
    | none =>
      have heq : s.turn o = { s with polled := (s.maxfd + 1) :: s.polled, running := false } := by
        unfold Server.turn
        rw [hrun, ho]
        rfl
      rw [heq]
      exact ⟨h.toSlots.of_same ⟨rfl, rfl, rfl, fun _ => rfl, fun _ => rfl⟩,
        h.touched, List.forall_mem_cons.mpr ⟨h.maxfd, h.polled⟩⟩
    | some ready =>
      have hslots := h.toSlots.of_same (sameSlots_polledWith ready s)
      have hbounded := h.toBounded.polledWith h.maxfd ready
      rw [h.toSlots.turn_eq hrun ho]
      by_cases h0 : ready 0 = true
      · rw [if_pos h0]
        have hroom : ¬(s.polledWith ready).Full := by
          rw [full_polledWith]
          exact hg hrun ready ho h0
        have hacc := hslots.assign (assigns_accept hslots hroom o.accept)
        exact ⟨hacc.visitAll o.read, (hbounded.accept o.accept).visitAll hacc.maxfd o.read⟩
      · rw [if_neg h0]
        exact ⟨hslots.visitAll o.read, hbounded.visitAll hslots.maxfd o.read⟩

/-- A request to a full table raises `maxfd` to `MAX_FDS`, and the loop goes up to it. -/
theorem Inv.touches_of_full {o : Outcome} {ready : Nat → Bool} (h : s.Inv)
    (hrun : s.running = true) (ho : o.poll = some ready) (h0 : ready 0 = true) (hfull : s.Full) :
    MAX_FDS ∈ (s.turn o).touched := by
  have hslots := h.toSlots.of_same (sameSlots_polledWith ready s)
  have hmax : MAX_FDS ≤ ((s.polledWith ready).accept o.accept).maxfd := by
    have hsearch : ¬search (s.polledWith ready).fds MAX_FDS 0 < MAX_FDS := fun hlt =>
      hslots.search_lt_iff.mp hlt ((full_polledWith ready s).mpr hfull)
    rw [accept_maxfd]
    omega
  rw [h.toSlots.turn_eq hrun ho, if_pos h0, visitAll_touched]
  refine List.mem_append_left _ (List.mem_reverse.mpr (List.mem_range'_1.mpr ⟨by decide, ?_⟩))
  omega

/-- In a table in order, the slots of connections are those up to `maxfd`. -/
theorem Slots.holds_iff (h : s.Slots) {fd : Int} (hfd : 0 ≤ fd) (i : Nat) :
    s.Holds fd i ↔ s.InSlot fd i := by
  constructor
  · rintro ⟨hpos, hi, heq⟩
    exact ⟨hpos, Nat.lt_of_le_of_lt hi h.maxfd, heq⟩
  · rintro ⟨hpos, hi, heq⟩
    refine ⟨hpos, ?_, heq⟩
    by_contra hle
    have := h.free i (by omega) hi
    omega

theorem Inv.tableOk (h : s.Inv) : TableOk s where
  touched := h.touched
  polled := h.polled
  slot fd hopen := by
    simpa only [h.toSlots.holds_iff (h.opened fd hopen)] using h.slot fd hopen

end Server

open Server in
/-- The table stays in order exactly while no connection request is taken with every slot in
use. -/
theorem tableOk_iff (listenfd : Nat) (mem : Fds) (os : List Outcome) :
    (pollServer listenfd mem).EveryState os TableOk ↔
      (pollServer listenfd mem).EveryStep os NotWhileFull := by
  refine Machine.everyState_iff_guard_of (P := Inv) (fun s => Inv.tableOk)
    (Inv.new listenfd mem) (fun s o => Inv.turn) fun s o h hok hrun ready ho h0 hfull => ?_
  exact Nat.lt_irrefl _ (hok.touched _ (h.touches_of_full hrun ho h0 hfull))

/-! ## A table that fills up -/

/-- A client connects, and the others send something. -/
def request (k : Nat) : Outcome where
  poll := some (· == 0)
  accept := some (4 + k)
  read _ := 1

def requests (n : Nat) : List Outcome := (List.range n).map request

namespace Server

/-- After `n` requests, the slots up to `n` are in use. -/
structure Filled (n : Nat) (s : Server) : Prop extends s.Inv where
  running : s.running = true
  listens3 : s.listenfd = 3
  upTo : s.maxfd = n
  used : ∀ i, 1 ≤ i → i ≤ n → (s.fds i).fd = 3 + i

theorem sameSlots_visitAll_request (k : Nat) (s : Server) :
    s.SameSlots (s.visitAll (request k).read) := by
  have hvisit : ∀ (t : Server) i, t.visit (request k).read i = t.touch [i] := fun t i => by
    unfold visit request
    by_cases hneg : ((t.touch [i]).fds i).fd < 0 <;> simp [hneg]
  refine List.foldlRecOn (motive := s.SameSlots) _ _ ⟨rfl, rfl, rfl, fun _ => rfl, fun _ => rfl⟩
    fun t ht i _ => ?_
  rw [hvisit]
  exact ⟨ht.listenfd, ht.maxfd, ht.opened, ht.fd, ht.events⟩

theorem Filled.search_eq {n : Nat} (h : s.Filled n) (hn : n + 1 < MAX_FDS) :
    search s.fds MAX_FDS 0 = n + 1 := by
  have hlow : ¬search s.fds MAX_FDS 0 ≤ n := fun hle => by
    have hlt : search s.fds MAX_FDS 0 < MAX_FDS := by omega
    have hfree := @fd_search s.fds MAX_FDS 0 (by omega)
    have hfd := h.used _ (h.search_pos hlt) hle
    omega
  have hhigh : ¬n + 1 < search s.fds MAX_FDS 0 := fun hlt =>
    fd_ne_of_lt_search (Nat.zero_le _) hlt (h.free _ (by have := h.upTo; omega) hn)
  omega

theorem Filled.fresh {n : Nat} (h : s.Filled n) : s.acceptfd (some (4 + n)) = 4 + n := by
  have hnew : ¬(4 + n = s.listenfd ∨ ((4 + n : Nat) : Int) ∈ s.opened) := by
    rintro (heq | hopen)
    · have := h.listens3
      omega
    · obtain ⟨i, ⟨hi1, hi2, hi⟩, -⟩ := h.toInv.tableOk.slot _ hopen
      have hmax := h.upTo
      have := h.used i hi1 (by omega)
      omega
  unfold acceptfd
  dsimp only
  rw [if_neg hnew]
  omega

theorem Filled.of_polled {n : Nat} (h : s.Filled n) (ready : Nat → Bool) :
    (s.polledWith ready).Filled n where
  toInv := ⟨h.toSlots.of_same (sameSlots_polledWith ready s),
    h.toBounded.polledWith h.maxfd ready⟩
  running := h.running
  listens3 := h.listens3
  upTo := h.upTo
  used i hi1 hi2 := by
    rw [(sameSlots_polledWith ready s).fd]
    exact h.used i hi1 hi2

theorem Filled.request {n : Nat} (h : s.Filled n) (hn : n + 1 < MAX_FDS) :
    (s.turn (request n)).Filled (n + 1) := by
  have hroom : NotWhileFull s (Web.request n) := fun _ _ _ _ hfull => by
    have hmax := h.upTo
    exact hfull (n + 1) (by omega) hn (h.free (n + 1) (by omega) hn)
  have hinv := h.toInv.turn hroom
  have hp := h.of_polled (· == 0)
  have heq : s.turn (Web.request n) =
      ((s.polledWith (· == 0)).accept (some (4 + n))).visitAll (Web.request n).read :=
    h.toSlots.turn_eq (o := Web.request n) h.running rfl
  have hsame := sameSlots_visitAll_request n ((s.polledWith (· == 0)).accept (some (4 + n)))
  rw [heq] at hinv ⊢
  refine
    { toInv := hinv
      running := by rw [visitAll_running, accept_running]; exact hp.running
      listens3 := by rw [hsame.listenfd, accept_listenfd]; exact hp.listens3
      upTo := by
        have := hp.upTo
        rw [visitAll_maxfd, accept_maxfd, hp.search_eq hn]
        omega
      used := fun i hi1 hi2 => ?_ }
  rw [hsame.fd, accept_fds _ (by rw [hp.search_eq hn]; exact hn), hp.search_eq hn, hp.fresh]
  rcases Nat.lt_or_eq_of_le hi2 with hlt | rfl
  · rw [setFd_of_ne (Nat.ne_of_lt hlt)]
    exact hp.used i hi1 (Nat.le_of_lt_succ hlt)
  · rw [setFd_self]
    dsimp only
    omega

theorem Filled.after (mem : Fds) {n : Nat} (hn : n < MAX_FDS) :
    ((pollServer 3 mem).after (requests n)).Filled n := by
  induction n with
  | zero => exact ⟨Inv.new 3 mem, rfl, rfl, rfl, fun i hi1 hi2 => by omega⟩
  | succ n ih =>
    have hsnoc : requests (n + 1) = requests n ++ [Web.request n] := by
      unfold requests
      rw [List.range_succ, List.map_append, List.map_singleton]
    rw [hsnoc, Machine.after_snoc]
    exact (ih (Nat.lt_of_succ_lt hn)).request hn

end Server

def zeros : Fds := fun _ => ⟨0, false, false⟩

/-- 1024 clients connect, and none leaves: the last one is sent to `fds[1024]`. -/
theorem table_overflows : ¬(pollServer 3 zeros).EveryState (requests 1024) TableOk := by
  intro h
  have hsnoc : requests 1024 = requests 1023 ++ [request 1023] := by
    unfold requests
    rw [List.range_succ, List.map_append, List.map_singleton]
  have hfill := Server.Filled.after zeros (n := 1023) (by decide)
  have hfull : ((pollServer 3 zeros).after (requests 1023)).Full := fun i hi1 hi2 => by
    have := hfill.used i hi1 (Nat.le_of_lt_succ hi2)
    omega
  have htouch := hfill.toInv.touches_of_full (o := request 1023) hfill.running rfl rfl hfull
  rw [hsnoc] at h
  obtain ⟨-, hlast⟩ := Machine.everyState_snoc.mp h
  rw [next_pollServer] at hlast
  exact Nat.lt_irrefl MAX_FDS (hlast.touched MAX_FDS htouch)

end LearnNotes.Web
