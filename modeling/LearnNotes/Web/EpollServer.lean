import LearnNotes.Lib.Machine
import LearnNotes.Web.Sockets

/-!
# The event loop of `epoll_server`

`web/epoll_server.cpp` registers its connections edge-triggered: the kernel reports one once when
something happens to it, and the loop then reads until `recv` would block. One step of the machine
is what a client does, a return of `epoll_wait`, or the system call the server is at together with
the code up to the next one; clients act between any two. `descriptors_ok`: along every run the
interest list is the connections that are open, and the loop only ever handles these.
`nothing_missed`: whenever the server waits and the kernel has nothing to report, it has read all
that was sent to it and closed every connection that ended, so no wake-up is lost.

`accept` and its `epoll_ctl` are one step, and so are a `recv` and the `send` behind it, which may
raise SIGPIPE and end the server. Each turn also writes a NUL to `buf[5]`, behind the array: that
byte is taken to hold nothing the program uses. The texts of the answers are left out.
-/

namespace LearnNotes.Web.EpollServer

open Lib

def MAX_FDS : Nat := 1024
def MAXBUFF : Nat := 5

inductive ConnStatus where
  | None
  | Send
  | Close
  deriving DecidableEq

/-- The variables of the loop that reads a connection, what it has received and printed since its
event, and how often it has called `send`. -/
structure Round where
  status : ConnStatus := .None
  buf : List UInt8 := List.replicate MAXBUFF 0
  chunks : List (List UInt8) := []
  texts : List (Option (List UInt8)) := []
  sends : Nat := 0

/-- `%s`; without a NUL in the array it does not say where the text ends. -/
def text (buf : List UInt8) : Option (List UInt8) :=
  if 0 ∈ buf then some (buf.takeWhile (· ≠ 0)) else none

/-- `recv` has put `chunk` at the front of the buffer. -/
def Round.message (r : Round) (chunk : List UInt8) : Round :=
  let buf := chunk ++ r.buf.drop chunk.length
  let r := { r with buf := buf, chunks := r.chunks ++ [chunk], texts := r.texts ++ [text buf] }
  if r.status ≠ .Send then { r with status := .Send, sends := r.sends + 1 } else r

/-- The system call the server is at, with the events of the batch behind it; or how it ended, by
`exit` or by SIGPIPE. -/
inductive Pc where
  | waiting
  | accepting (rest : List Nat)
  | reading (fd : Nat) (r : Round) (rest : List Nat)
  | exited
  | killed

def Pc.Runs : Pc → Prop
  | .exited => False
  | .killed => False
  | _ => True

/-- `items` are the connections of the interest list, each with whether the kernel has something
to report; `rounds` the rounds that are over. -/
structure Server where
  lfd : Nat
  epfd : Nat
  kernel : Kernel := {}
  items : Nat → Option Bool := fun _ => none
  rounds : List Round := []
  pc : Pc := .waiting

/-- `pipe`: a `send` that may raise SIGPIPE does. -/
inductive Input where
  | peer (e : PeerEvent)
  | wait (evs : List Nat)
  | call (accepted : Option Nat) (n : Nat) (pipe : Bool)

/-- Where the `for` loop goes on. -/
def resume (lfd : Nat) : List Nat → Pc
  | [] => .waiting
  | fd :: rest => if fd = lfd then .accepting rest else .reading fd {} rest

namespace Server

/-- Something has happened to the connection. -/
def notify (c : Nat) (s : Server) : Server :=
  { s with items := fun fd =>
      if s.kernel.fds fd = some c then (s.items fd).map fun _ => true else s.items fd }

def peer (e : PeerEvent) (s : Server) : Server :=
  let s' := { s with kernel := s.kernel.peer e }
  match e.conn with
  | none => s'
  | some c => s'.notify c

/-- What `epoll_wait` may report: the listener while a client waits, and connections to which
something has happened. -/
def Reports (evs : List Nat) (s : Server) : Prop :=
  evs ≠ [] ∧ evs.length ≤ MAX_FDS ∧ evs.Nodup ∧
    ∀ fd ∈ evs, if fd = s.lfd then s.kernel.backlog ≠ [] else s.items fd = some true

instance (evs : List Nat) (s : Server) : Decidable (s.Reports evs) :=
  inferInstanceAs (Decidable (_ ∧ _ ∧ _ ∧ _))

/-- `epoll_wait(epfd, evs, MAX_FDS, -1)`: with `EPOLLET` a report is made once. -/
def deliver (evs : List Nat) (s : Server) : Server :=
  { s with
    items := fun fd => if fd ∈ evs then (s.items fd).map fun _ => false else s.items fd
    pc := resume s.lfd evs }

/-- A connection request. Where `accept` fails, `epoll_ctl` does on its -1, and `ERR` exits. What
is there to read when a connection is added is reported. -/
def accept (answer : Option Nat) (rest : List Nat) (s : Server) : Server :=
  if s.kernel.backlog = [] then s
  else
    match s.kernel.acceptfd [s.lfd, s.epfd] answer with
    | none => { s with pc := .exited }
    | some (cfd, c) =>
      { s with
        kernel := s.kernel.install cfd c
        items := Function.update s.items cfd (some (s.kernel.socks c).readable)
        pc := resume s.lfd rest }

/-- The end of the reading loop. -/
def leave (curfd : Nat) (r : Round) (rest : List Nat) (s : Server) : Server :=
  let s :=
    if r.status = .Close then
      { s with items := Function.update s.items curfd none, kernel := s.kernel.close curfd }
    else s
  { s with rounds := r :: s.rounds, pc := resume s.lfd rest }

/-- One turn of the reading loop. -/
def read (n : Nat) (pipe : Bool) (curfd : Nat) (r : Round) (rest : List Nat) (s : Server) :
    Server :=
  let s' := { s with kernel := (s.kernel.recv MAXBUFF n curfd).2 }
  match (s.kernel.recv MAXBUFF n curfd).1 with
  | .ok (b :: bs) =>
    if r.status ≠ .Send ∧ pipe ∧ s.kernel.broken curfd then { s' with pc := .killed }
    else { s' with pc := .reading curfd (r.message (b :: bs)) rest }
  | .ok [] => s'.leave curfd { r with status := .Close } rest
  | .error .ECONNRESET => s'.leave curfd { r with status := .Close } rest
  | .error .EAGAIN => s'.leave curfd r rest
  | .error _ => s'.leave curfd { r with status := .Close } rest

def turn (s : Server) : Input → Server
  | .peer e => s.peer e
  | .wait evs =>
    match s.pc with
    | .waiting => if s.Reports evs then s.deliver evs else s
    | _ => s
  | .call answer n pipe =>
    match s.pc with
    | .accepting rest => s.accept answer rest
    | .reading fd r rest => s.read n pipe fd r rest
    | _ => s

end Server

/-- `main` after its sockets are set up. -/
def epollServer (lfd epfd : Nat) : Machine Server Input Unit where
  init := { lfd := lfd, epfd := epfd }
  step s i := ((), s.turn i)

theorem next_epollServer (lfd epfd : Nat) (s : Server) (i : Input) :
    (epollServer lfd epfd).next s i = s.turn i := rfl

/-! ## The invariant -/

/-- The events that are still to be handled, the one at hand first. -/
def Pc.events (lfd : Nat) : Pc → List Nat
  | .waiting => []
  | .accepting rest => lfd :: rest
  | .reading fd _ rest => fd :: rest
  | .exited => []
  | .killed => []

theorem events_resume (lfd : Nat) (evs : List Nat) : (resume lfd evs).events lfd = evs := by
  cases evs with
  | nil => rfl
  | cons fd rest =>
    rw [resume]
    split
    · next h => rw [h]; rfl
    · rfl

/-- The loop reads connections, not the listener. -/
theorem reads_of_resume {lfd fd : Nat} {r : Round} {evs rest : List Nat}
    (h : resume lfd evs = .reading fd r rest) : fd ≠ lfd ∧ r.status ≠ .Close := by
  cases evs with
  | nil => cases h
  | cons fd' rest' =>
    rw [resume] at h
    split at h
    · cases h
    · next hne =>
      cases h
      exact ⟨hne, ConnStatus.noConfusion⟩

namespace Server

def events (s : Server) : List Nat := s.pc.events s.lfd

/-- The invariant. `seen` is why no wake-up is lost: where something is to be read, the kernel
still reports it or the loop still gets there. -/
structure Inv (s : Server) : Prop where
  kernel : s.kernel.Ok [s.lfd, s.epfd]
  items : ∀ fd, (s.items fd).isSome = (s.kernel.fds fd).isSome
  once : s.events.Nodup
  named : ∀ fd ∈ s.events, fd ≠ s.lfd → (s.kernel.fds fd).isSome
  queue : s.lfd ∈ s.events → s.kernel.backlog ≠ []
  reads : ∀ fd r rest, s.pc = .reading fd r rest → fd ≠ s.lfd ∧ r.status ≠ .Close
  seen : s.pc.Runs → ∀ fd c, s.kernel.fds fd = some c → (s.kernel.socks c).readable →
    s.items fd = some true ∨ fd ∈ s.events
  closed : s.kernel.ClosedAtEnd

theorem Inv.init (lfd epfd : Nat) : ({ lfd := lfd, epfd := epfd } : Server).Inv where
  kernel := Kernel.Ok.init _
  items _ := rfl
  once := List.nodup_nil
  named _ := by rintro ⟨⟩
  queue := by rintro ⟨⟩
  reads _ _ _ := by rintro ⟨⟩
  seen _ _ _ := by rintro ⟨⟩
  closed := Kernel.ClosedAtEnd.init

variable {s : Server} {c n fd : Nat} {evs rest : List Nat} {r : Round} {answer : Option Nat}

/-! ## The clients -/

theorem isSome_notify (c fd : Nat) (s : Server) :
    ((s.notify c).items fd).isSome = (s.items fd).isSome := by
  unfold notify
  dsimp only
  split
  · rw [Option.isSome_map]
  · rfl

theorem notify_of_open (hfd : s.kernel.fds fd = some c) (h : (s.items fd).isSome) :
    (s.notify c).items fd = some true := by
  unfold notify
  dsimp only
  obtain ⟨b, hb⟩ := Option.isSome_iff_exists.mp h
  rw [if_pos hfd, hb]
  rfl

theorem notify_cases (c fd : Nat) (s : Server) :
    (s.notify c).items fd = s.items fd ∨
      s.kernel.fds fd = some c ∧ (s.notify c).items fd = (s.items fd).map fun _ => true := by
  by_cases hfd : s.kernel.fds fd = some c
  · exact .inr ⟨hfd, if_pos hfd⟩
  · exact .inl (if_neg hfd)

/-- A connection that was to be reported, or that something happens to, is to be reported. -/
theorem items_peer_of_true {e : PeerEvent} (h : s.items fd = some true) :
    (s.peer e).items fd = some true := by
  unfold Server.peer
  dsimp only
  split
  · exact h
  · next c hconn =>
    rcases notify_cases c fd { s with kernel := s.kernel.peer e } with heq | ⟨-, heq⟩
    · rw [heq]
      exact h
    · rw [heq]
      exact congrArg (Option.map fun _ => true) h

theorem items_peer_of_conn {e : PeerEvent} (hconn : e.conn = some c)
    (hfd : s.kernel.fds fd = some c) (h : (s.items fd).isSome) :
    (s.peer e).items fd = some true := by
  unfold Server.peer
  dsimp only
  rw [hconn]
  refine notify_of_open ?_ h
  dsimp only
  rw [Kernel.fds_peer]
  exact hfd

theorem peer_fields (e : PeerEvent) (s : Server) :
    (s.peer e).kernel = s.kernel.peer e ∧ (s.peer e).pc = s.pc ∧ (s.peer e).lfd = s.lfd ∧
      (s.peer e).epfd = s.epfd ∧ (s.peer e).rounds = s.rounds ∧
      ∀ fd, ((s.peer e).items fd).isSome = (s.items fd).isSome := by
  unfold Server.peer
  dsimp only
  split
  · exact ⟨rfl, rfl, rfl, rfl, rfl, fun _ => rfl⟩
  · next c _ => exact ⟨rfl, rfl, rfl, rfl, rfl, fun fd => isSome_notify c fd _⟩

theorem Inv.peer (h : s.Inv) (e : PeerEvent) : (s.peer e).Inv := by
  obtain ⟨hkernel, hpc, hlfd, hepfd, -, hitems⟩ := peer_fields e s
  have hevents : (s.peer e).events = s.events := by rw [events, events, hpc, hlfd]
  have hfds : (s.peer e).kernel.fds = s.kernel.fds := by rw [hkernel, Kernel.fds_peer]
  exact
    { kernel := by rw [hkernel, hlfd, hepfd]; exact h.kernel.peer e
      items := fun fd => by rw [hitems, hfds]; exact h.items fd
      once := by rw [hevents]; exact h.once
      named := by rw [hevents, hlfd, hfds]; exact h.named
      queue := by
        rw [hevents, hlfd, hkernel]
        exact fun hl => Kernel.backlog_peer e (h.queue hl)
      reads := by rw [hpc, hlfd]; exact h.reads
      seen := fun hrun fd c hfd hread => by
        rw [hpc] at hrun
        rw [hfds] at hfd
        rw [hkernel] at hread
        rw [hevents]
        by_cases hconn : e.conn = some c
        · refine .inl (items_peer_of_conn hconn hfd ?_)
          rw [h.items fd]
          exact Option.isSome_of_eq_some hfd
        · rw [Kernel.socks_peer_of_ne hconn] at hread
          exact (h.seen hrun fd c hfd hread).imp_left items_peer_of_true
      closed := by rw [hkernel]; exact h.closed.peer e }

/-! ## The batch -/

theorem Inv.deliver (h : s.Inv) (hpc : s.pc = .waiting) (hevs : s.Reports evs) :
    (s.deliver evs).Inv := by
  obtain ⟨-, -, hnodup, hready⟩ := hevs
  have hevents : (s.deliver evs).events = evs := events_resume s.lfd evs
  exact
    { kernel := h.kernel
      items := fun fd => by
        have hkeep : ((s.deliver evs).items fd).isSome = (s.items fd).isSome := by
          unfold Server.deliver
          dsimp only
          split
          · rw [Option.isSome_map]
          · rfl
        exact hkeep.trans (h.items fd)
      once := by rwa [hevents]
      named := fun fd hfd (hne : fd ≠ s.lfd) => by
        rw [hevents] at hfd
        have hitem := hready fd hfd
        rw [if_neg hne] at hitem
        have hopen := h.items fd
        rw [hitem] at hopen
        exact hopen.symm
      queue := fun (hl : s.lfd ∈ (s.deliver evs).events) => by
        rw [hevents] at hl
        have hwait := hready s.lfd hl
        rwa [if_pos rfl] at hwait
      reads := fun fd r rest hfd => reads_of_resume hfd
      seen := fun _ fd c hfd hread => by
        rw [hevents]
        have hrun : s.pc.Runs := by
          rw [hpc]
          trivial
        by_cases hmem : fd ∈ evs
        · exact .inr hmem
        · rcases h.seen hrun fd c hfd hread with hitem | hin
          · exact .inl ((if_neg hmem).trans hitem)
          · rw [events, hpc] at hin
            cases hin
      closed := h.closed }

/-! ## Connection requests -/

theorem events_of_stopped {pc : Pc} (hpc : ¬ pc.Runs) (lfd : Nat) : pc.events lfd = [] := by
  cases pc with
  | exited => rfl
  | killed => rfl
  | waiting => exact absurd trivial hpc
  | accepting rest => exact absurd trivial hpc
  | reading fd r rest => exact absurd trivial hpc

/-- The server ends. -/
theorem Inv.stop (h : s.Inv) {pc : Pc} (hpc : ¬ pc.Runs) : ({ s with pc := pc } : Server).Inv := by
  have hevents : ({ s with pc := pc } : Server).events = [] := events_of_stopped hpc s.lfd
  exact
    { kernel := h.kernel
      items := h.items
      once := by rw [hevents]; exact List.nodup_nil
      named := by rw [hevents]; rintro _ ⟨⟩
      queue := by rw [hevents]; rintro ⟨⟩
      reads := fun fd r rest heq => absurd (by rw [show pc = _ from heq]; trivial) hpc
      seen := fun hrun => absurd hrun hpc
      closed := h.closed }


/-- An event at hand is not the new connection. -/
theorem Inv.event_ne (h : s.Inv)
    (hacc : s.kernel.acceptfd [s.lfd, s.epfd] answer = some (cfd, c)) (hmem : fd ∈ s.events) :
    fd ≠ cfd := by
  obtain ⟨-, -, hused, hfree⟩ := Kernel.acceptfd_eq_some hacc
  by_cases hl : fd = s.lfd
  · rintro rfl
    exact hused (hl ▸ List.mem_cons_self)
  · exact Kernel.ne_of_isSome hfree (h.named fd hmem hl)

theorem Inv.accept (h : s.Inv) (hpc : s.pc = .accepting rest) (answer : Option Nat) :
    (s.accept answer rest).Inv := by
  have hold : s.events = s.lfd :: rest := by rw [events, hpc]; rfl
  have hrun : s.pc.Runs := by
    rw [hpc]
    trivial
  have hnodup := h.once
  rw [hold, List.nodup_cons] at hnodup
  unfold Server.accept
  by_cases hback : s.kernel.backlog = []
  · rw [if_pos hback]
    exact h
  rw [if_neg hback]
  rcases hacc : s.kernel.acceptfd [s.lfd, s.epfd] answer with _ | ⟨cfd, c⟩
  · exact h.stop id
  have hevents : Server.events { s with
      kernel := s.kernel.install cfd c
      items := Function.update s.items cfd (some (s.kernel.socks c).readable)
      pc := resume s.lfd rest } = rest := events_resume s.lfd rest
  exact
    { kernel := h.kernel.install hacc
      items := fun fd => by
        dsimp only
        by_cases hfd : fd = cfd
        · rw [hfd, Function.update_self, Kernel.fds_install_self]
          rfl
        · rw [Function.update_of_ne hfd, Kernel.fds_install_of_ne hfd]
          exact h.items fd
      once := by rw [hevents]; exact hnodup.2
      named := fun fd hfd hne => by
        rw [hevents] at hfd
        have hmem : fd ∈ s.events := hold ▸ List.mem_cons_of_mem _ hfd
        rw [Kernel.fds_install_of_ne (h.event_ne hacc hmem)]
        exact h.named fd hmem hne
      queue := fun hl => by
        rw [hevents] at hl
        exact absurd hl hnodup.1
      reads := fun fd r rest' hfd => reads_of_resume hfd
      seen := fun _ fd c' hfd hread => by
        rw [hevents]
        dsimp only
        rcases Kernel.fds_install_eq_some hfd with ⟨rfl, rfl⟩ | ⟨hne, hopen⟩
        · left
          rw [Function.update_self]
          exact congrArg some hread
        · rw [Function.update_of_ne hne]
          rcases h.seen hrun fd c' hopen hread with hitem | hin
          · exact .inl hitem
          · rw [hold] at hin
            rcases List.mem_cons.mp hin with rfl | hin
            · have hlfd := h.kernel.unused s.lfd List.mem_cons_self
              rw [hopen] at hlfd
              cases hlfd
            · exact .inr hin
      closed := h.closed.install h.kernel hacc }

/-! ## Reading -/

theorem message_status (r : Round) (chunk : List UInt8) : (r.message chunk).status = .Send := by
  unfold Round.message
  dsimp only
  split
  · rfl
  · next h => exact not_not.mp h

/-- What one turn of the reading loop comes to: a chunk of the stream, with or without SIGPIPE for
the answer, the end of what there is, or the end of the stream. -/
theorem read_cases (hfd : s.kernel.fds fd = some c) (hwhole : (s.kernel.socks c).Whole) (n : Nat)
    (pipe : Bool) (r : Round) (rest : List Nat) :
    (∃ chunk k, (s.kernel.socks c).unread = chunk ++ k.unread ∧ 0 < chunk.length ∧
      chunk.length ≤ MAXBUFF ∧ k.ended = (s.kernel.socks c).ended ∧
      k = ((s.kernel.socks c).recv MAXBUFF n).2 ∧
      (s.read n pipe fd r rest =
          { s with kernel := s.kernel.setSock c k, pc := .reading fd (r.message chunk) rest } ∨
        k.ended ≠ none ∧
          s.read n pipe fd r rest = { s with kernel := s.kernel.setSock c k, pc := .killed })) ∨
    (s.kernel.socks c).unread = [] ∧ (s.kernel.socks c).ended = none ∧
      s.read n pipe fd r rest = s.leave fd r rest ∨
    ∃ k, k.Whole ∧ k.unread = [] ∧ k.ended ≠ none ∧
      k.sent = (s.kernel.socks c).sent ∧ (s.kernel.socks c).unread = [] ∧
      s.read n pipe fd r rest =
        Server.leave fd { r with status := .Close } rest
          { s with kernel := s.kernel.setSock c k, pc := .reading fd r rest } := by
  have hrecv := Kernel.recv_of_open MAXBUFF n hfd
  by_cases hread : (s.kernel.socks c).unread = []
  · right
    rw [Sock.recv_of_read MAXBUFF n hread] at hrecv
    unfold Server.read
    rw [hrecv]
    dsimp only
    rcases hend : (s.kernel.socks c).ended with _ | e
    · have hsame : s.kernel.setSock c (s.kernel.socks c) = s.kernel := by
        unfold Kernel.setSock
        rw [Function.update_eq_self]
      rw [Sock.reported_of_open hend, hsame, Sock.atEnd, hend]
      exact .inl ⟨hread, rfl, rfl⟩
    · have hsome : (s.kernel.socks c).reported.ended ≠ none :=
        Sock.reported_ended.mpr (by rw [hend]; exact Option.some_ne_none e)
      refine .inr ⟨(s.kernel.socks c).reported, hwhole, hread, hsome, rfl, hread, ?_⟩
      generalize (s.kernel.socks c).reported = k
      rw [Sock.atEnd, hend]
      cases e <;> rfl
  · left
    have hlen := Sock.length_chunk n (by decide : 0 < MAXBUFF) hread
    have hsock := Sock.recv_of_unread MAXBUFF n hread
    refine ⟨_, _, ?_, hlen.1, hlen.2, ?_, rfl, ?_⟩
    · rw [hsock]
      exact (List.take_append_drop ..).symm
    · rw [hsock]
    · unfold Server.read
      rw [hrecv, hsock]
      dsimp only
      generalize (s.kernel.socks c).unread.take _ = chunk at hlen
      cases chunk with
      | nil => exact absurd hlen.1 (Nat.lt_irrefl 0)
      | cons b bs =>
        dsimp only
        split
        · next hpipe => exact .inr ⟨(Kernel.broken_of_open hfd).mp hpipe.2.2, rfl⟩
        · exact .inl rfl

/-- The connection that is read is open. -/
theorem Inv.opened (h : s.Inv) (hpc : s.pc = .reading fd r rest) :
    ∃ c, s.kernel.fds fd = some c := by
  have hmem : fd ∈ s.events := by
    rw [events, hpc]
    exact List.mem_cons_self
  exact Option.isSome_iff_exists.mp (h.named fd hmem (h.reads fd r rest hpc).1)

/-- A chunk is taken off the connection at hand. -/
theorem Inv.chunk (h : s.Inv) (hpc : s.pc = .reading fd r rest) (hfd : s.kernel.fds fd = some c)
    {k : Sock} (hk : k.Whole) {r' : Round} (hr' : r'.status ≠ .Close) :
    ({ s with kernel := s.kernel.setSock c k, pc := .reading fd r' rest } : Server).Inv := by
  have hold : s.events = fd :: rest := by rw [events, hpc]; rfl
  have hrun : s.pc.Runs := by
    rw [hpc]
    trivial
  exact
    { kernel := h.kernel.setSock (h.kernel.opened fd c hfd).1 hk
      items := h.items
      once := by
        have hnodup := h.once
        rw [hold] at hnodup
        exact hnodup
      named := fun fd' hfd' hne => h.named fd' (hold ▸ hfd') hne
      queue := fun hl => h.queue (hold ▸ hl)
      reads := fun fd' r'' rest' heq => by
        cases heq
        exact ⟨(h.reads fd r rest hpc).1, hr'⟩
      seen := fun _ fd' c' hfd' hread => by
        by_cases hcc : c' = c
        · rw [h.kernel.inj fd' fd c (hcc ▸ hfd') hfd]
          exact .inr List.mem_cons_self
        · have hread' : ((s.kernel.setSock c k).socks c').readable = true := hread
          rw [Kernel.setSock_of_ne hcc] at hread'
          rcases h.seen hrun fd' c' hfd' hread' with hitem | hin
          · exact .inl hitem
          · rw [hold] at hin
            exact .inr hin
      closed := h.closed.setSock hfd k }

theorem leave_of_open (hr : r.status ≠ .Close) :
    s.leave fd r rest = { s with rounds := r :: s.rounds, pc := resume s.lfd rest } := by
  rw [leave, if_neg hr]

theorem leave_of_Close (hr : r.status = .Close) :
    s.leave fd r rest =
      { s with
        items := Function.update s.items fd none
        kernel := s.kernel.close fd
        rounds := r :: s.rounds
        pc := resume s.lfd rest } := by
  rw [leave, if_pos hr]

/-- The loop has read all there is. -/
theorem Inv.leave_open (h : s.Inv) (hpc : s.pc = .reading fd r rest)
    (hfd : s.kernel.fds fd = some c) (hread : (s.kernel.socks c).readable = false) :
    (s.leave fd r rest).Inv := by
  have hold : s.events = fd :: rest := by rw [events, hpc]; rfl
  have hrun : s.pc.Runs := by
    rw [hpc]
    trivial
  have hnodup := h.once
  rw [hold, List.nodup_cons] at hnodup
  have hevents : Server.events { s with rounds := r :: s.rounds, pc := resume s.lfd rest } = rest :=
    events_resume s.lfd rest
  rw [leave_of_open (h.reads fd r rest hpc).2]
  exact
    { kernel := h.kernel
      items := h.items
      once := by rw [hevents]; exact hnodup.2
      named := fun fd' hfd' hne => by
        rw [hevents] at hfd'
        exact h.named fd' (hold ▸ List.mem_cons_of_mem _ hfd') hne
      queue := fun hl => by
        rw [hevents] at hl
        exact h.queue (hold ▸ List.mem_cons_of_mem _ hl)
      reads := fun fd' r' rest' heq => reads_of_resume heq
      seen := fun _ fd' c' hfd' hread' => by
        rw [hevents]
        rcases h.seen hrun fd' c' hfd' hread' with hitem | hin
        · exact .inl hitem
        · rw [hold] at hin
          rcases List.mem_cons.mp hin with rfl | hin
          · obtain rfl : c = c' := Option.some.inj (hfd.symm.trans hfd')
            exact absurd hread' (by rw [hread]; exact Bool.false_ne_true)
          · exact .inr hin
      closed := h.closed }

/-- A connection that has ended is taken off the list and closed. -/
theorem Inv.leave_closed (h : s.Inv) (hpc : s.pc = .reading fd r rest)
    (hfd : s.kernel.fds fd = some c) (hread : (s.kernel.socks c).unread = [])
    (hend : (s.kernel.socks c).ended ≠ none) :
    (s.leave fd { r with status := .Close } rest).Inv := by
  have hold : s.events = fd :: rest := by rw [events, hpc]; rfl
  have hrun : s.pc.Runs := by
    rw [hpc]
    trivial
  have hnodup := h.once
  rw [hold, List.nodup_cons] at hnodup
  rw [leave_of_Close rfl]
  set r' : Round := { r with status := .Close }
  have hevents : Server.events { s with
      items := Function.update s.items fd none
      kernel := s.kernel.close fd
      rounds := r' :: s.rounds
      pc := resume s.lfd rest } = rest := events_resume s.lfd rest
  exact
    { kernel := h.kernel.close fd
      items := fun fd' => by
        dsimp only
        by_cases heq : fd' = fd
        · rw [heq, Function.update_self, Kernel.fds_close_self]
          rfl
        · rw [Function.update_of_ne heq, Kernel.fds_close_of_ne heq]
          exact h.items fd'
      once := by rw [hevents]; exact hnodup.2
      named := fun fd' hfd' hne => by
        rw [hevents] at hfd'
        have hfdne : fd' ≠ fd := fun heq => hnodup.1 (heq ▸ hfd')
        rw [Kernel.fds_close_of_ne hfdne]
        exact h.named fd' (hold ▸ List.mem_cons_of_mem _ hfd') hne
      queue := fun hl => by
        rw [hevents] at hl
        exact h.queue (hold ▸ List.mem_cons_of_mem _ hl)
      reads := fun fd' r' rest' heq => reads_of_resume heq
      seen := fun _ fd' c' hfd' hread' => by
        obtain ⟨hne, hfd'⟩ := Kernel.fds_close_eq_some.mp hfd'
        rw [hevents]
        dsimp only
        rw [Function.update_of_ne hne]
        rcases h.seen hrun fd' c' hfd' hread' with hitem | hin
        · exact .inl hitem
        · rw [hold] at hin
          exact .inr ((List.mem_cons.mp hin).resolve_left hne)
      closed := h.closed.close hfd hread hend }

theorem Inv.read (h : s.Inv) (hpc : s.pc = .reading fd r rest) (n : Nat) (pipe : Bool) :
    (s.read n pipe fd r rest).Inv := by
  obtain ⟨c, hfd⟩ := h.opened hpc
  have hwhole := h.kernel.whole c
  rcases read_cases hfd hwhole n pipe r rest with
    ⟨chunk, k, -, -, -, -, hk, heq⟩ | ⟨hread, hend, heq⟩ | ⟨k, hk, hread, hend, -, -, heq⟩
  · have hsent : (r.message chunk).status ≠ .Close := by
      rw [message_status]
      exact ConnStatus.noConfusion
    have hmid := h.chunk hpc hfd (hk ▸ hwhole.recv) hsent
    rcases heq with heq | ⟨-, heq⟩
    · rw [heq]
      exact hmid
    · rw [heq]
      exact hmid.stop id
  · rw [heq]
    exact h.leave_open hpc hfd (Sock.not_readable_iff.mpr ⟨hread, hend⟩)
  · have hmid := h.chunk hpc hfd hk (h.reads fd r rest hpc).2
    rw [← Kernel.setSock_self (k := s.kernel) (c := c) k] at hread hend
    rw [heq]
    exact hmid.leave_closed rfl hfd hread hend

theorem Inv.turn (h : s.Inv) (i : Input) : (s.turn i).Inv := by
  cases i with
  | peer e => exact h.peer e
  | wait evs =>
    unfold Server.turn
    dsimp only
    split
    · next hpc =>
      split
      · next hevs => exact h.deliver hpc hevs
      · exact h
    · exact h
  | call answer n pipe =>
    unfold Server.turn
    dsimp only
    split
    · next rest hpc => exact h.accept hpc answer
    · next fd r rest hpc => exact h.read hpc n pipe
    · exact h

end Server

theorem inv_after (lfd epfd : Nat) (is : List Input) :
    (epollServer lfd epfd).EveryState is Server.Inv :=
  Machine.everyState_of_step (Server.Inv.init lfd epfd) fun _ i h => h.turn i

/-! ## Descriptors -/

/-- The interest list is the connections that are open, a connection has one descriptor, and the
loop is at the listener while a client waits or at a connection that is open, each of them once
in a batch. -/
structure Server.Disciplined (s : Server) : Prop where
  registered : ∀ fd, (s.items fd).isSome = (s.kernel.fds fd).isSome
  single : ∀ fd fd' c, s.kernel.fds fd = some c → s.kernel.fds fd' = some c → fd = fd'
  listener : s.kernel.fds s.lfd = none ∧ s.kernel.fds s.epfd = none
  accepts : ∀ rest, s.pc = .accepting rest → s.kernel.backlog ≠ []
  reads : ∀ fd r rest, s.pc = .reading fd r rest → (s.kernel.fds fd).isSome ∧ fd ∉ rest
  batch : ∀ fd ∈ s.events, fd = s.lfd ∨ (s.kernel.fds fd).isSome

theorem Server.Inv.disciplined {s : Server} (h : s.Inv) : s.Disciplined where
  registered := h.items
  single := h.kernel.inj
  listener := ⟨h.kernel.unused _ List.mem_cons_self,
    h.kernel.unused _ (List.mem_cons_of_mem _ List.mem_cons_self)⟩
  accepts rest hpc := by
    apply h.queue
    rw [events, hpc]
    exact List.mem_cons_self
  reads fd r rest hpc := by
    obtain ⟨c, hfd⟩ := h.opened hpc
    have hnodup := h.once
    rw [events, hpc] at hnodup
    exact ⟨Option.isSome_of_eq_some hfd, (List.nodup_cons.mp hnodup).1⟩
  batch fd hfd := by
    by_cases hl : fd = s.lfd
    · exact .inl hl
    · exact .inr (h.named fd hfd hl)

/-- **Descriptors**, along every run. -/
theorem descriptors_ok (lfd epfd : Nat) (is : List Input) :
    (epollServer lfd epfd).EveryState is Server.Disciplined :=
  fun pre hpre => (inv_after lfd epfd is pre hpre).disciplined

/-! ## Wake-ups -/

/-- The server is in `epoll_wait`, and there is nothing to report. -/
def Server.Idle (s : Server) : Prop :=
  s.pc = .waiting ∧ s.kernel.backlog = [] ∧ ∀ fd, s.items fd ≠ some true

/-- What each client has sent has been received in its order, and while the server is idle nothing
is missing and no connection that has ended is open. -/
structure Server.Attentive (s : Server) : Prop where
  ordered : ∀ c, (s.kernel.socks c).received <+: (s.kernel.socks c).sent
  attended : s.Idle → s.kernel.Attended

/-- Where nothing is reported, nothing is unread. -/
theorem Server.Inv.not_readable {s : Server} (h : s.Inv) (hidle : s.Idle) {fd c : Nat}
    (hfd : s.kernel.fds fd = some c) : (s.kernel.socks c).readable = false := by
  obtain ⟨hpc, -, hitems⟩ := hidle
  have hrun : s.pc.Runs := by
    rw [hpc]
    trivial
  rw [← Bool.not_eq_true]
  intro hread
  rcases h.seen hrun fd c hfd hread with hitem | hin
  · exact hitems fd hitem
  · rw [events, hpc] at hin
    cases hin

theorem Server.Inv.attentive {s : Server} (h : s.Inv) : s.Attentive where
  ordered c := ⟨_, h.kernel.whole c⟩
  attended hidle :=
    h.kernel.attended h.closed hidle.2.1 fun _ _ hfd => h.not_readable hidle hfd

/-- **No wake-up is lost**, whatever the clients do in between. -/
theorem nothing_missed (lfd epfd : Nat) (is : List Input) :
    (epollServer lfd epfd).EveryState is Server.Attentive :=
  fun pre hpre => (inv_after lfd epfd is pre hpre).attentive

end LearnNotes.Web.EpollServer
