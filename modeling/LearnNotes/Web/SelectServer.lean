import LearnNotes.Lib.Machine
import LearnNotes.Web.Sockets

/-!
# The descriptor set of `select_server`

`web/select_server.cpp` keeps its sockets in `rdset`, has `select` mark those that are ready in a
copy, and takes a connection request and then one read of each marked connection. As in
`epoll_server` a step is what a client does or the system call the server is at, a read with the
`write` behind it, which may raise SIGPIPE and end the server.

Two things leave the program to the compiler. `accept` is not checked before `FD_SET`; and each
message is answered with the 26 bytes of `ctime` in a `sendbuf` of 20, so that it takes 6 bytes of
`slack`, bytes behind `sendbuf` that nothing else uses, to go on. `orderly_iff`: the set is the open
sockets along a run exactly while every `accept` gives a descriptor that an `fd_set` has a bit for
and, without the 6 bytes, no message is read. `never_blocks`: until then, while `select` does not
fail, no `accept` and no `read` has to wait, although all the sockets block; a `write` waits for a
client that does not read its answers. What is printed is left out, with what `printf` reads behind
a `buf` that a message has filled, and so are the texts of the answers.
-/

namespace LearnNotes.Web.SelectServer

open Lib

def MAXBUFF : Nat := 5
def FD_SETSIZE : Nat := 1024

/-- The size of `sendbuf`. -/
def SENDBUF : Nat := 20

/-- What `strcpy` copies of `ctime`, the NUL included. -/
def CTIME : Nat := 26

/-- `fd_set`. -/
abbrev FdSet := Nat → Bool

/-- `FD_SET` and `FD_CLR`. -/
def put (fd : Nat) (on : Bool) (set : FdSet) : FdSet := Function.update set fd on

/-- The system call the server is at, with `rdtmp` and the loop's index; `damaged` once `FD_SET`
has left the set or an answer has overwritten what lies behind `sendbuf`, `killed` by SIGPIPE. -/
inductive Pc where
  | selecting
  | accepting (rdtmp : FdSet)
  | visiting (i : Nat) (rdtmp : FdSet)
  | damaged
  | killed

/-- `for(; i < maxfd + 1; ++i) if(i != listenfd && FD_ISSET(i, &rdtmp))`, with `left` turns to
go. -/
def next (listenfd : Nat) (rdtmp : FdSet) : (left : Nat) → (i : Nat) → Pc
  | 0, _ => .selecting
  | left + 1, i =>
    if i ≠ listenfd ∧ rdtmp i then .visiting i rdtmp else next listenfd rdtmp left (i + 1)

/-- The rest of the loop from `i` on. -/
def goOn (listenfd maxfd : Nat) (rdtmp : FdSet) (i : Nat) : Pc :=
  next listenfd rdtmp (maxfd + 1 - i) i

/-- `slack` is how many bytes behind `sendbuf` nothing else uses. -/
structure Server where
  listenfd : Nat
  slack : Nat
  kernel : Kernel := {}
  rdset : FdSet
  maxfd : Nat
  pc : Pc := .selecting

/-- `pipe`: a `write` that may raise SIGPIPE does. -/
inductive Input where
  | peer (e : PeerEvent)
  | select (ok : Bool)
  | call (accepted : Option Nat) (n : Nat) (pipe : Bool)

namespace Server

def new (listenfd slack : Nat) : Server where
  listenfd := listenfd
  slack := slack
  rdset := put listenfd true fun _ => false
  maxfd := listenfd

/-- What is to be read from a socket, or a client that waits. -/
def ready (s : Server) (fd : Nat) : Bool :=
  if fd = s.listenfd then !s.kernel.backlog.isEmpty
  else
    match s.kernel.fds fd with
    | none => false
    | some c => (s.kernel.socks c).readable

/-- `select(maxfd + 1, &rdtmp, NULL, NULL, NULL)` and the test of the listener. A call that fails
leaves the set as it is; one with nothing to mark waits. -/
def select (ok : Bool) (s : Server) : Server :=
  let rdtmp : FdSet := fun fd =>
    if ok then decide (fd < s.maxfd + 1) && s.rdset fd && s.ready fd else s.rdset fd
  if ok && (List.range (s.maxfd + 1)).all (fun fd => !rdtmp fd) then s
  else
    { s with
      pc := if rdtmp s.listenfd then .accepting rdtmp else goOn s.listenfd s.maxfd rdtmp 0 }

/-- A connection request; `FD_SET` of a descriptor beyond the set, or of the -1 of a call that
fails, is undefined. -/
def accept (answer : Option Nat) (rdtmp : FdSet) (s : Server) : Server :=
  if s.kernel.backlog = [] then s
  else
    match s.kernel.acceptfd [s.listenfd] answer with
    | none => { s with pc := .damaged }
    | some (acceptfd, c) =>
      let s := { s with kernel := s.kernel.install acceptfd c }
      if acceptfd < FD_SETSIZE then
        let s := { s with
          rdset := put acceptfd true s.rdset
          maxfd := if acceptfd > s.maxfd then acceptfd else s.maxfd }
        { s with pc := goOn s.listenfd s.maxfd rdtmp 0 }
      else { s with pc := .damaged }

/-- The answer fits `sendbuf` and what nothing else uses. -/
def Roomy (s : Server) : Prop := CTIME ≤ SENDBUF + s.slack

instance (s : Server) : Decidable s.Roomy := inferInstanceAs (Decidable (_ ≤ _))

/-- One read; a socket with nothing to give waits. -/
def read (n : Nat) (pipe : Bool) (i : Nat) (rdtmp : FdSet) (s : Server) : Server :=
  let s' := { s with kernel := (s.kernel.recv MAXBUFF n i).2 }
  match (s.kernel.recv MAXBUFF n i).1 with
  | .ok (_ :: _) =>
    if ¬ s.Roomy then { s' with pc := .damaged }
    else if pipe ∧ s.kernel.broken i then { s' with pc := .killed }
    else { s' with pc := goOn s.listenfd s.maxfd rdtmp (i + 1) }
  | .ok [] =>
    { s' with
      rdset := put i false s.rdset
      kernel := s'.kernel.close i
      pc := goOn s.listenfd s.maxfd rdtmp (i + 1) }
  | .error .EAGAIN => s
  | .error _ => { s' with pc := goOn s.listenfd s.maxfd rdtmp (i + 1) }

def turn (s : Server) : Input → Server
  | .peer e => { s with kernel := s.kernel.peer e }
  | .select ok =>
    match s.pc with
    | .selecting => s.select ok
    | _ => s
  | .call answer n pipe =>
    match s.pc with
    | .accepting rdtmp => s.accept answer rdtmp
    | .visiting i rdtmp => s.read n pipe i rdtmp
    | _ => s

end Server

/-- `main` after its socket is set up. -/
def selectServer (listenfd slack : Nat) : Machine Server Input Unit where
  init := .new listenfd slack
  step s i := ((), s.turn i)

namespace Server

/-- The set is the listener and the open connections, within an `fd_set` and up to `maxfd`, and
nothing else is read. -/
structure Orderly (s : Server) : Prop where
  sound : s.pc ≠ .damaged
  set : ∀ fd, s.rdset fd = true ↔ fd = s.listenfd ∨ (s.kernel.fds fd).isSome
  bound : ∀ fd, s.rdset fd = true → fd ≤ s.maxfd ∧ fd < FD_SETSIZE
  reads : ∀ i rdtmp, s.pc = .visiting i rdtmp → (s.kernel.fds i).isSome

/-- Where a client waits, `accept` gives a descriptor that the set has a bit for. -/
def InRange (s : Server) : Input → Prop
  | .call answer _ _ => ∀ rdtmp, s.pc = .accepting rdtmp → s.kernel.backlog ≠ [] →
      ∃ fd c, s.kernel.acceptfd [s.listenfd] answer = some (fd, c) ∧ fd < FD_SETSIZE
  | _ => True

/-- A message is read only where there is room for the answer. -/
def Answerable (s : Server) : Input → Prop
  | .call _ _ _ => ∀ i rdtmp c, s.pc = .visiting i rdtmp → s.kernel.fds i = some c →
      (s.kernel.socks c).unread ≠ [] → s.Roomy
  | _ => True

end Server

/-! ## The loop over the set -/

variable {listenfd maxfd : Nat} {rdtmp rdtmp' : FdSet} {i j fd : Nat}

/-- Where the loop goes on: at the end, or at the next marked connection. -/
theorem next_cases (listenfd : Nat) (rdtmp : FdSet) (left i : Nat) :
    next listenfd rdtmp left i = .selecting ∨
      ∃ j, i ≤ j ∧ j ≠ listenfd ∧ rdtmp j = true ∧
        next listenfd rdtmp left i = .visiting j rdtmp := by
  induction left generalizing i with
  | zero => exact .inl rfl
  | succ left ih =>
    rw [next]
    by_cases h : i ≠ listenfd ∧ rdtmp i = true
    · rw [if_pos h]
      exact .inr ⟨i, Nat.le_refl i, h.1, h.2, rfl⟩
    · rw [if_neg h]
      rcases ih (i + 1) with hend | ⟨j, hle, hj⟩
      · exact .inl hend
      · exact .inr ⟨j, Nat.le_of_succ_le hle, hj⟩

theorem goOn_cases (listenfd maxfd : Nat) (rdtmp : FdSet) (i : Nat) :
    goOn listenfd maxfd rdtmp i = .selecting ∨
      ∃ j, i ≤ j ∧ j ≠ listenfd ∧ rdtmp j = true ∧
        goOn listenfd maxfd rdtmp i = .visiting j rdtmp :=
  next_cases listenfd rdtmp (maxfd + 1 - i) i

theorem goOn_ne_damaged (listenfd maxfd : Nat) (rdtmp : FdSet) (i : Nat) :
    goOn listenfd maxfd rdtmp i ≠ .damaged := by
  rcases goOn_cases listenfd maxfd rdtmp i with h | ⟨j, -, -, -, h⟩ <;>
  · rw [h]
    exact Pc.noConfusion

theorem goOn_ne_accepting (listenfd maxfd : Nat) (rdtmp rdtmp' : FdSet) (i : Nat) :
    goOn listenfd maxfd rdtmp i ≠ .accepting rdtmp' := by
  rcases goOn_cases listenfd maxfd rdtmp i with h | ⟨j, -, -, -, h⟩ <;>
  · rw [h]
    exact Pc.noConfusion

/-- The sockets that are marked and that the loop has yet to come to. -/
def Pc.left : Pc → FdSet
  | .selecting => fun _ => false
  | .accepting rdtmp => rdtmp
  | .visiting i rdtmp => fun fd => decide (i ≤ fd) && rdtmp fd
  | .damaged => fun _ => false
  | .killed => fun _ => false

theorem left_visiting : (Pc.visiting i rdtmp).left fd = true ↔ i ≤ fd ∧ rdtmp fd = true := by
  unfold Pc.left
  rw [Bool.and_eq_true, decide_eq_true_eq]

theorem left_goOn (h : (goOn listenfd maxfd rdtmp i).left fd = true) :
    i ≤ fd ∧ rdtmp fd = true := by
  rcases goOn_cases listenfd maxfd rdtmp i with heq | ⟨j, hle, -, -, heq⟩
  · rw [heq] at h
    cases h
  · rw [heq, left_visiting] at h
    exact ⟨Nat.le_trans hle h.1, h.2⟩

theorem here_goOn (h : goOn listenfd maxfd rdtmp i = .visiting j rdtmp') :
    j ≠ listenfd ∧ rdtmp' j = true := by
  rcases goOn_cases listenfd maxfd rdtmp i with heq | ⟨k, -, hne, hset, heq⟩
  · rw [heq] at h
    cases h
  · rw [heq] at h
    cases h
    exact ⟨hne, hset⟩

namespace Server

variable {s : Server} {n c : Nat} {answer : Option Nat} {pipe : Bool}

/-! ## The invariant -/

structure Inv (s : Server) : Prop where
  sound : s.pc ≠ .damaged
  kernel : s.kernel.Ok [s.listenfd]
  set : ∀ fd, s.rdset fd = true ↔ fd = s.listenfd ∨ (s.kernel.fds fd).isSome
  bound : ∀ fd, s.rdset fd = true → fd ≤ s.maxfd ∧ fd < FD_SETSIZE
  marked : ∀ fd, s.pc.left fd = true → fd = s.listenfd ∨ (s.kernel.fds fd).isSome
  here : ∀ i rdtmp, s.pc = .visiting i rdtmp → i ≠ s.listenfd ∧ rdtmp i = true
  closed : s.kernel.ClosedAtEnd

theorem put_eq_true {on : Bool} {set : FdSet} {fd fd' : Nat} :
    put fd on set fd' = true ↔ fd' = fd ∧ on = true ∨ fd' ≠ fd ∧ set fd' = true := by
  unfold put
  by_cases h : fd' = fd
  · rw [h, Function.update_self]
    simp
  · rw [Function.update_of_ne h]
    simp [h]

theorem Inv.new {listenfd slack : Nat} (h : listenfd < FD_SETSIZE) :
    (Server.new listenfd slack).Inv where
  sound := Pc.noConfusion
  kernel := Kernel.Ok.init _
  set fd := by
    have hset : (Server.new listenfd slack).rdset fd = true ↔ fd = listenfd := by
      unfold Server.new
      rw [put_eq_true]
      simp
    have hopen : ((Server.new listenfd slack).kernel.fds fd).isSome = false := rfl
    rw [hset, hopen]
    simp [Server.new]
  bound fd hfd := by
    have hset : fd = listenfd := by
      unfold Server.new at hfd
      rw [put_eq_true] at hfd
      simpa using hfd
    rw [hset]
    exact ⟨Nat.le_refl _, h⟩
  marked fd := by rintro ⟨⟩
  here i rdtmp := by rintro ⟨⟩
  closed := Kernel.ClosedAtEnd.init

/-- Reading a connection that is open. -/
theorem Inv.setSock (h : s.Inv) (hfd : s.kernel.fds fd = some c) {k : Sock} (hk : k.Whole) :
    ({ s with kernel := s.kernel.setSock c k } : Server).Inv :=
  { h with
    kernel := h.kernel.setSock (h.kernel.opened fd c hfd).1 hk
    closed := h.closed.setSock hfd k }

/-- The loop goes on behind the connection it is at. -/
theorem Inv.onward (h : s.Inv) (hpc : s.pc = .visiting i rdtmp) :
    ({ s with pc := goOn s.listenfd s.maxfd rdtmp (i + 1) } : Server).Inv :=
  { h with
    sound := goOn_ne_damaged _ _ rdtmp (i + 1)
    marked := fun fd hfd => by
      obtain ⟨hle, hset⟩ := left_goOn hfd
      refine h.marked fd ?_
      rw [hpc]
      exact left_visiting.mpr ⟨Nat.le_of_succ_le hle, hset⟩
    here := fun j rdtmp' hj => here_goOn hj }

/-- A connection that has ended is closed, and the loop goes on. -/
theorem Inv.close (h : s.Inv) (hpc : s.pc = .visiting i rdtmp) (hfd : s.kernel.fds i = some c)
    (hread : (s.kernel.socks c).unread = []) (hend : (s.kernel.socks c).ended ≠ none) :
    ({ s with
      rdset := put i false s.rdset
      kernel := s.kernel.close i
      pc := goOn s.listenfd s.maxfd rdtmp (i + 1) } : Server).Inv := by
  have hne : i ≠ s.listenfd := (h.here i rdtmp hpc).1
  exact
    { sound := goOn_ne_damaged _ _ rdtmp (i + 1)
      kernel := h.kernel.close i
      set := fun fd => by
        dsimp only
        rw [put_eq_true, h.set fd, Option.isSome_iff_exists, Option.isSome_iff_exists]
        simp only [Kernel.fds_close_eq_some]
        by_cases heq : fd = i
        · subst heq
          simp [hne]
        · simp [heq]
      bound := fun fd hset => by
        rcases put_eq_true.mp hset with ⟨-, hfalse⟩ | ⟨-, hold⟩
        · cases hfalse
        · exact h.bound fd hold
      marked := fun fd hleft => by
        obtain ⟨hle, hset⟩ := left_goOn hleft
        have hfdne : fd ≠ i := by omega
        have hold : s.pc.left fd = true := by
          rw [hpc]
          exact left_visiting.mpr ⟨Nat.le_of_succ_le hle, hset⟩
        refine (h.marked fd hold).imp_right fun hopen => ?_
        rw [Kernel.fds_close_of_ne hfdne]
        exact hopen
      here := fun j rdtmp' hj => here_goOn hj
      closed := h.closed.close hfd hread hend }

/-- The connection the loop is at is open. -/
theorem Inv.opened (h : s.Inv) (hpc : s.pc = .visiting i rdtmp) :
    ∃ c, s.kernel.fds i = some c := by
  obtain ⟨hne, hset⟩ := h.here i rdtmp hpc
  have hleft : s.pc.left i = true := by
    rw [hpc]
    exact left_visiting.mpr ⟨Nat.le_refl i, hset⟩
  exact Option.isSome_iff_exists.mp ((h.marked i hleft).resolve_left hne)

/-- What a read comes to: it waits; takes something of the stream, and then has room to answer, or
an error off the connection; or closes it at the end of its stream. -/
theorem read_cases (hfd : s.kernel.fds i = some c) (hwhole : (s.kernel.socks c).Whole) (n : Nat)
    (pipe : Bool) (rdtmp : FdSet) :
    (s.kernel.socks c).readable = false ∧ s.read n pipe i rdtmp = s ∨
      ∃ k, k.Whole ∧
        (s.read n pipe i rdtmp =
            { s with kernel := s.kernel.setSock c k, pc := goOn s.listenfd s.maxfd rdtmp (i + 1) } ∨
          s.read n pipe i rdtmp = { s with kernel := s.kernel.setSock c k, pc := .killed } ∨
          ((s.kernel.socks c).unread ≠ [] ∧ ¬ s.Roomy) ∧
            s.read n pipe i rdtmp = { s with kernel := s.kernel.setSock c k, pc := .damaged } ∨
          k.unread = [] ∧ k.ended ≠ none ∧
            s.read n pipe i rdtmp =
              { s with
                rdset := put i false s.rdset
                kernel := (s.kernel.setSock c k).close i
                pc := goOn s.listenfd s.maxfd rdtmp (i + 1) }) := by
  have hrecv := Kernel.recv_of_open MAXBUFF n hfd
  by_cases hread : (s.kernel.socks c).unread = []
  · rw [Sock.recv_of_read MAXBUFF n hread] at hrecv
    rcases hend : (s.kernel.socks c).ended with _ | e
    · left
      refine ⟨Sock.not_readable_iff.mpr ⟨hread, hend⟩, ?_⟩
      rw [Server.read, hrecv, Sock.atEnd, hend]
    · right
      have hsome : (s.kernel.socks c).reported.ended ≠ none :=
        Sock.reported_ended.mpr (by rw [hend]; exact Option.some_ne_none e)
      refine ⟨(s.kernel.socks c).reported, hwhole, ?_⟩
      rw [Server.read, hrecv, Sock.atEnd, hend]
      cases e with
      | closed => exact .inr (.inr (.inr ⟨hread, hsome, rfl⟩))
      | reset => exact .inl rfl
      | failed code => exact .inl rfl
  · right
    have hlen := Sock.length_chunk n (by decide : 0 < MAXBUFF) hread
    refine ⟨((s.kernel.socks c).recv MAXBUFF n).2, hwhole.recv, ?_⟩
    rw [Server.read, hrecv, Sock.recv_of_unread MAXBUFF n hread]
    dsimp only
    generalize (s.kernel.socks c).unread.take _ = chunk at hlen
    cases chunk with
    | nil => exact absurd hlen.1 (Nat.lt_irrefl 0)
    | cons b bs =>
      dsimp only
      split
      · next hroom => exact .inr (.inr (.inl ⟨⟨hread, hroom⟩, rfl⟩))
      · split
        · exact .inr (.inl rfl)
        · exact .inl rfl

/-- An answer that there is no room for. -/
theorem read_damaged (hfd : s.kernel.fds i = some c) (hread : (s.kernel.socks c).unread ≠ [])
    (hroom : ¬ s.Roomy) (n : Nat) (pipe : Bool) (rdtmp : FdSet) :
    (s.read n pipe i rdtmp).pc = .damaged := by
  have hlen := Sock.length_chunk n (by decide : 0 < MAXBUFF) hread
  rw [Server.read, Kernel.recv_of_open MAXBUFF n hfd, Sock.recv_of_unread MAXBUFF n hread]
  dsimp only
  generalize (s.kernel.socks c).unread.take _ = chunk at hlen
  cases chunk with
  | nil => exact absurd hlen.1 (Nat.lt_irrefl 0)
  | cons b bs =>
    dsimp only
    rw [if_pos hroom]

/-- SIGPIPE. -/
theorem Inv.kill (h : s.Inv) : ({ s with pc := .killed } : Server).Inv :=
  { h with
    sound := Pc.noConfusion
    marked := fun fd hfd => by cases hfd
    here := fun i rdtmp hi => by cases hi }

theorem Inv.read (h : s.Inv) (hpc : s.pc = .visiting i rdtmp)
    (hroom : ∀ c, s.kernel.fds i = some c → (s.kernel.socks c).unread ≠ [] → s.Roomy) (n : Nat)
    (pipe : Bool) : (s.read n pipe i rdtmp).Inv := by
  obtain ⟨c, hfd⟩ := h.opened hpc
  rcases read_cases hfd (h.kernel.whole c) n pipe rdtmp with
    ⟨-, heq⟩ | ⟨k, hk, heq | heq | ⟨⟨hread, hover⟩, -⟩ | ⟨hread, hend, heq⟩⟩
  · rw [heq]
    exact h
  · rw [heq]
    exact (h.setSock hfd hk).onward hpc
  · rw [heq]
    exact (h.setSock hfd hk).kill
  · exact absurd (hroom c hfd hread) hover
  · rw [heq]
    rw [← Kernel.setSock_self (k := s.kernel) (c := c) k] at hread hend
    exact (h.setSock hfd hk).close hpc hfd hread hend

theorem Inv.peer (h : s.Inv) (e : PeerEvent) :
    ({ s with kernel := s.kernel.peer e } : Server).Inv where
  sound := h.sound
  kernel := h.kernel.peer e
  set fd := by
    dsimp only
    rw [Kernel.fds_peer]
    exact h.set fd
  bound := h.bound
  marked fd hfd := by
    dsimp only
    rw [Kernel.fds_peer]
    exact h.marked fd hfd
  here := h.here
  closed := h.closed.peer e

theorem Inv.select (h : s.Inv) (ok : Bool) : (s.select ok).Inv := by
  unfold Server.select
  extract_lets rdtmp
  have hmarked : ∀ fd, rdtmp fd = true → fd = s.listenfd ∨ (s.kernel.fds fd).isSome := by
    intro fd hfd
    rw [← h.set fd]
    unfold rdtmp at hfd
    cases ok with
    | false => exact hfd
    | true =>
      rw [if_pos rfl, Bool.and_eq_true, Bool.and_eq_true] at hfd
      exact hfd.1.2
  split
  · exact h
  · split
    · exact
        { h with
          sound := Pc.noConfusion
          marked := hmarked
          here := fun i rdtmp' hi => by cases hi }
    · exact
        { h with
          sound := goOn_ne_damaged _ _ rdtmp 0
          marked := fun fd hfd => hmarked fd (left_goOn hfd).2
          here := fun i rdtmp' hi => here_goOn hi }

theorem Inv.accept (h : s.Inv) (hpc : s.pc = .accepting rdtmp)
    (hrange : s.kernel.backlog ≠ [] →
      ∃ fd c, s.kernel.acceptfd [s.listenfd] answer = some (fd, c) ∧ fd < FD_SETSIZE) :
    (s.accept answer rdtmp).Inv := by
  unfold Server.accept
  by_cases hback : s.kernel.backlog = []
  · rw [if_pos hback]
    exact h
  rw [if_neg hback]
  obtain ⟨fd, c, hacc, hlt⟩ := hrange hback
  obtain ⟨-, -, -, hfree⟩ := Kernel.acceptfd_eq_some hacc
  rw [hacc]
  dsimp only
  rw [if_pos hlt]
  have hmax : ∀ m, (if fd > s.maxfd then fd else s.maxfd) = m → s.maxfd ≤ m ∧ fd ≤ m := by
    rintro _ rfl
    split <;> omega
  exact
    { sound := goOn_ne_damaged _ _ rdtmp 0
      kernel := h.kernel.install hacc
      set := fun fd' => by
        dsimp only
        rw [put_eq_true, h.set fd']
        by_cases heq : fd' = fd
        · rw [heq, Kernel.fds_install_self]
          simp
        · rw [Kernel.fds_install_of_ne heq]
          simp [heq]
      bound := fun fd' hset => by
        dsimp only
        obtain ⟨hold, hnew⟩ := hmax _ rfl
        rcases put_eq_true.mp hset with ⟨heq, -⟩ | ⟨-, hset⟩
        · rw [heq]
          exact ⟨hnew, hlt⟩
        · obtain ⟨hle, hlt'⟩ := h.bound fd' hset
          exact ⟨Nat.le_trans hle hold, hlt'⟩
      marked := fun fd' hleft => by
        have hold : s.pc.left fd' = true := by
          rw [hpc]
          exact (left_goOn hleft).2
        refine (h.marked fd' hold).imp_right fun hopen => ?_
        dsimp only
        rw [Kernel.fds_install_of_ne (Kernel.ne_of_isSome hfree hopen)]
        exact hopen
      here := fun i rdtmp' hi => here_goOn hi
      closed := h.closed.install h.kernel hacc }

theorem Inv.turn (h : s.Inv) {input : Input} (hsafe : s.InRange input ∧ s.Answerable input) :
    (s.turn input).Inv := by
  obtain ⟨hrange, hroom⟩ := hsafe
  cases input with
  | peer e => exact h.peer e
  | select ok =>
    unfold Server.turn
    dsimp only
    split
    · exact h.select ok
    · exact h
  | call answer n pipe =>
    unfold Server.turn
    dsimp only
    split
    · next rdtmp hpc => exact h.accept hpc (hrange rdtmp hpc)
    · next i rdtmp hpc => exact h.read hpc (fun c => hroom i rdtmp c hpc) n pipe
    · exact h

theorem Inv.orderly (h : s.Inv) : s.Orderly where
  sound := h.sound
  set := h.set
  bound := h.bound
  reads i rdtmp hpc := by
    obtain ⟨c, hfd⟩ := h.opened hpc
    exact Option.isSome_of_eq_some hfd

/-- A request that gets no such descriptor damages the set. -/
theorem inRange_of_sound {input : Input} (h : (s.turn input).pc ≠ .damaged) :
    s.InRange input := by
  cases input with
  | peer e => trivial
  | select ok => trivial
  | call answer n pipe =>
    intro rdtmp hpc hback
    unfold Server.turn Server.accept at h
    rw [hpc] at h
    dsimp only at h
    rw [if_neg hback] at h
    rcases hacc : s.kernel.acceptfd [s.listenfd] answer with _ | ⟨fd, c⟩
    · rw [hacc] at h
      exact absurd rfl h
    · rw [hacc] at h
      dsimp only at h
      by_cases hlt : fd < FD_SETSIZE
      · exact ⟨fd, c, rfl, hlt⟩
      · rw [if_neg hlt] at h
        exact absurd rfl h

/-- So does an answer without room what lies behind `sendbuf`. -/
theorem answerable_of_sound {input : Input} (h : (s.turn input).pc ≠ .damaged) :
    s.Answerable input := by
  cases input with
  | peer e => trivial
  | select ok => trivial
  | call answer n pipe =>
    intro i rdtmp c hpc hfd hread
    unfold Server.turn at h
    rw [hpc] at h
    by_contra hroom
    exact h (read_damaged hfd hread hroom n pipe rdtmp)

end Server

/-- **The set is in order** exactly while every client that is let in gets a descriptor below
`FD_SETSIZE` and no message is read without room for the answer. -/
theorem orderly_iff {listenfd : Nat} (h : listenfd < FD_SETSIZE) (slack : Nat) (is : List Input) :
    (selectServer listenfd slack).EveryState is Server.Orderly ↔
      (selectServer listenfd slack).EveryStep is fun s i => s.InRange i ∧ s.Answerable i :=
  Machine.everyState_iff_guard_of (P := Server.Inv) (fun _ => Server.Inv.orderly)
    (Server.Inv.new h) (fun _ _ hinv hsafe => hinv.turn hsafe)
    fun _ _ _ hok => ⟨Server.inRange_of_sound hok.sound, Server.answerable_of_sound hok.sound⟩

/-- One client is let in, and another one where no descriptor is left. -/
theorem orderly_iff_two :
    (selectServer 3 12).EveryState
        [.peer .connect, .select true, .call (some 4) 0 false, .peer .connect, .select true,
          .call none 0 false] Server.Orderly ↔
      (selectServer 3 12).EveryStep
        [.peer .connect, .select true, .call (some 4) 0 false, .peer .connect, .select true,
          .call none 0 false] fun s i => s.InRange i ∧ s.Answerable i :=
  orderly_iff (by decide) 12 _

/-! ## Calls that wait -/

namespace Server

/-- `select` waits for something to be read, or a client to let in. -/
def Idle (s : Server) : Prop := s.pc = .selecting ∧ ∀ fd, s.ready fd = false

/-- The server waits for its clients only in `select`, and then has attended to all of them. -/
structure Prompt (s : Server) : Prop where
  accepts : ∀ rdtmp, s.pc = .accepting rdtmp → s.kernel.backlog ≠ []
  reads : ∀ i rdtmp, s.pc = .visiting i rdtmp → s.ready i = true
  ordered : ∀ c, (s.kernel.socks c).received <+: (s.kernel.socks c).sent
  attended : s.Idle → s.kernel.Attended

/-- What is marked is still ready. -/
structure Live (s : Server) : Prop where
  listener : ∀ rdtmp, s.pc = .accepting rdtmp → s.kernel.backlog ≠ []
  marked : ∀ fd, s.pc.left fd = true → fd ≠ s.listenfd → s.ready fd = true

variable {s : Server} {rdtmp : FdSet} {i n c fd : Nat} {answer : Option Nat} {pipe : Bool}

theorem ready_iff (hne : fd ≠ s.listenfd) :
    s.ready fd = true ↔ ∃ c, s.kernel.fds fd = some c ∧ (s.kernel.socks c).readable = true := by
  rw [ready, if_neg hne]
  cases s.kernel.fds fd with
  | none => simp
  | some c => simp

theorem ready_listenfd : s.ready s.listenfd = true ↔ s.kernel.backlog ≠ [] := by
  rw [ready, if_pos rfl, Bool.not_eq_true', List.isEmpty_eq_false_iff]

theorem Live.peer (h : s.Live) (e : PeerEvent) :
    ({ s with kernel := s.kernel.peer e } : Server).Live where
  listener rdtmp hpc := Kernel.backlog_peer e (h.listener rdtmp hpc)
  marked fd hleft hne := by
    obtain ⟨c, hfd, hread⟩ := (ready_iff (s := s) hne).mp (h.marked fd hleft hne)
    refine (ready_iff hne).mpr ⟨c, ?_, Kernel.readable_peer e hread⟩
    dsimp only
    rw [Kernel.fds_peer]
    exact hfd

theorem Live.select (h : s.Live) : (s.select true).Live := by
  unfold Server.select
  extract_lets rdtmp
  have hmarked : ∀ fd, rdtmp fd = true → s.ready fd = true := by
    intro fd hfd
    unfold rdtmp at hfd
    rw [if_pos rfl, Bool.and_eq_true] at hfd
    exact hfd.2
  split
  · exact h
  · split
    · next hl =>
      exact ⟨fun _ _ => ready_listenfd.mp (hmarked _ hl), fun fd hfd _ => hmarked fd hfd⟩
    · refine ⟨fun rdtmp' hpc => ?_, fun fd hfd _ => hmarked fd (left_goOn hfd).2⟩
      exact absurd hpc (goOn_ne_accepting _ _ rdtmp rdtmp' 0)

theorem Live.accept (h : s.Live) (hpc : s.pc = .accepting rdtmp)
    (hsound : (s.accept answer rdtmp).pc ≠ .damaged) : (s.accept answer rdtmp).Live := by
  have hleft : s.pc.left = rdtmp := by
    rw [hpc]
    rfl
  unfold Server.accept at hsound ⊢
  by_cases hback : s.kernel.backlog = []
  · exact absurd hback (h.listener rdtmp hpc)
  rw [if_neg hback] at hsound ⊢
  rcases hacc : s.kernel.acceptfd [s.listenfd] answer with _ | ⟨cfd, c⟩
  · rw [hacc] at hsound
    exact absurd rfl hsound
  rw [hacc] at hsound
  dsimp only at hsound ⊢
  by_cases hlt : cfd < FD_SETSIZE
  · obtain ⟨-, -, -, hfree⟩ := Kernel.acceptfd_eq_some hacc
    rw [if_pos hlt]
    refine ⟨fun rdtmp' heq => absurd heq (goOn_ne_accepting _ _ rdtmp rdtmp' 0),
      fun fd hfd hne => ?_⟩
    have hold : s.pc.left fd = true := by
      rw [hleft]
      exact (left_goOn hfd).2
    obtain ⟨c', hopen, hread⟩ := (ready_iff (s := s) hne).mp (h.marked fd hold hne)
    exact (ready_iff hne).mpr ⟨c', Kernel.fds_install_of_open hfree hopen, hread⟩
  · rw [if_neg hlt] at hsound
    exact absurd rfl hsound

/-- Reading one connection leaves the others as they are. -/
theorem Live.read (h : s.Live) (hinv : s.Inv) (hpc : s.pc = .visiting i rdtmp)
    (hsound : (s.read n pipe i rdtmp).pc ≠ .damaged) : (s.read n pipe i rdtmp).Live := by
  obtain ⟨c, hopen⟩ := hinv.opened hpc
  have hrest : ∀ (k : Sock) (fd : Nat),
      (goOn s.listenfd s.maxfd rdtmp (i + 1)).left fd = true → fd ≠ s.listenfd →
        ∃ c', fd ≠ i ∧ s.kernel.fds fd = some c' ∧
          ((s.kernel.setSock c k).socks c').readable = true := by
    intro k fd hfd hne
    obtain ⟨hle, hset⟩ := left_goOn hfd
    have hold : s.pc.left fd = true := by
      rw [hpc]
      exact left_visiting.mpr ⟨Nat.le_of_succ_le hle, hset⟩
    obtain ⟨c', hfd', hread⟩ := (ready_iff (s := s) hne).mp (h.marked fd hold hne)
    have hfdne : fd ≠ i := by omega
    have hcc : c' ≠ c := fun heq => hfdne (hinv.kernel.inj fd i c (heq ▸ hfd') hopen)
    refine ⟨c', hfdne, hfd', ?_⟩
    rw [Kernel.setSock_of_ne hcc]
    exact hread
  rcases read_cases hopen (hinv.kernel.whole c) n pipe rdtmp with
    ⟨-, heq⟩ | ⟨k, -, heq | heq | ⟨-, heq⟩ | ⟨-, -, heq⟩⟩
  · rw [heq]
    exact h
  · rw [heq]
    refine ⟨fun rdtmp' hpc' => absurd hpc' (goOn_ne_accepting _ _ rdtmp rdtmp' _),
      fun fd hfd hne => ?_⟩
    obtain ⟨c', -, hfd', hread⟩ := hrest k fd hfd hne
    exact (ready_iff hne).mpr ⟨c', hfd', hread⟩
  · rw [heq]
    exact ⟨fun _ => by rintro ⟨⟩, fun _ => by rintro ⟨⟩⟩
  · rw [heq] at hsound
    exact absurd rfl hsound
  · rw [heq]
    refine ⟨fun rdtmp' hpc' => absurd hpc' (goOn_ne_accepting _ _ rdtmp rdtmp' _),
      fun fd hfd hne => ?_⟩
    obtain ⟨c', hfdne, hfd', hread⟩ := hrest k fd hfd hne
    exact (ready_iff hne).mpr ⟨c', Kernel.fds_close_eq_some.mpr ⟨hfdne, hfd'⟩, hread⟩

/-- `select` does not fail. -/
def Selects : Input → Prop
  | .select ok => ok = true
  | _ => True

instance : (input : Input) → Decidable (Selects input)
  | .select ok => inferInstanceAs (Decidable (ok = true))
  | .peer _ => inferInstanceAs (Decidable True)
  | .call _ _ _ => inferInstanceAs (Decidable True)

theorem Live.turn (h : s.Live) (hinv : s.Inv) {input : Input} (hselect : Selects input)
    (hsound : (s.turn input).pc ≠ .damaged) : (s.turn input).Live := by
  cases input with
  | peer e => exact h.peer e
  | select ok =>
    obtain rfl : ok = true := hselect
    unfold Server.turn
    dsimp only
    split
    · exact h.select
    · exact h
  | call answer n pipe =>
    unfold Server.turn at hsound ⊢
    dsimp only at hsound ⊢
    cases hpc : s.pc with
    | selecting => exact h
    | damaged => exact h
    | killed => exact h
    | accepting rdtmp =>
      rw [hpc] at hsound
      exact h.accept hpc hsound
    | visiting i rdtmp =>
      rw [hpc] at hsound
      exact h.read hinv hpc hsound

/-- What is damaged is damaged for good; what was sent is still given out in order. -/
structure Damaged (s : Server) : Prop where
  pc : s.pc = .damaged
  whole : ∀ c, (s.kernel.socks c).Whole

theorem Inv.prompt (h : s.Inv) (hlive : s.Live) : s.Prompt where
  accepts := hlive.listener
  reads i rdtmp hpc := by
    obtain ⟨hne, hset⟩ := h.here i rdtmp hpc
    refine hlive.marked i ?_ hne
    rw [hpc]
    exact left_visiting.mpr ⟨Nat.le_refl i, hset⟩
  ordered c := ⟨_, h.kernel.whole c⟩
  attended hidle := by
    obtain ⟨-, hready⟩ := hidle
    have hback : s.kernel.backlog = [] := by
      have hl := hready s.listenfd
      rw [← Bool.not_eq_true, ready_listenfd, not_not] at hl
      exact hl
    refine h.kernel.attended h.closed hback fun fd c hfd => ?_
    have hne : fd ≠ s.listenfd := fun heq => by
      rw [heq, h.kernel.unused s.listenfd List.mem_cons_self] at hfd
      cases hfd
    have hquiet := hready fd
    rw [← Bool.not_eq_true, ready_iff hne] at hquiet
    rw [← Bool.not_eq_true]
    exact fun hread => hquiet ⟨c, hfd, hread⟩

theorem Damaged.prompt (h : s.Damaged) : s.Prompt where
  accepts rdtmp hpc := by
    rw [h.pc] at hpc
    cases hpc
  reads i rdtmp hpc := by
    rw [h.pc] at hpc
    cases hpc
  ordered c := ⟨_, h.whole c⟩
  attended hidle := by
    have hpc := hidle.1
    rw [h.pc] at hpc
    cases hpc

theorem Damaged.turn (h : s.Damaged) (input : Input) : (s.turn input).Damaged := by
  unfold Server.turn
  cases input with
  | peer e => exact ⟨h.pc, Kernel.whole_peer h.whole e⟩
  | select ok =>
    rw [h.pc]
    exact h
  | call answer n pipe =>
    rw [h.pc]
    exact h

/-- The step that damages it takes nothing from the streams. -/
theorem whole_turn (hinv : s.Inv) (input : Input) (c : Nat) :
    ((s.turn input).kernel.socks c).Whole := by
  unfold Server.turn
  cases input with
  | peer e => exact (hinv.peer e).kernel.whole c
  | select ok =>
    dsimp only
    split
    · exact (hinv.select ok).kernel.whole c
    · exact hinv.kernel.whole c
  | call answer n pipe =>
    cases hpc : s.pc with
    | selecting => exact hinv.kernel.whole c
    | damaged => exact hinv.kernel.whole c
    | killed => exact hinv.kernel.whole c
    | visiting i rdtmp =>
      obtain ⟨c', hfd⟩ := hinv.opened hpc
      have hset : ∀ k : Sock, k.Whole → ((s.kernel.setSock c' k).socks c).Whole := fun k hk =>
        Kernel.whole_setSock hinv.kernel.whole hk c
      dsimp only
      rcases read_cases hfd (hinv.kernel.whole c') n pipe rdtmp with
        ⟨-, heq⟩ | ⟨k, hk, heq | heq | ⟨-, heq⟩ | ⟨-, -, heq⟩⟩
      · rw [heq]
        exact hinv.kernel.whole c
      all_goals
        rw [heq]
        exact hset k hk
    | accepting rdtmp =>
      dsimp only
      unfold Server.accept
      split
      · exact hinv.kernel.whole c
      · split
        · exact hinv.kernel.whole c
        · dsimp only
          split <;> exact hinv.kernel.whole c

/-- The set is in order, or damaged for good. -/
theorem prompt_turn {input : Input} (hselect : Selects input)
    (h : s.Inv ∧ s.Live ∨ s.Damaged) :
    (s.turn input).Inv ∧ (s.turn input).Live ∨ (s.turn input).Damaged := by
  rcases h with ⟨hinv, hlive⟩ | hdamaged
  · by_cases hsound : (s.turn input).pc = .damaged
    · exact .inr ⟨hsound, whole_turn hinv input⟩
    · exact .inl ⟨hinv.turn ⟨inRange_of_sound hsound, answerable_of_sound hsound⟩,
        hlive.turn hinv hselect hsound⟩
  · exact .inr (hdamaged.turn input)

end Server

/-- **No `accept` or `read` waits** while `select` does not fail, and all that is sent is read, as
long as the server is neither damaged nor killed. -/
theorem never_blocks {listenfd : Nat} (h : listenfd < FD_SETSIZE) (slack : Nat) {is : List Input}
    (hselect : ∀ i ∈ is, Server.Selects i) :
    (selectServer listenfd slack).EveryState is Server.Prompt := by
  have hrun : (selectServer listenfd slack).EveryState is fun s => s.Inv ∧ s.Live ∨ s.Damaged := by
    refine Machine.everyState_of_guard (G := fun _ => Server.Selects) (.inl ⟨Server.Inv.new h, ?_⟩)
      (fun s i hs hi => Server.prompt_turn hi hs) (Machine.everyStep_of_inputs hselect)
    exact ⟨fun _ => by rintro ⟨⟩, fun _ => by rintro ⟨⟩⟩
  intro pre hpre
  rcases hrun pre hpre with ⟨hinv, hlive⟩ | hdamaged
  · exact hinv.prompt hlive
  · exact hdamaged.prompt

/-- A client connects, sends two bytes and leaves. -/
theorem never_blocks_visit :
    (selectServer 3 12).EveryState
      [.peer .connect, .select true, .call (some 4) 0 false, .peer (.send 0 [104, 105]),
        .select true, .call none 5 false, .peer (.finish 0 .closed), .select true,
        .call none 5 false] Server.Prompt :=
  never_blocks (by decide) 12 (by decide)

end LearnNotes.Web.SelectServer
