import LearnNotes.Lib.Machine
import LearnNotes.Web.Sockets

/-!
# The children of `process_server`

The loop of `web/process_server.cpp` accepts a connection, forks a child for it and closes its own
descriptor; the child works on it until its stream ends, and exits. Parent, children and clients
take their steps in any order. A child starts with all the descriptors of its parent, and may be
ended by SIGPIPE when it answers a client that has gone; the parent gets SIGCHLD for each that has
ended, with an action that `main` never sets: it fills in `sa_restorer`.

`handedOver_iff`: each connection let in is held by the parent between `accept` and `fork` and by
exactly one child from then on, until it has been read to the end of its stream or SIGPIPE has ended
its child. That is so exactly while no `fork` fails, for which the loop has no branch, and SIGCHLD
does no harm.

A step of the parent is `accept`, or `fork` with what follows it; one of a child is `childWork` with
what it writes. What is printed is left out, with what `printf` reads behind a `buff` that a message
has filled, and so are the texts of the answers.
-/

namespace LearnNotes.Web.ProcessServer

open Lib

def MAXBUFF : Nat := 1024

/-- A child: its table of descriptors, and the one it works on. -/
structure Child where
  fds : Nat → Option Nat
  fd : Nat

/-- What the parent is at; `damaged` where the action of SIGCHLD has done anything to it. -/
inductive Parent where
  | accepting
  | forking (acceptfd : Nat)
  | exited
  | damaged

/-- What `accept` answers; `EINTR` is its own case. -/
inductive Accepted where
  | fd (fd : Nat)
  | interrupted
  | failed

/-- The table of `kernel` is the parent's; `children` are those running, by process id, `gone`
counts those that have ended, and `dropped` are the connections whose child SIGPIPE has ended. -/
structure System where
  listenfd : Nat
  kernel : Kernel := {}
  children : Nat → Option Child := fun _ => none
  parent : Parent := .accepting
  gone : Nat := 0
  dropped : List Nat := []

/-- `pipe`: a `write` that may raise SIGPIPE does. `sigchld`: the action of SIGCHLD, whatever it is,
does something to the parent. -/
inductive Input where
  | peer (e : PeerEvent)
  | accept (answer : Accepted)
  | fork (pid : Option Nat)
  | childWork (pid : Nat) (n : Nat) (pipe : Bool)
  | sigchld

namespace System

/-- `accept`, which waits for a client. -/
def accept (answer : Accepted) (s : System) : System :=
  if s.kernel.backlog = [] then s
  else
    match answer with
    | .interrupted => s
    | .failed => { s with parent := .exited }
    | .fd acceptfd =>
      match s.kernel.acceptfd [s.listenfd] (some acceptfd) with
      | none => { s with parent := .exited }
      | some (acceptfd, c) =>
        { s with kernel := s.kernel.install acceptfd c, parent := .forking acceptfd }

/-- `fork` gives an id that is not in use, or -1. -/
def forked (pid : Option Nat) (s : System) : Option Nat :=
  pid.filter fun pid => (s.children pid).isNone

/-- The child has the table of the parent; the parent closes its descriptor. -/
def fork (pid : Option Nat) (acceptfd : Nat) (s : System) : System :=
  match s.forked pid with
  | some pid =>
    { s with
      kernel := s.kernel.close acceptfd
      children := Function.update s.children pid (some { fds := s.kernel.fds, fd := acceptfd })
      parent := .accepting }
  | none => { s with parent := .accepting }

/-- The end of a child, which closes what it has. -/
def exit (pid : Nat) (s : System) : System :=
  { s with children := Function.update s.children pid none, gone := s.gone + 1 }

/-- `while(childWork(acceptfd) > 0);` and what follows it. -/
def childWork (pid n : Nat) (pipe : Bool) (child : Child) (s : System) : System :=
  let view := { s.kernel with fds := child.fds }
  let s' := { s with kernel := { (view.recv MAXBUFF n child.fd).2 with fds := s.kernel.fds } }
  match (view.recv MAXBUFF n child.fd).1 with
  | .ok (_ :: _) =>
    if pipe ∧ view.broken child.fd then
      { s'.exit pid with dropped := s.dropped ++ (child.fds child.fd).toList }
    else s'
  | .error .EAGAIN => s
  | _ => s'.exit pid

def turn (s : System) : Input → System
  | .peer e => { s with kernel := s.kernel.peer e }
  | .accept answer =>
    match s.parent with
    | .accepting => s.accept answer
    | _ => s
  | .fork pid =>
    match s.parent with
    | .forking acceptfd => s.fork pid acceptfd
    | _ => s
  | .childWork pid n pipe =>
    match s.children pid with
    | some child => s.childWork pid n pipe child
    | none => s
  | .sigchld => if s.gone = 0 then s else { s with parent := .damaged }

end System

/-- `main` after its socket is set up. -/
def processServer (listenfd : Nat) : Machine System Input Unit where
  init := { listenfd := listenfd }
  step s i := ((), s.turn i)

namespace System

/-- A child has the connection, under some descriptor. -/
def ChildHas (s : System) (pid c : Nat) : Prop :=
  ∃ child, s.children pid = some child ∧ ∃ fd, child.fds fd = some c

/-- No process has the connection. -/
def Free (s : System) (c : Nat) : Prop :=
  (∀ fd, s.kernel.fds fd ≠ some c) ∧ ∀ pid, ¬ s.ChildHas pid c

/-- All of a stream that has ended has been read. -/
def ReadToEnd (s : System) (c : Nat) : Prop :=
  (s.kernel.socks c).received = (s.kernel.socks c).sent ∧ (s.kernel.socks c).ended ≠ none

/-- The parent has a connection only until it forks, a child only the one it works on, and no
connection has two holders; one that was let in and has none was read to the end of its stream, or
had ended when SIGPIPE ended its child. -/
structure HandedOver (s : System) : Prop where
  sound : s.parent ≠ .damaged
  parent : ∀ fd c, s.kernel.fds fd = some c → s.parent = .forking fd
  works : ∀ pid child, s.children pid = some child →
    ∃ c, child.fds child.fd = some c ∧ ∀ fd c', child.fds fd = some c' → fd = child.fd
  apart : ∀ pid pid' c, s.ChildHas pid c → s.ChildHas pid' c → pid = pid'
  apart' : ∀ pid fd c, s.ChildHas pid c → s.kernel.fds fd ≠ some c
  held : ∀ c, s.kernel.Admitted c →
    (∃ fd, s.kernel.fds fd = some c) ∨ (∃ pid, s.ChildHas pid c) ∨
      s.ReadToEnd c ∨ c ∈ s.dropped
  dropped : ∀ c ∈ s.dropped, s.Free c ∧ (s.kernel.socks c).ended ≠ none

/-- Where the parent forks, it succeeds, and SIGCHLD does no harm. -/
def Forks (s : System) : Input → Prop
  | .fork pid =>
    match s.parent with
    | .forking _ => s.forked pid ≠ none
    | _ => True
  | .sigchld => s.gone = 0
  | _ => True

instance (s : System) : (i : Input) → Decidable (s.Forks i)
  | .fork pid =>
    match h : s.parent with
    | .forking _ => decidable_of_iff (s.forked pid ≠ none) (by rw [Forks, h])
    | .accepting => .isTrue (by rw [Forks, h]; trivial)
    | .exited => .isTrue (by rw [Forks, h]; trivial)
    | .damaged => .isTrue (by rw [Forks, h]; trivial)
  | .sigchld => inferInstanceAs (Decidable (s.gone = 0))
  | .peer _ => inferInstanceAs (Decidable True)
  | .accept _ => inferInstanceAs (Decidable True)
  | .childWork _ _ _ => inferInstanceAs (Decidable True)

/-! ## The invariant -/

structure Inv (s : System) : Prop where
  sound : s.parent ≠ .damaged
  parent : ∀ fd c, s.kernel.fds fd = some c → s.parent = .forking fd
  works : ∀ pid child, s.children pid = some child →
    ∃ c, child.fds child.fd = some c ∧ ∀ fd c', child.fds fd = some c' → fd = child.fd
  apart : ∀ pid pid' c, s.ChildHas pid c → s.ChildHas pid' c → pid = pid'
  apart' : ∀ pid fd c, s.ChildHas pid c → s.kernel.fds fd ≠ some c
  kernel : s.kernel.Ok [s.listenfd]
  forking : ∀ fd, s.parent = .forking fd → (s.kernel.fds fd).isSome
  admitted : ∀ pid c, s.ChildHas pid c → s.kernel.Admitted c
  closed : ∀ c, s.kernel.Admitted c → s.Free c → c ∉ s.dropped →
    (s.kernel.socks c).unread = [] ∧ (s.kernel.socks c).ended ≠ none
  dropped : ∀ c ∈ s.dropped,
    s.kernel.Admitted c ∧ s.Free c ∧ (s.kernel.socks c).ended ≠ none

variable {s : System} {c fd n pid acceptfd : Nat} {child : Child} {k : Sock} {pipe : Bool}

theorem Inv.init (listenfd : Nat) : ({ listenfd := listenfd } : System).Inv where
  sound := Parent.noConfusion
  parent fd c := by rintro ⟨⟩
  works pid child := by rintro ⟨⟩
  apart pid pid' c := by rintro ⟨child, ⟨⟩, -⟩
  apart' pid fd c := by rintro ⟨child, ⟨⟩, -⟩
  kernel := Kernel.Ok.init _
  forking fd := by rintro ⟨⟩
  admitted pid c := by rintro ⟨child, ⟨⟩, -⟩
  closed c hc := absurd hc Kernel.not_admitted_init
  dropped c := by rintro ⟨⟩

theorem Inv.peer (h : s.Inv) (e : PeerEvent) :
    ({ s with kernel := s.kernel.peer e } : System).Inv := by
  have hfree : ∀ c, Free { s with kernel := s.kernel.peer e } c ↔ s.Free c := fun c => by
    unfold Free
    dsimp only
    rw [Kernel.fds_peer]
    rfl
  exact
    { sound := h.sound
      parent := fun fd c hfd => by
        dsimp only at hfd
        rw [Kernel.fds_peer] at hfd
        exact h.parent fd c hfd
      works := h.works
      apart := h.apart
      apart' := fun pid fd c hhas => by
        dsimp only
        rw [Kernel.fds_peer]
        exact h.apart' pid fd c hhas
      kernel := h.kernel.peer e
      forking := fun fd hfd => by
        dsimp only
        rw [Kernel.fds_peer]
        exact h.forking fd hfd
      admitted := fun pid c hhas =>
        (Kernel.admitted_peer s.kernel e c).mpr (h.admitted pid c hhas)
      closed := fun c hin hnone hkept => by
        have hclosed := h.closed c ((Kernel.admitted_peer s.kernel e c).mp hin)
          ((hfree c).mp hnone) hkept
        dsimp only
        rw [Kernel.socks_peer_of_ended e hclosed.2]
        exact hclosed
      dropped := fun c hc => by
        obtain ⟨hin, hnone, hend⟩ := h.dropped c hc
        refine ⟨(Kernel.admitted_peer s.kernel e c).mpr hin, (hfree c).mpr hnone, ?_⟩
        dsimp only
        rw [Kernel.socks_peer_of_ended e hend]
        exact hend }

/-! ## The parent -/

/-- In front of `accept` the parent has no connection. -/
theorem Inv.fds_eq_none (h : s.Inv) (hpc : s.parent = .accepting) (fd : Nat) :
    s.kernel.fds fd = none := by
  cases hfd : s.kernel.fds fd with
  | none => rfl
  | some c =>
    have hforking := h.parent fd c hfd
    rw [hpc] at hforking
    cases hforking

theorem Inv.leave (h : s.Inv) (hpc : s.parent = .accepting) :
    ({ s with parent := .exited } : System).Inv :=
  { h with
    sound := Parent.noConfusion
    parent := fun fd c hfd => by
      dsimp only at hfd
      rw [h.fds_eq_none hpc fd] at hfd
      cases hfd
    forking := fun fd => by rintro ⟨⟩ }

theorem Inv.install (h : s.Inv) (hpc : s.parent = .accepting) {answer : Option Nat}
    (hacc : s.kernel.acceptfd [s.listenfd] answer = some (acceptfd, c)) :
    ({ s with
      kernel := s.kernel.install acceptfd c
      parent := .forking acceptfd } : System).Inv := by
  obtain ⟨-, hqueue, -, -⟩ := Kernel.acceptfd_eq_some hacc
  have hwaits : c ∈ s.kernel.backlog := hqueue ▸ List.mem_cons_self
  have hnone := h.fds_eq_none hpc
  exact
    { sound := Parent.noConfusion
      parent := fun fd c' hfd => by
        rcases Kernel.fds_install_eq_some hfd with ⟨rfl, -⟩ | ⟨-, hfd⟩
        · rfl
        · rw [hnone fd] at hfd
          cases hfd
      works := h.works
      apart := h.apart
      apart' := fun pid fd c' hhas hfd => by
        rcases Kernel.fds_install_eq_some hfd with ⟨-, rfl⟩ | ⟨-, hfd⟩
        · exact (h.admitted pid c' hhas).2 hwaits
        · exact h.apart' pid fd c' hhas hfd
      kernel := h.kernel.install hacc
      forking := fun fd hfd => by
        cases hfd
        exact Option.isSome_of_eq_some Kernel.fds_install_self
      admitted := fun pid c' hhas =>
        (Kernel.admitted_install h.kernel hacc c').mpr (.inr (h.admitted pid c' hhas))
      closed := fun c' hin hfree hkept => by
        rcases (Kernel.admitted_install h.kernel hacc c').mp hin with rfl | hin
        · exact absurd Kernel.fds_install_self (hfree.1 acceptfd)
        · refine h.closed c' hin ⟨fun fd hfd => ?_, hfree.2⟩ hkept
          rw [hnone fd] at hfd
          cases hfd
      dropped := fun c' hc' => by
        obtain ⟨hin, hfree, hend⟩ := h.dropped c' hc'
        refine ⟨(Kernel.admitted_install h.kernel hacc c').mpr (.inr hin),
          ⟨fun fd hfd => ?_, hfree.2⟩, hend⟩
        rcases Kernel.fds_install_eq_some hfd with ⟨-, rfl⟩ | ⟨-, hfd⟩
        · exact hin.2 hwaits
        · exact hfree.1 fd hfd }

theorem Inv.accept (h : s.Inv) (hpc : s.parent = .accepting) (answer : Accepted) :
    (s.accept answer).Inv := by
  unfold System.accept
  split
  · exact h
  · cases answer with
    | interrupted => exact h
    | failed => exact h.leave hpc
    | fd acceptfd =>
      dsimp only
      split
      · exact h.leave hpc
      · next acceptfd' c hacc => exact h.install hpc hacc

theorem forked_eq_some {answer : Option Nat} (h : s.forked answer = some pid) :
    s.children pid = none := by
  obtain ⟨-, hnone⟩ := Option.filter_eq_some_iff.mp h
  exact Option.isNone_iff_eq_none.mp hnone

/-- Who has a connection after a fork: as before, or the new child the one of its parent. -/
theorem childHas_fork {fds : Nat → Option Nat} {pid' c' : Nat} {k : Kernel} {p : Parent}
    (hhas : ChildHas { s with
      kernel := k
      children := Function.update s.children pid (some { fds := fds, fd := acceptfd })
      parent := p } pid' c') :
    pid' = pid ∧ (∃ fd, fds fd = some c') ∨ pid' ≠ pid ∧ s.ChildHas pid' c' := by
  obtain ⟨child, hchild, hfd⟩ := hhas
  dsimp only at hchild
  by_cases hpid : pid' = pid
  · rw [hpid, Function.update_self] at hchild
    cases hchild
    exact .inl ⟨hpid, hfd⟩
  · rw [Function.update_of_ne hpid] at hchild
    exact .inr ⟨hpid, child, hchild, hfd⟩

theorem Inv.forked (h : s.Inv) (hpc : s.parent = .forking acceptfd)
    (hpid : s.children pid = none) :
    ({ s with
      kernel := s.kernel.close acceptfd
      children := Function.update s.children pid (some { fds := s.kernel.fds, fd := acceptfd })
      parent := .accepting } : System).Inv := by
  obtain ⟨c, hfd⟩ := Option.isSome_iff_exists.mp (h.forking acceptfd hpc)
  have honly : ∀ fd c', s.kernel.fds fd = some c' → fd = acceptfd ∧ c' = c := fun fd c' hfd' => by
    have hforking := h.parent fd c' hfd'
    rw [hpc] at hforking
    cases hforking
    exact ⟨rfl, Option.some.inj (hfd'.symm.trans hfd)⟩
  have hnone : ∀ fd c', (s.kernel.close acceptfd).fds fd ≠ some c' := fun fd c' hfd' => by
    obtain ⟨hne, hold⟩ := Kernel.fds_close_eq_some.mp hfd'
    exact hne (honly fd c' hold).1
  have hchildren : ∀ pid' c', s.ChildHas pid' c' → pid' ≠ pid ∧ c' ≠ c := by
    rintro pid' c' hhas
    refine ⟨?_, ?_⟩
    · rintro rfl
      obtain ⟨child, hchild, -⟩ := hhas
      rw [hpid] at hchild
      cases hchild
    · rintro rfl
      exact h.apart' pid' acceptfd c' hhas hfd
  exact
    { sound := Parent.noConfusion
      parent := fun fd c' hfd' => absurd hfd' (hnone fd c')
      works := fun pid' child hchild => by
        dsimp only at hchild
        by_cases heq : pid' = pid
        · rw [heq, Function.update_self] at hchild
          cases hchild
          exact ⟨c, hfd, fun fd c' hfd' => (honly fd c' hfd').1⟩
        · rw [Function.update_of_ne heq] at hchild
          exact h.works pid' child hchild
      apart := fun pid₁ pid₂ c' h₁ h₂ => by
        rcases childHas_fork h₁ with ⟨heq₁, fd₁, hfd₁⟩ | ⟨hne₁, h₁⟩ <;>
          rcases childHas_fork h₂ with ⟨heq₂, fd₂, hfd₂⟩ | ⟨hne₂, h₂⟩
        · exact heq₁.trans heq₂.symm
        · exact absurd (honly fd₁ c' hfd₁).2 (hchildren pid₂ c' h₂).2
        · exact absurd (honly fd₂ c' hfd₂).2 (hchildren pid₁ c' h₁).2
        · exact h.apart pid₁ pid₂ c' h₁ h₂
      apart' := fun pid' fd c' _ => hnone fd c'
      kernel := h.kernel.close acceptfd
      forking := fun fd => by rintro ⟨⟩
      admitted := fun pid' c' hhas => by
        rcases childHas_fork hhas with ⟨-, fd, hfd'⟩ | ⟨-, hhas⟩
        · exact h.kernel.admitted hfd'
        · exact h.admitted pid' c' hhas
      closed := fun c' hin hfree hkept => by
        have hnew : ∀ fd, s.kernel.fds fd ≠ some c' := fun fd hfd' =>
          hfree.2 pid ⟨_, Function.update_self .., fd, hfd'⟩
        refine h.closed c' hin ⟨hnew, fun pid' hhas => ?_⟩ hkept
        have hne := (hchildren pid' c' hhas).1
        obtain ⟨child, hc, hfd'⟩ := hhas
        exact hfree.2 pid' ⟨child, (Function.update_of_ne hne ..).trans hc, hfd'⟩
      dropped := fun c' hc' => by
        obtain ⟨hin, hfree, hend⟩ := h.dropped c' hc'
        refine ⟨hin, ⟨fun fd => hnone fd c', fun pid' hhas => ?_⟩, hend⟩
        rcases childHas_fork hhas with ⟨-, fd, hfd'⟩ | ⟨-, hhas⟩
        · exact hfree.1 fd hfd'
        · exact hfree.2 pid' hhas }

/-! ## The children -/

/-- What `childWork` comes to: the child waits, takes something of its stream, is at the end of it
and exits, or is ended by SIGPIPE. -/
theorem childWork_cases (hfd : child.fds child.fd = some c) (hwhole : (s.kernel.socks c).Whole)
    (pid n : Nat) (pipe : Bool) :
    (s.kernel.socks c).ended = none ∧ s.childWork pid n pipe child = s ∨
      ∃ k : Sock, k.Whole ∧ (k.ended ≠ none ↔ (s.kernel.socks c).ended ≠ none) ∧
        (k.unread.length < (s.kernel.socks c).unread.length ∧
            s.childWork pid n pipe child = { s with kernel := s.kernel.setSock c k } ∨
          k.unread = [] ∧ k.ended ≠ none ∧
            s.childWork pid n pipe child =
              System.exit pid { s with kernel := s.kernel.setSock c k } ∨
          k.ended ≠ none ∧
            s.childWork pid n pipe child =
              { System.exit pid { s with kernel := s.kernel.setSock c k } with
                dropped := s.dropped ++ [c] }) := by
  have hrecv : ({ s.kernel with fds := child.fds } : Kernel).recv MAXBUFF n child.fd =
      (((s.kernel.socks c).recv MAXBUFF n).1,
        { s.kernel.setSock c ((s.kernel.socks c).recv MAXBUFF n).2 with fds := child.fds }) :=
    Kernel.recv_of_open MAXBUFF n hfd
  unfold System.childWork
  dsimp only
  rw [hrecv]
  by_cases hread : (s.kernel.socks c).unread = []
  · rw [Sock.recv_of_read MAXBUFF n hread]
    rcases hend : (s.kernel.socks c).ended with _ | e
    · left
      rw [Sock.atEnd, hend]
      exact ⟨rfl, rfl⟩
    · right
      have hsome : (s.kernel.socks c).ended ≠ none := by
        rw [hend]
        exact Option.some_ne_none e
      refine ⟨(s.kernel.socks c).reported, hwhole, hend ▸ Sock.reported_ended,
        .inr (.inl ⟨hread, Sock.reported_ended.mpr hsome, ?_⟩)⟩
      rw [Sock.atEnd, hend]
      cases e <;> rfl
  · right
    have hlen := Sock.length_chunk n (by decide : 0 < MAXBUFF) hread
    refine ⟨((s.kernel.socks c).recv MAXBUFF n).2, hwhole.recv, ?_⟩
    rw [Sock.recv_of_unread MAXBUFF n hread]
    refine ⟨Iff.rfl, ?_⟩
    dsimp only
    have hless : ((s.kernel.socks c).unread.drop ((s.kernel.socks c).count MAXBUFF n)).length <
        (s.kernel.socks c).unread.length := by
      have hpos : 0 < (s.kernel.socks c).count MAXBUFF n := Sock.count_pos
      have hlong := List.length_pos_iff.mpr hread
      rw [List.length_drop]
      omega
    generalize hchunk : (s.kernel.socks c).unread.take _ = chunk at hlen
    cases chunk with
    | nil => exact absurd hlen.1 (Nat.lt_irrefl 0)
    | cons b bs =>
      dsimp only
      split
      · next hpipe =>
        have hend :=
          (Kernel.broken_of_open (k := { s.kernel with fds := child.fds }) hfd).mp hpipe.2
        refine .inr (.inr ⟨hend, ?_⟩)
        rw [hfd]
        rfl
      · exact .inl ⟨hless, rfl⟩

/-- Who has a connection when a child is gone: all but this child, as before. -/
theorem childHas_exit {pid' c' : Nat} :
    (s.exit pid).ChildHas pid' c' ↔ pid' ≠ pid ∧ s.ChildHas pid' c' := by
  unfold ChildHas System.exit
  dsimp only
  by_cases heq : pid' = pid
  · rw [heq, Function.update_self]
    simp
  · rw [Function.update_of_ne heq]
    simp [heq]

/-- A child has the connection it works on, and no other. -/
theorem Inv.childHas_iff (h : s.Inv) (hchild : s.children pid = some child)
    (hfd : child.fds child.fd = some c) {c' : Nat} : s.ChildHas pid c' ↔ c' = c := by
  constructor
  · rintro ⟨child', hchild', fd, hfd'⟩
    rw [hchild] at hchild'
    cases hchild'
    obtain ⟨c₀, -, honly⟩ := h.works pid child hchild
    rw [honly fd c' hfd', hfd] at hfd'
    exact (Option.some.inj hfd').symm
  · rintro rfl
    exact ⟨child, hchild, child.fd, hfd⟩

/-- A read of a child. -/
theorem Inv.setSock (h : s.Inv) (hhas : s.ChildHas pid c) (hk : k.Whole) :
    ({ s with kernel := s.kernel.setSock c k } : System).Inv :=
  have hne : ∀ c', s.Free c' → c' ≠ c := fun c' hfree heq => hfree.2 pid (heq ▸ hhas)
  { h with
    kernel := h.kernel.setSock (h.admitted pid c hhas).1 hk
    closed := fun c' hin hfree hkept => by
      dsimp only
      rw [Kernel.setSock_of_ne (hne c' hfree)]
      exact h.closed c' hin hfree hkept
    dropped := fun c' hc' => by
      obtain ⟨hin, hfree, hend⟩ := h.dropped c' hc'
      refine ⟨hin, hfree, ?_⟩
      dsimp only
      rw [Kernel.setSock_of_ne (hne c' hfree)]
      exact hend }

/-- Its end frees that one. -/
theorem Inv.free_exit (h : s.Inv) (hchild : s.children pid = some child)
    (hfd : child.fds child.fd = some c) {c' : Nat} :
    (s.exit pid).Free c' ↔ c' = c ∨ s.Free c' := by
  have hhas : s.ChildHas pid c := (h.childHas_iff hchild hfd).mpr rfl
  constructor
  · rintro ⟨hnone, hothers⟩
    by_cases hcc : c' = c
    · exact .inl hcc
    · refine .inr ⟨hnone, fun pid' hhas' => hothers pid' (childHas_exit.mpr ⟨?_, hhas'⟩)⟩
      rintro rfl
      exact hcc ((h.childHas_iff hchild hfd).mp hhas')
  · rintro (rfl | hfree)
    · refine ⟨fun fd => h.apart' pid fd c' hhas, fun pid' hhas' => ?_⟩
      obtain ⟨hne, hhas'⟩ := childHas_exit.mp hhas'
      exact hne (h.apart pid' pid c' hhas' hhas)
    · exact ⟨hfree.1, fun pid' hhas' => hfree.2 pid' (childHas_exit.mp hhas').2⟩

/-- The end of a child, `lost` being whether its connection has been given up. -/
theorem Inv.exit (h : s.Inv) (hchild : s.children pid = some child)
    (hfd : child.fds child.fd = some c) (hend : (s.kernel.socks c).ended ≠ none) {lost : List Nat}
    (hlost : lost = [] ∧ (s.kernel.socks c).unread = [] ∨ lost = [c]) :
    ({ s.exit pid with dropped := s.dropped ++ lost } : System).Inv := by
  have hhas : s.ChildHas pid c := (h.childHas_iff hchild hfd).mpr rfl
  have hfree : ∀ c', Free { s.exit pid with dropped := s.dropped ++ lost } c' ↔
      c' = c ∨ s.Free c' := fun c' => h.free_exit hchild hfd
  exact
    { sound := h.sound
      parent := h.parent
      works := fun pid' child' hchild' => by
        dsimp only [System.exit] at hchild'
        by_cases heq : pid' = pid
        · rw [heq, Function.update_self] at hchild'
          cases hchild'
        · rw [Function.update_of_ne heq] at hchild'
          exact h.works pid' child' hchild'
      apart := fun pid₁ pid₂ c' h₁ h₂ =>
        h.apart pid₁ pid₂ c' (childHas_exit.mp h₁).2 (childHas_exit.mp h₂).2
      apart' := fun pid' fd c' hhas' => h.apart' pid' fd c' (childHas_exit.mp hhas').2
      kernel := h.kernel
      forking := h.forking
      admitted := fun pid' c' hhas' => h.admitted pid' c' (childHas_exit.mp hhas').2
      closed := fun c' hin hnone hkept => by
        rw [List.mem_append, not_or] at hkept
        rcases (hfree c').mp hnone with rfl | hnone
        · rcases hlost with ⟨-, hread⟩ | rfl
          · exact ⟨hread, hend⟩
          · exact absurd (List.mem_singleton_self c') hkept.2
        · exact h.closed c' hin hnone hkept.1
      dropped := fun c' hc' => by
        rcases List.mem_append.mp hc' with hc' | hc'
        · obtain ⟨hin, hnone, hend'⟩ := h.dropped c' hc'
          exact ⟨hin, (hfree c').mpr (.inr hnone), hend'⟩
        · obtain rfl : c' = c := by
            rcases hlost with ⟨rfl, -⟩ | rfl
            · cases hc'
            · exact List.mem_singleton.mp hc'
          exact ⟨h.admitted pid c' hhas, (hfree c').mpr (.inl rfl), hend⟩ }

theorem Inv.childWork (h : s.Inv) (hchild : s.children pid = some child) (n : Nat) (pipe : Bool) :
    (s.childWork pid n pipe child).Inv := by
  obtain ⟨c, hfd, -⟩ := h.works pid child hchild
  have hhas : s.ChildHas pid c := (h.childHas_iff hchild hfd).mpr rfl
  rcases childWork_cases hfd (h.kernel.whole c) pid n pipe with
    ⟨-, heq⟩ | ⟨k, hk, -, ⟨-, heq⟩ | ⟨hread, hend, heq⟩ | ⟨hend, heq⟩⟩
  · rw [heq]
    exact h
  · rw [heq]
    exact h.setSock hhas hk
  all_goals
    have hmid := h.setSock hhas hk
    rw [← Kernel.setSock_self (k := s.kernel) (c := c) k] at hend
  · rw [heq]
    rw [← Kernel.setSock_self (k := s.kernel) (c := c) k] at hread
    have hexit := hmid.exit hchild hfd hend (.inl ⟨rfl, hread⟩)
    rw [List.append_nil] at hexit
    exact hexit
  · rw [heq]
    exact hmid.exit hchild hfd hend (.inr rfl)

theorem Inv.turn (h : s.Inv) {i : Input} (hforks : s.Forks i) : (s.turn i).Inv := by
  unfold System.turn
  cases i with
  | peer e => exact h.peer e
  | accept answer =>
    dsimp only
    split
    · next hpc => exact h.accept hpc answer
    · exact h
  | fork answer =>
    dsimp only
    split
    · next acceptfd hpc =>
      unfold System.fork
      cases hpid : s.forked answer with
      | none =>
        rw [Forks, hpc] at hforks
        exact absurd hpid hforks
      | some pid => exact h.forked hpc (forked_eq_some hpid)
    · exact h
  | childWork pid n pipe =>
    dsimp only
    split
    · next child hchild => exact h.childWork hchild n pipe
    · exact h
  | sigchld =>
    have hgone : s.gone = 0 := hforks
    dsimp only
    rw [if_pos hgone]
    exact h

/-- A fork that fails leaves the parent with the connection. -/
theorem Inv.forks (h : s.Inv) {i : Input} (hnext : (s.turn i).HandedOver) : s.Forks i := by
  cases i with
  | peer e => trivial
  | accept answer => trivial
  | childWork pid n pipe => trivial
  | sigchld =>
    by_contra hgone
    have hturn : s.turn .sigchld = { s with parent := .damaged } := if_neg hgone
    rw [hturn] at hnext
    exact hnext.sound rfl
  | fork answer =>
    rw [Forks]
    cases hpc : s.parent with
    | accepting => trivial
    | exited => trivial
    | damaged => trivial
    | forking acceptfd =>
      intro hnone
      obtain ⟨c, hfd⟩ := Option.isSome_iff_exists.mp (h.forking acceptfd hpc)
      have hturn : s.turn (.fork answer) = { s with parent := .accepting } := by
        unfold System.turn System.fork
        rw [hpc]
        dsimp only
        rw [hnone]
      rw [hturn] at hnext
      have hforking := hnext.parent acceptfd c hfd
      cases hforking

theorem Inv.readToEnd (h : s.Inv) (hin : s.kernel.Admitted c) (hfree : s.Free c) :
    s.ReadToEnd c ∨ c ∈ s.dropped := by
  by_cases hkept : c ∈ s.dropped
  · exact .inr hkept
  · obtain ⟨hread, hend⟩ := h.closed c hin hfree hkept
    have hwhole := h.kernel.whole c
    rw [Sock.Whole, hread, List.append_nil] at hwhole
    exact .inl ⟨hwhole, hend⟩

theorem Inv.handedOver (h : s.Inv) : s.HandedOver where
  sound := h.sound
  parent := h.parent
  works := h.works
  apart := h.apart
  apart' := h.apart'
  held c hin := by
    by_cases hfd : ∃ fd, s.kernel.fds fd = some c
    · exact .inl hfd
    by_cases hchild : ∃ pid, s.ChildHas pid c
    · exact .inr (.inl hchild)
    · exact .inr (.inr (h.readToEnd hin ⟨not_exists.mp hfd, not_exists.mp hchild⟩))
  dropped c hc := (h.dropped c hc).2

end System

/-- **Connections are handed over** exactly while no `fork` fails and SIGCHLD does no harm. -/
theorem handedOver_iff (listenfd : Nat) (is : List Input) :
    (processServer listenfd).EveryState is System.HandedOver ↔
      (processServer listenfd).EveryStep is System.Forks :=
  Machine.everyState_iff_guard_of (P := System.Inv) (fun _ h => h.handedOver)
    (System.Inv.init listenfd) (fun _ _ h hforks => h.turn hforks)
    fun _ _ h hnext => h.forks hnext

end LearnNotes.Web.ProcessServer
