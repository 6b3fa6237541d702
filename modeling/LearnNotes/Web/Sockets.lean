import Mathlib.Data.List.Basic
import Mathlib.Data.UInt
import Mathlib.Logic.Function.Basic

/-!
# The sockets behind the servers

What the kernel does for the event loops of `web/`. A connection is a number; its `Sock` has what
the peer has sent, what of it has been given out and what is still unread. New connections wait in
`backlog` until `accept` gives them a descriptor, and `fds` is the table of the process. `recv` has
something to give as long as anything is unread, be the stream ended or not. What the servers send
is left out, but for SIGPIPE, which sending to a peer that has ended its stream may raise: `broken`.
`Kernel.Ok` is what all of this keeps; the addresses are left out.
-/

namespace LearnNotes.Web

/-- How a peer ends its stream: orderly, by a reset or with another error. -/
inductive Ending where
  | closed
  | reset
  | failed (code : Nat)
  deriving DecidableEq

inductive Errno where
  | EAGAIN
  | EBADF
  | ECONNRESET
  | other (code : Nat)
  deriving DecidableEq

structure Sock where
  sent : List UInt8 := []
  received : List UInt8 := []
  unread : List UInt8 := []
  ended : Option Ending := none

namespace Sock

/-- `recv` would not block. -/
def readable (k : Sock) : Bool := !k.unread.isEmpty || k.ended.isSome

/-- The peer sends, unless it has ended the stream. -/
def send (bs : List UInt8) (k : Sock) : Sock :=
  if k.ended.isSome then k
  else { k with sent := k.sent ++ bs, unread := k.unread ++ bs }

def finish (e : Ending) (k : Sock) : Sock :=
  if k.ended.isSome then k else { k with ended := some e }

/-- What a `recv` that does not block returns where nothing is unread. -/
def atEnd (k : Sock) : Except Errno (List UInt8) :=
  match k.ended with
  | none => .error .EAGAIN
  | some .closed => .ok []
  | some .reset => .error .ECONNRESET
  | some (.failed code) => .error (.other code)

/-- An error is reported once; then the stream is at its end. -/
def reported (k : Sock) : Sock := { k with ended := k.ended.map fun _ => .closed }

/-- How many bytes a `recv` into `size` bytes gives out: one at least, and `n` where that is
possible. -/
def count (size n : Nat) (k : Sock) : Nat := max 1 (min n (min size k.unread.length))

/-- `recv` on a socket that does not block. -/
def recv (size n : Nat) (k : Sock) : Except Errno (List UInt8) × Sock :=
  if k.unread.isEmpty then (k.atEnd, k.reported)
  else
    let bs := k.unread.take (k.count size n)
    (.ok bs, { k with
      received := k.received ++ bs
      unread := k.unread.drop (k.count size n) })

/-- All that was sent has been given out or is unread, in the order it was sent. -/
def Whole (k : Sock) : Prop := k.received ++ k.unread = k.sent

variable {k : Sock} {bs : List UInt8} {e : Ending} {size n : Nat}

theorem readable_iff : k.readable = true ↔ k.unread ≠ [] ∨ k.ended ≠ none := by
  rw [readable, Bool.or_eq_true, Bool.not_eq_true', List.isEmpty_eq_false_iff,
    Option.isSome_iff_ne_none]

theorem not_readable_iff : k.readable = false ↔ k.unread = [] ∧ k.ended = none := by
  rw [← Bool.not_eq_true, readable_iff, not_or, not_not, not_not]

theorem readable_send (h : k.readable = true) : (k.send bs).readable = true := by
  unfold Sock.send
  split
  · exact h
  · rw [readable_iff] at h ⊢
    exact h.imp_left fun hne hnil => hne (List.append_eq_nil_iff.mp hnil).1

theorem readable_finish (h : k.readable = true) : (k.finish e).readable = true := by
  unfold Sock.finish
  split
  · exact h
  · rw [readable_iff]
    exact .inr (Option.some_ne_none e)

theorem Whole.send (h : k.Whole) : (k.send bs).Whole := by
  unfold Sock.send
  split
  · exact h
  · rw [Whole, ← h, List.append_assoc]

theorem Whole.finish (h : k.Whole) : (k.finish e).Whole := by
  unfold Sock.finish
  split
  · exact h
  · exact h

theorem recv_of_unread (size n : Nat) (h : k.unread ≠ []) :
    k.recv size n = (.ok (k.unread.take (k.count size n)),
      { k with
        received := k.received ++ k.unread.take (k.count size n)
        unread := k.unread.drop (k.count size n) }) := by
  rw [recv, if_neg (by rwa [List.isEmpty_iff])]

theorem recv_of_read (size n : Nat) (h : k.unread = []) :
    k.recv size n = (k.atEnd, k.reported) := by
  rw [recv, if_pos (by rwa [List.isEmpty_iff])]

theorem reported_of_open (h : k.ended = none) : k.reported = k := by
  unfold reported
  rw [h, Option.map_none, ← h]

theorem reported_ended : k.reported.ended ≠ none ↔ k.ended ≠ none :=
  not_congr Option.map_eq_none_iff

theorem count_pos : 0 < k.count size n := Nat.lt_of_lt_of_le Nat.one_pos (Nat.le_max_left ..)

theorem count_le (h : 0 < size) : k.count size n ≤ size := by
  unfold count
  omega

theorem count_le_unread (h : k.unread ≠ []) : k.count size n ≤ k.unread.length := by
  have := List.length_pos_iff.mpr h
  unfold count
  omega

/-- A chunk has at least one byte, and no more than there is room for. -/
theorem length_chunk (n : Nat) (hsize : 0 < size) (h : k.unread ≠ []) :
    0 < (k.unread.take (k.count size n)).length ∧
      (k.unread.take (k.count size n)).length ≤ size := by
  rw [List.length_take_of_le (count_le_unread h)]
  exact ⟨count_pos, count_le hsize⟩

theorem Whole.recv (h : k.Whole) : (k.recv size n).2.Whole := by
  unfold Sock.recv
  split
  · exact h
  · rw [Whole, List.append_assoc, List.take_append_drop]
    exact h

end Sock

/-! ## Connections and descriptors -/

/-- Connections are numbered as the clients make them. -/
structure Kernel where
  socks : Nat → Sock := fun _ => {}
  made : Nat := 0
  backlog : List Nat := []
  fds : Nat → Option Nat := fun _ => none

/-- What the clients do. -/
inductive PeerEvent where
  | connect
  | send (c : Nat) (bs : List UInt8)
  | finish (c : Nat) (e : Ending)

/-- The connection something happens to. -/
def PeerEvent.conn : PeerEvent → Option Nat
  | .connect => none
  | .send c _ => some c
  | .finish c _ => some c

namespace Kernel

def setSock (c : Nat) (s : Sock) (k : Kernel) : Kernel :=
  { k with socks := Function.update k.socks c s }

def peer (k : Kernel) : PeerEvent → Kernel
  | .connect => { k with made := k.made + 1, backlog := k.backlog ++ [k.made] }
  | .send c bs => if c < k.made then k.setSock c ((k.socks c).send bs) else k
  | .finish c e => if c < k.made then k.setSock c ((k.socks c).finish e) else k

/-- The descriptor `accept` gives, or -1: one that is not in use, for the oldest connection that
waits. `used` are the other descriptors of the process. -/
def acceptfd (used : List Nat) (answer : Option Nat) (k : Kernel) : Option (Nat × Nat) :=
  match answer, k.backlog with
  | some fd, c :: _ => if fd ∈ used ∨ (k.fds fd).isSome then none else some (fd, c)
  | _, _ => none

/-- The descriptor is given to the connection at the front of the queue. -/
def install (fd c : Nat) (k : Kernel) : Kernel :=
  { k with backlog := k.backlog.tail, fds := Function.update k.fds fd (some c) }

/-- `recv` or `read` on a descriptor. -/
def recv (size n fd : Nat) (k : Kernel) : Except Errno (List UInt8) × Kernel :=
  match k.fds fd with
  | none => (.error .EBADF, k)
  | some c => (((k.socks c).recv size n).1, k.setSock c ((k.socks c).recv size n).2)

/-- `send` or `write` on a descriptor may raise SIGPIPE: the peer has ended its stream. -/
def broken (fd : Nat) (k : Kernel) : Bool :=
  match k.fds fd with
  | none => false
  | some c => (k.socks c).ended.isSome

def close (fd : Nat) (k : Kernel) : Kernel := { k with fds := Function.update k.fds fd none }

/-- A connection has one place: it waits, or has one descriptor. Nothing that was sent is lost,
given out twice or out of order. -/
structure Ok (used : List Nat) (k : Kernel) : Prop where
  fresh : ∀ c, k.made ≤ c → k.socks c = {}
  waits : ∀ c ∈ k.backlog, c < k.made
  once : k.backlog.Nodup
  opened : ∀ fd c, k.fds fd = some c → c < k.made ∧ c ∉ k.backlog
  inj : ∀ fd fd' c, k.fds fd = some c → k.fds fd' = some c → fd = fd'
  unused : ∀ fd ∈ used, k.fds fd = none
  whole : ∀ c, (k.socks c).Whole

variable {used : List Nat} {k : Kernel} {fd c size n : Nat} {answer : Option Nat}

theorem setSock_self (s : Sock) : (k.setSock c s).socks c = s := Function.update_self ..

theorem setSock_of_ne {c' : Nat} (h : c' ≠ c) (s : Sock) :
    (k.setSock c s).socks c' = k.socks c' := Function.update_of_ne h ..

theorem Ok.init (used : List Nat) : ({} : Kernel).Ok used where
  fresh _ _ := rfl
  waits _ := by rintro ⟨⟩
  once := List.nodup_nil
  opened _ _ := by rintro ⟨⟩
  inj _ _ _ := by rintro ⟨⟩
  unused _ _ := rfl
  whole _ := rfl

theorem whole_setSock (h : ∀ c, (k.socks c).Whole) {s : Sock} (hs : s.Whole) (c' : Nat) :
    ((k.setSock c s).socks c').Whole := by
  by_cases hne : c' = c
  · rw [hne, setSock_self]
    exact hs
  · rw [setSock_of_ne hne]
    exact h c'

theorem Ok.setSock (h : k.Ok used) (hc : c < k.made) {s : Sock} (hs : s.Whole) :
    (k.setSock c s).Ok used :=
  { h with
    fresh := fun c' hc' => by
      have hne : c' ≠ c := Nat.ne_of_gt (Nat.lt_of_lt_of_le hc hc')
      rw [setSock_of_ne hne]
      exact h.fresh c' hc'
    whole := whole_setSock h.whole hs }

/-- What the clients do keeps every stream whole. -/
theorem whole_peer (h : ∀ c, (k.socks c).Whole) (e : PeerEvent) (c : Nat) :
    ((k.peer e).socks c).Whole := by
  cases e with
  | connect => exact h c
  | send c' bs =>
    unfold peer
    dsimp only
    split
    · exact whole_setSock h (h c').send c
    · exact h c
  | finish c' e =>
    unfold peer
    dsimp only
    split
    · exact whole_setSock h (h c').finish c
    · exact h c

theorem Ok.connect (h : k.Ok used) : (k.peer .connect).Ok used where
  fresh c hc := h.fresh c (Nat.le_of_succ_le hc)
  waits c hc := by
    rcases List.mem_append.mp hc with hc | hc
    · exact Nat.lt_succ_of_lt (h.waits c hc)
    · rw [List.mem_singleton.mp hc]
      exact Nat.lt_succ_self _
  once := by
    refine List.nodup_append.mpr ⟨h.once, List.nodup_singleton _, fun c hc c' hc' => ?_⟩
    rw [List.mem_singleton.mp hc']
    exact Nat.ne_of_lt (h.waits c hc)
  opened fd c hfd := by
    obtain ⟨hlt, hnot⟩ := h.opened fd c hfd
    refine ⟨Nat.lt_succ_of_lt hlt, fun hc => ?_⟩
    rcases List.mem_append.mp hc with hc | hc
    · exact hnot hc
    · exact Nat.ne_of_lt hlt (List.mem_singleton.mp hc)
  inj := h.inj
  unused := h.unused
  whole := h.whole

theorem Ok.peer (h : k.Ok used) (e : PeerEvent) : (k.peer e).Ok used := by
  cases e with
  | connect => exact h.connect
  | send c bs =>
    unfold Kernel.peer
    dsimp only
    split
    · next hc => exact h.setSock hc (h.whole c).send
    · exact h
  | finish c e =>
    unfold Kernel.peer
    dsimp only
    split
    · next hc => exact h.setSock hc (h.whole c).finish
    · exact h

theorem acceptfd_eq_some (h : k.acceptfd used answer = some (fd, c)) :
    answer = some fd ∧ k.backlog = c :: k.backlog.tail ∧ fd ∉ used ∧ k.fds fd = none := by
  unfold acceptfd at h
  split at h
  · next fd' c' cs hback =>
    split at h
    · cases h
    · next hnew =>
      rw [Option.some.injEq, Prod.mk.injEq] at h
      obtain ⟨rfl, rfl⟩ := h
      obtain ⟨hused, hopen⟩ := not_or.mp hnew
      refine ⟨rfl, by rw [hback]; rfl, hused, ?_⟩
      rwa [Option.not_isSome_iff_eq_none] at hopen
  · cases h

theorem fds_install_self : (k.install fd c).fds fd = some c := Function.update_self ..

theorem fds_install_of_ne {fd' : Nat} (h : fd' ≠ fd) : (k.install fd c).fds fd' = k.fds fd' :=
  Function.update_of_ne h ..

/-- A descriptor in use is not the one `accept` gives. -/
theorem ne_of_isSome {fd' : Nat} (hfree : k.fds fd = none) (hopen : (k.fds fd').isSome = true) :
    fd' ≠ fd := by
  rintro rfl
  rw [hfree] at hopen
  cases hopen

/-- `accept` leaves the descriptors in use as they are. -/
theorem fds_install_of_open {fd' c' : Nat} (hfree : k.fds fd = none)
    (hopen : k.fds fd' = some c') : (k.install fd c).fds fd' = some c' := by
  rw [fds_install_of_ne (ne_of_isSome hfree (Option.isSome_of_eq_some hopen))]
  exact hopen

theorem fds_close_self : (k.close fd).fds fd = none := Function.update_self ..

theorem fds_close_of_ne {fd' : Nat} (h : fd' ≠ fd) : (k.close fd).fds fd' = k.fds fd' :=
  Function.update_of_ne h ..

/-- What is open after `accept` was open before, or is the new one. -/
theorem fds_install_eq_some {fd' c' : Nat} :
    (k.install fd c).fds fd' = some c' →
      fd' = fd ∧ c' = c ∨ fd' ≠ fd ∧ k.fds fd' = some c' := by
  intro h
  by_cases hfd : fd' = fd
  · rw [hfd, fds_install_self] at h
    exact .inl ⟨hfd, (Option.some.inj h).symm⟩
  · rw [fds_install_of_ne hfd] at h
    exact .inr ⟨hfd, h⟩

theorem fds_close_eq_some {fd' c' : Nat} :
    (k.close fd).fds fd' = some c' ↔ fd' ≠ fd ∧ k.fds fd' = some c' := by
  by_cases hfd : fd' = fd
  · rw [hfd, fds_close_self]
    exact iff_of_false (fun h => nomatch h) fun h => h.1 rfl
  · rw [fds_close_of_ne hfd]
    exact (and_iff_right hfd).symm

theorem Ok.install (h : k.Ok used) (hacc : k.acceptfd used answer = some (fd, c)) :
    (k.install fd c).Ok used := by
  obtain ⟨-, hback, hused, hfree⟩ := acceptfd_eq_some hacc
  have hnodup := h.once
  rw [hback, List.nodup_cons] at hnodup
  have hc : c ∈ k.backlog := hback ▸ List.mem_cons_self
  exact
    { fresh := h.fresh
      waits := fun c' hc' => h.waits c' (List.mem_of_mem_tail hc')
      once := hnodup.2
      opened := fun fd' c' hfd => by
        rcases fds_install_eq_some hfd with ⟨rfl, rfl⟩ | ⟨-, hold⟩
        · exact ⟨h.waits c' hc, hnodup.1⟩
        · obtain ⟨hlt, hnot⟩ := h.opened fd' c' hold
          exact ⟨hlt, fun hmem => hnot (List.mem_of_mem_tail hmem)⟩
      inj := fun fd₁ fd₂ c' h₁ h₂ => by
        rcases fds_install_eq_some h₁ with ⟨rfl, rfl⟩ | ⟨-, hold₁⟩ <;>
          rcases fds_install_eq_some h₂ with ⟨rfl, heq⟩ | ⟨-, hold₂⟩
        · rfl
        · exact absurd hc (h.opened fd₂ c' hold₂).2
        · exact absurd (heq ▸ hc) (h.opened fd₁ c' hold₁).2
        · exact h.inj fd₁ fd₂ c' hold₁ hold₂
      unused := fun fd' hfd' => by
        have hne : fd' ≠ fd := fun heq => by
          rw [heq] at hfd'
          exact hused hfd'
        rw [fds_install_of_ne hne]
        exact h.unused fd' hfd'
      whole := h.whole }

theorem Ok.close (h : k.Ok used) (fd : Nat) : (k.close fd).Ok used where
  fresh := h.fresh
  waits := h.waits
  once := h.once
  opened fd' c' hfd := h.opened fd' c' (fds_close_eq_some.mp hfd).2
  inj fd₁ fd₂ c' h₁ h₂ := h.inj fd₁ fd₂ c' (fds_close_eq_some.mp h₁).2 (fds_close_eq_some.mp h₂).2
  unused fd' hfd' := by
    by_cases heq : fd' = fd
    · rw [heq, fds_close_self]
    · rw [fds_close_of_ne heq]
      exact h.unused fd' hfd'
  whole := h.whole

theorem broken_of_open (h : k.fds fd = some c) :
    k.broken fd = true ↔ (k.socks c).ended ≠ none := by
  unfold broken
  rw [h]
  exact Option.isSome_iff_ne_none

theorem recv_of_open (size n : Nat) (h : k.fds fd = some c) :
    k.recv size n fd =
      (((k.socks c).recv size n).1, k.setSock c ((k.socks c).recv size n).2) := by
  rw [recv, h]

theorem Ok.recv (h : k.Ok used) (size n fd : Nat) : (k.recv size n fd).2.Ok used := by
  cases hfd : k.fds fd with
  | none =>
    rw [Kernel.recv, hfd]
    exact h
  | some c =>
    rw [recv_of_open size n hfd]
    exact h.setSock (h.opened fd c hfd).1 (h.whole c).recv

/-- Reading opens and closes nothing. -/
theorem fds_recv (k : Kernel) (size n fd : Nat) : (k.recv size n fd).2.fds = k.fds := by
  unfold recv
  split <;> rfl

/-- The clients open and close no descriptor. -/
theorem fds_peer (k : Kernel) (e : PeerEvent) : (k.peer e).fds = k.fds := by
  cases e with
  | connect => rfl
  | send c bs =>
    unfold peer
    dsimp only
    split <;> rfl
  | finish c e =>
    unfold peer
    dsimp only
    split <;> rfl

theorem socks_peer_of_ne {e : PeerEvent} (h : e.conn ≠ some c) :
    (k.peer e).socks c = k.socks c := by
  cases e with
  | connect => rfl
  | send c' bs =>
    have hne : c ≠ c' := fun heq => h (congrArg some heq.symm)
    unfold peer
    dsimp only
    split
    · exact setSock_of_ne hne _
    · rfl
  | finish c' e =>
    have hne : c ≠ c' := fun heq => h (congrArg some heq.symm)
    unfold peer
    dsimp only
    split
    · exact setSock_of_ne hne _
    · rfl

/-- An ended stream stays as it is. -/
theorem socks_peer_of_ended (e : PeerEvent) (h : (k.socks c).ended ≠ none) :
    (k.peer e).socks c = k.socks c := by
  have hend : (k.socks c).ended.isSome = true := Option.isSome_iff_ne_none.mpr h
  by_cases hne : e.conn = some c
  · cases e with
    | connect => rfl
    | send c' bs =>
      obtain rfl : c' = c := Option.some.inj hne
      unfold peer
      dsimp only
      split
      · rw [setSock_self, Sock.send, if_pos hend]
      · rfl
    | finish c' e =>
      obtain rfl : c' = c := Option.some.inj hne
      unfold peer
      dsimp only
      split
      · rw [setSock_self, Sock.finish, if_pos hend]
      · rfl
  · exact socks_peer_of_ne hne

/-- The clients take nothing back. -/
theorem readable_peer (e : PeerEvent) (h : (k.socks c).readable = true) :
    ((k.peer e).socks c).readable = true := by
  by_cases hne : e.conn = some c
  · cases e with
    | connect => exact h
    | send c' bs =>
      obtain rfl : c' = c := Option.some.inj hne
      unfold peer
      dsimp only
      split
      · rw [setSock_self]
        exact Sock.readable_send h
      · exact h
    | finish c' e =>
      obtain rfl : c' = c := Option.some.inj hne
      unfold peer
      dsimp only
      split
      · rw [setSock_self]
        exact Sock.readable_finish h
      · exact h
  · rw [socks_peer_of_ne hne]
    exact h

theorem backlog_peer (e : PeerEvent) (h : k.backlog ≠ []) : (k.peer e).backlog ≠ [] := by
  cases e with
  | connect => exact fun hnil => h (List.append_eq_nil_iff.mp hnil).1
  | send c bs =>
    unfold peer
    dsimp only
    split <;> exact h
  | finish c e =>
    unfold peer
    dsimp only
    split <;> exact h

/-- `accept` has taken the connection. -/
def Admitted (k : Kernel) (c : Nat) : Prop := c < k.made ∧ c ∉ k.backlog

theorem not_admitted_init : ¬ ({} : Kernel).Admitted c := fun h => Nat.not_lt_zero _ h.1

/-- The clients let nobody in. -/
theorem admitted_peer (k : Kernel) (e : PeerEvent) (c : Nat) :
    (k.peer e).Admitted c ↔ k.Admitted c := by
  unfold Admitted peer
  cases e with
  | connect =>
    dsimp only
    rw [List.mem_append, List.mem_singleton, not_or]
    constructor
    · rintro ⟨hlt, hwait, hnew⟩
      exact ⟨by omega, hwait⟩
    · rintro ⟨hlt, hwait⟩
      exact ⟨by omega, hwait, by omega⟩
  | send c' bs =>
    dsimp only
    split <;> exact Iff.rfl
  | finish c' e =>
    dsimp only
    split <;> exact Iff.rfl

theorem admitted_install (h : k.Ok used) (hacc : k.acceptfd used answer = some (fd, c))
    (c' : Nat) : (k.install fd c).Admitted c' ↔ c' = c ∨ k.Admitted c' := by
  obtain ⟨-, hqueue, -, -⟩ := acceptfd_eq_some hacc
  have hwaits : c < k.made := h.waits c (hqueue ▸ List.mem_cons_self)
  have hnodup := h.once
  rw [hqueue, List.nodup_cons] at hnodup
  unfold Admitted install
  dsimp only
  rw [hqueue, List.tail_cons, List.mem_cons, not_or]
  constructor
  · rintro ⟨hlt, hwait⟩
    by_cases hcc : c' = c
    · exact .inl hcc
    · exact .inr ⟨hlt, hcc, hwait⟩
  · rintro (rfl | ⟨hlt, -, hwait⟩)
    · exact ⟨hwaits, hnodup.1⟩
    · exact ⟨hlt, hwait⟩

theorem admitted_recv (k : Kernel) (size n fd c : Nat) :
    (k.recv size n fd).2.Admitted c ↔ k.Admitted c := by
  unfold recv
  split <;> exact Iff.rfl

theorem Ok.admitted (h : k.Ok used) (hfd : k.fds fd = some c) : k.Admitted c := h.opened fd c hfd

/-! ## Connections that are closed -/

/-- A connection that was let in and has no descriptor any more was read to the end of its
stream. -/
def ClosedAtEnd (k : Kernel) : Prop :=
  ∀ c, k.Admitted c → (∀ fd, k.fds fd ≠ some c) →
    (k.socks c).unread = [] ∧ (k.socks c).ended ≠ none

theorem ClosedAtEnd.init : ({} : Kernel).ClosedAtEnd := fun _ hc => absurd hc not_admitted_init

theorem ClosedAtEnd.peer (h : k.ClosedAtEnd) (e : PeerEvent) : (k.peer e).ClosedAtEnd := by
  intro c hin hopen
  rw [admitted_peer] at hin
  rw [fds_peer] at hopen
  have hclosed := h c hin hopen
  rw [socks_peer_of_ended e hclosed.2]
  exact hclosed

/-- What happens to a connection with a descriptor. -/
theorem ClosedAtEnd.setSock (h : k.ClosedAtEnd) (hfd : k.fds fd = some c) (s : Sock) :
    (k.setSock c s).ClosedAtEnd := by
  intro c' hin hopen
  have hne : c' ≠ c := fun heq => hopen fd (heq ▸ hfd)
  rw [setSock_of_ne hne]
  exact h c' hin hopen

theorem ClosedAtEnd.install (h : k.ClosedAtEnd) (hk : k.Ok used)
    (hacc : k.acceptfd used answer = some (fd, c)) : (k.install fd c).ClosedAtEnd := by
  obtain ⟨-, -, -, hfree⟩ := acceptfd_eq_some hacc
  intro c' hin hopen
  rcases (admitted_install hk hacc c').mp hin with rfl | hin
  · exact absurd fds_install_self (hopen fd)
  · exact h c' hin fun fd' hfd' => hopen fd' (fds_install_of_open hfree hfd')

theorem ClosedAtEnd.close (h : k.ClosedAtEnd) (hfd : k.fds fd = some c)
    (hread : (k.socks c).unread = []) (hend : (k.socks c).ended ≠ none) :
    (k.close fd).ClosedAtEnd := by
  intro c' hin hopen
  by_cases hcc : c' = c
  · rw [hcc]
    exact ⟨hread, hend⟩
  · refine h c' hin fun fd' hfd' => ?_
    have hne : fd' ≠ fd := fun heq => hcc (Option.some.inj (hfd'.symm.trans (heq ▸ hfd)))
    exact hopen fd' (fds_close_eq_some.mpr ⟨hne, hfd'⟩)

/-- All that was sent has been given out, and the streams that have ended are the connections that
are closed. -/
structure Attended (k : Kernel) : Prop where
  complete : ∀ c, (k.socks c).received = (k.socks c).sent
  closed : ∀ c, c < k.made → ((k.socks c).ended ≠ none ↔ ∀ fd, k.fds fd ≠ some c)

/-- With no client waiting and nothing to be read, no connection is left unattended. -/
theorem Ok.attended (h : k.Ok used) (hclosed : k.ClosedAtEnd) (hback : k.backlog = [])
    (hquiet : ∀ fd c, k.fds fd = some c → (k.socks c).readable = false) : k.Attended := by
  have hin : ∀ c, c < k.made → k.Admitted c := fun c hmade => ⟨hmade, by
    rw [hback]
    exact List.not_mem_nil⟩
  have hunread : ∀ c, (k.socks c).unread = [] := fun c => by
    by_cases hmade : c < k.made
    · by_cases hopen : ∃ fd, k.fds fd = some c
      · obtain ⟨fd, hfd⟩ := hopen
        exact (Sock.not_readable_iff.mp (hquiet fd c hfd)).1
      · exact (hclosed c (hin c hmade) (not_exists.mp hopen)).1
    · rw [h.fresh c (Nat.le_of_not_lt hmade)]
  refine ⟨fun c => ?_, fun c hmade => ⟨fun hend fd hfd => ?_, fun hopen => ?_⟩⟩
  · have hwhole := h.whole c
    rwa [Sock.Whole, hunread c, List.append_nil] at hwhole
  · exact hend (Sock.not_readable_iff.mp (hquiet fd c hfd)).2
  · exact (hclosed c (hin c hmade) hopen).2

end Kernel

end LearnNotes.Web
