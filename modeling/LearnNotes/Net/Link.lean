import LearnNotes.Lib.Machine
import LearnNotes.Net.Endpoint

/-!
# The loops of `tcp_client` and `tcp_server` on one connection

Their calls come in any order: the client types a line, sends it with `hsend` and waits in `hrecv`;
the server waits in `hrecv` and answers; SIGINT ends the client between two of its calls. `send` and
`recv` cut the bytes as they like. A step is a call that has returned; `hrecv` returns when its
bytes have come or the peer has closed.

The client's packets have `MAXSBUF` bytes and `recvbuff` has `MAXRBUF`, so what comes of a message
is the compiler's: `slack` is how many bytes behind `recvbuff` nothing else uses, and a message that
overwrites more ends in `damaged`.

A `send` that raises SIGPIPE is one that fails. The client sends the 10 bytes behind its `msg` along
with it, whatever is there; a line that `fscanf` stores past its end is left out. The server's
`timepoint` is never set: the answer is what `ctime` makes of it, where that is a text that
`sendbuff` holds. What is printed is left out, with what `printf` reads behind a full `recvbuff`.
-/

namespace LearnNotes.Net

open Lib

abbrev Packet := hpack_t × List UInt8

inductive Client where
  /-- At the top of the loop, before `fscanf`. -/
  | typing (hpt : hpack_t)
  /-- In `hrecv`. -/
  | waiting (hpt : hpack_t)
  | gone

inductive Server where
  | serving (hpt : hpack_t)
  /-- Behind its loop. -/
  | left
  /-- A message has overwritten more than `recvbuff`, and the code determines nothing further. -/
  | damaged
  deriving DecidableEq

/-- Both ends, the bytes between them, and the packets each has sent and received. -/
structure Link where
  client : Client
  server : Server
  up : List UInt8 := []
  down : List UInt8 := []
  sent : List Packet := []
  received : List Packet := []
  answers : List Packet := []
  returned : List Packet := []

/-- A step of one end; what the calls in it are answered, and how long `hsend` may take. -/
inductive Call where
  | line (msg : Vector UInt8 MAXSBUF) (timepoint : Int64) (σ : Schedule) (fuel : Nat)
  | reply (ρ : Schedule)
  | sigint
  | serve (ρ : Schedule) (text : Vector UInt8 MAXSBUF) (timepoint : Int64) (σ : Schedule)
      (fuel : Nat)

/-- `hrecv` does not wait: the peer has closed, or the header and what is read behind it have
come. -/
def returns (e : Endian) (closed : Bool) (hpt : hpack_t) (bytes : List UInt8) : Bool :=
  closed || decide (HPACK_SIZE ≤ bytes.length) &&
    let hd := (recvHeader e (fun _ => some HPACK_SIZE) hpt ⟨0, bytes⟩).1
    !dencrypt_fn hd ||
      decide (HPACK_SIZE + (toInt hd.packet_size.toNat).toNat ≤ bytes.length)

namespace Link

variable (e : Endian) (slack : Nat)

/-- The client's loop, down to the end of `hsend`. -/
def line (msg : Vector UInt8 MAXSBUF) (timepoint : Int64) (σ : Schedule) (fuel : Nat) (s : Link) :
    Link :=
  match s.client with
  | .typing hpt =>
    let hd := Endpoint.tcp_client.header msg timepoint hpt
    match hsend e σ fuel msg.toList hd ⟨0, s.up⟩ with
    | none => s
    | some (ret, hpt, out) =>
      if ret = -1 then { s with client := .gone, up := out.wire }
      else
        { s with
          client := .waiting hpt, up := out.wire, sent := s.sent ++ [(hd, msg.toList)] }
  | _ => s

/-- The server has closed the connection. -/
def hungUp (s : Link) : Bool := s.server = .left

/-- The rest of it. -/
def reply (ρ : Schedule) (s : Link) : Link :=
  match s.client with
  | .waiting hpt =>
    if returns e s.hungUp hpt s.down then
      let r := hrecv e ρ dencrypt_fn hpt ⟨0, s.down⟩
      let s := { s with client := .typing r.hd, down := r.io.rest }
      if r.ret ≤ 0 then s else { s with returned := s.returned ++ [(r.hd, r.msg)] }
    else s
  | _ => s

/-- `SigCatch`. -/
def sigint (s : Link) : Link := { s with client := .gone }

def closed (s : Link) : Bool :=
  match s.client with
  | .gone => true
  | _ => false

/-- The server's loop. -/
def serve (ρ : Schedule) (text : Vector UInt8 MAXSBUF) (timepoint : Int64) (σ : Schedule)
    (fuel : Nat) (s : Link) : Link :=
  match s.server with
  | .serving hpt =>
    if returns e s.closed hpt s.up then
      let r := hrecv e ρ dencrypt_fn hpt ⟨0, s.up⟩
      if MAXRBUF + slack < r.msg.length then { s with server := .damaged, up := r.io.rest }
      else if r.ret = -1 then { s with server := .serving r.hd, up := r.io.rest }
      else if r.ret = 0 then { s with server := .left, up := r.io.rest }
      else
        let hd := Endpoint.tcp_server.header text timepoint r.hd
        match hsend e σ fuel text.toList hd ⟨0, s.down⟩ with
        | none => s
        | some (ret, hpt, out) =>
          { s with
            server := .serving hpt, up := r.io.rest, down := out.wire
            received := s.received ++ [(r.hd, r.msg)]
            answers := if ret = -1 then s.answers else s.answers ++ [(hd, text.toList)] }
    else s
  | _ => s

def call (s : Link) : Call → Link
  | .line msg timepoint σ fuel => s.line e msg timepoint σ fuel
  | .reply ρ => s.reply e ρ
  | .sigint => s.sigint
  | .serve ρ text timepoint σ fuel => s.serve e slack ρ text timepoint σ fuel

end Link

/-- The connection, with the headers as they are in memory before the loops. -/
def conversation (e : Endian) (slack : Nat) (client server : hpack_t) : Machine Link Call Unit where
  init := { client := .typing client, server := .serving server }
  step s c := ((), s.call e slack c)

/-- The word typed fits the client's `msg`, and none of the step's calls of `send` and `recv`
fails. -/
def Call.NoError : Call → Prop
  | .line msg _ σ _ => 0 ∈ msg.toList.take MAXRBUF ∧ NoErrors σ
  | .reply ρ => NoErrors ρ
  | .sigint => True
  | .serve ρ _ _ σ _ => NoErrors ρ ∧ NoErrors σ

/-! ## Packets -/

/-- A packet as the loop of `ep` makes it. -/
structure Made (ep : Endpoint) (p : Packet) : Prop where
  flags : p.1.flags = ep.flags
  size : p.1.packet_size = UInt32.ofNat MAXSBUF
  check : p.1.check = crc32 p.2 0
  sendable : Sendable p

/-- The packets of one end, their sequence numbers counting on by two. -/
def Numbered (ep : Endpoint) (first : UInt16) (ps : List Packet) : Prop :=
  ∀ k p, ps[k]? = some p → Made ep p ∧ p.1.packet_seq = first + UInt16.ofNat (2 * k)

section Packets

variable {e : Endian} {ep : Endpoint} {msg : Vector UInt8 MAXSBUF} {timepoint : Int64}
  {hpt : hpack_t} {σ ρ : Schedule}

theorem made_header (ep : Endpoint) (msg : Vector UInt8 MAXSBUF) (timepoint : Int64)
    (hpt : hpack_t) : Made ep (ep.header msg timepoint hpt, msg.toList) := by
  refine ⟨rfl, rfl, rfl, ⟨?_, ?_, rfl⟩⟩
  · rw [Vector.length_toList]
    rfl
  · rw [Endpoint.packet_size_header]
    decide

/-- `hsend` of a packet that is `Sendable`: it is on the stream behind what was there. -/
theorem hsend_returned (hσ : NoErrors σ) {p : Packet} (hp : Sendable p) {fuel : Nat} {ret : Int}
    {hd : hpack_t} {wire : List UInt8} {out : Outgoing}
    (h : hsend e σ fuel p.2 p.1 ⟨0, wire⟩ = some (ret, hd, out)) :
    ret ≠ -1 ∧ hd = { p.1 with packet_size := htonl e p.1.packet_size } ∧
      out.wire = wire ++ packet e p.1 p.2 := by
  rw [hsend_eq hp] at h
  obtain ⟨⟨ret', out'⟩, hw, heq⟩ := Option.map_eq_some_iff.mp h
  obtain ⟨rfl, rfl, rfl⟩ : ret' = ret ∧ _ = hd ∧ out' = out := by simpa using heq
  obtain ⟨hret, hwire⟩ := swriteLoop_returned hσ hw
  exact ⟨by omega, rfl, hwire⟩

/-- `hrecv` of one. -/
theorem hrecv_sendable (hρ : NoErrors ρ) {p : Packet} (hp : Sendable p) (hd₀ : hpack_t) :
    ∃ calls, hrecv e ρ dencrypt_fn hd₀ ⟨0, packet e p.1 p.2⟩ =
      ⟨p.1.packet_size.toNat, p.2, p.1, ⟨calls, []⟩⟩ := by
  have hfn : dencrypt_fn p.1 = true := beq_iff_eq.mpr hp.version.symm
  have hsize : p.1.packet_size.toNat < 2 ^ 31 := by
    have := hp.fits
    omega
  have h := hrecv_packet (e := e) hρ hd₀ 0 [] hfn hp.length hsize
  rwa [List.append_nil] at h

theorem returns_packet {p : Packet} (hp : Sendable p) (closed : Bool) (hpt : hpack_t) :
    returns e closed hpt (packet e p.1 p.2) = true := by
  have hrecv : NoErrors fun _ => some HPACK_SIZE := fun _ => Option.some_ne_none _
  obtain ⟨calls, hhead⟩ := recvHeader_packet (e := e) hrecv p.1 hpt 0 p.2
  have hsize : p.1.packet_size.toNat < 2 ^ 31 := by
    have := hp.fits
    omega
  unfold returns
  rw [hhead]
  dsimp only
  rw [length_packet, hp.length, toInt_of_lt hsize, Int.toNat_natCast,
    decide_eq_true (Nat.le_add_right ..), decide_eq_true le_rfl, Bool.or_true, Bool.and_self,
    Bool.or_true]

/-- With nothing there `hrecv` waits for the peer to close. -/
theorem returns_nil (closed : Bool) (hpt : hpack_t) : returns e closed hpt [] = closed := by
  unfold returns
  rw [decide_eq_false (by decide), Bool.false_and, Bool.or_false]

theorem packet_ne_nil (p : Packet) : packet e p.1 p.2 ≠ [] := by
  intro hnil
  have hlen := congrArg List.length hnil
  rw [length_packet, List.length_nil] at hlen
  have : HPACK_SIZE = 40 := rfl
  omega

/-! ## A stream that has ended -/

/-- The header `hrecv` examines when nothing came: the caller's. -/
def stale (e : Endian) (hpt : hpack_t) : hpack_t :=
  { hpt with packet_size := ntohl e hpt.packet_size }

theorem sread_ended (hρ : NoErrors ρ) {size : Int} (h : 0 < size) (calls : Nat) :
    sread ρ size ⟨calls, []⟩ = (0, [], ⟨calls + 1, []⟩) := by
  obtain ⟨n, rfl⟩ : ∃ n : Nat, size = (n + 1 : Nat) := ⟨(size - 1).toNat, by omega⟩
  have hrecv : recv ρ (n + 1) ⟨calls, []⟩ = (some [], ⟨calls + 1, []⟩) := by
    unfold recv
    cases hn : ρ calls with
    | none => exact absurd hn (hρ calls)
    | some m => simp
  unfold sread
  rw [Int.toNat_natCast, sreadLoop, if_neg (Nat.succ_ne_zero n), hrecv]
  simp

theorem recvHeader_ended (hρ : NoErrors ρ) (hpt : hpack_t) :
    recvHeader e ρ hpt ⟨0, []⟩ = (stale e hpt, ⟨1, []⟩) := by
  have hread := sread_ended hρ (show (0 : Int) < (HPACK_SIZE : Nat) by decide) 0
  unfold recvHeader
  rw [hread]
  dsimp only
  rw [List.nil_append, List.length_nil, List.drop_zero, ofBytes_toBytes]
  rfl

/-- The result is 0 where the header is accepted and its size is no negative `int`. -/
theorem hrecv_ended (hρ : NoErrors ρ) (hpt : hpack_t) :
    ∃ calls, hrecv e ρ dencrypt_fn hpt ⟨0, []⟩ =
      ⟨if dencrypt_fn (stale e hpt) then min (toInt (stale e hpt).packet_size.toNat) 0 else -1, [],
        stale e hpt, ⟨calls, []⟩⟩ := by
  have hhead := recvHeader_ended (e := e) hρ hpt
  cases hfn : dencrypt_fn (stale e hpt) with
  | false => exact ⟨1, hrecv_of_rejected hhead hfn⟩
  | true =>
    rcases lt_or_ge 0 (toInt (stale e hpt).packet_size.toNat) with hpos | hneg
    · rw [if_pos rfl, min_eq_right (by omega)]
      exact ⟨2, hrecv_of_accepted hhead hfn (sread_ended hρ hpos 1)⟩
    · rw [if_pos rfl, min_eq_left hneg]
      exact ⟨1, hrecv_of_accepted hhead hfn (sread_nonpos hneg)⟩

/-- A header that would be accepted, and answered, when nothing came. -/
def Phantom (e : Endian) (hpt : hpack_t) : Prop :=
  dencrypt_fn (stale e hpt) = true ∧ toInt (stale e hpt).packet_size.toNat < -1

instance (e : Endian) (hpt : hpack_t) : Decidable (Phantom e hpt) :=
  inferInstanceAs (Decidable (_ ∧ _))

theorem bytes32_little (x : UInt32) : bytes32 .little x = (bytes32 .big x).reverse :=
  (List.reverse_reverse _).symm

theorem word32_big_reverse {bs : List UInt8} (h : bs.length = 4) :
    word32 .big bs.reverse = word32 .little bs := by
  unfold word32 Bytes.get
  rw [List.take_of_length_le (by simp [h]), List.reverse_reverse]

@[simp] theorem ntohl_ntohl (x : UInt32) : ntohl e (ntohl e x) = x := by
  cases e with
  | big =>
    have h : ∀ y, ntohl .big y = y := fun y => by
      unfold ntohl
      rw [← List.append_nil (bytes32 .big y), word32_append]
    rw [h, h]
  | little =>
    unfold ntohl
    rw [bytes32_little (word32 _ _), bytes32_word32 .big (length_bytes32 .little x),
      word32_big_reverse (length_bytes32 .little x), ← List.append_nil (bytes32 .little x),
      word32_append]

@[simp] theorem stale_stale (hpt : hpack_t) : stale e (stale e hpt) = hpt := by
  unfold stale
  rw [ntohl_ntohl]

/-- What `hsend` leaves of a packet's header is the packet's, examined. -/
theorem stale_sent (hd : hpack_t) :
    stale e { hd with packet_size := htonl e hd.packet_size } = hd := by
  unfold stale
  rw [ntohl_htonl]

theorem Made.toNat_size {p : Packet} (h : Made ep p) : p.1.packet_size.toNat = MAXSBUF := by
  rw [h.size]
  rfl

/-- The header of a packet is no phantom, as the loop made it or as `hsend` leaves it. -/
theorem Made.not_phantom {p : Packet} (h : Made ep p) :
    ¬ Phantom e p.1 ∧ ¬ Phantom e { p.1 with packet_size := htonl e p.1.packet_size } := by
  constructor
  · rintro ⟨-, hneg⟩
    have hsize : (stale e p.1).packet_size = ntohl e (UInt32.ofNat MAXSBUF) := by
      rw [← h.size]
      rfl
    rw [hsize] at hneg
    revert hneg
    cases e <;> decide
  · rintro ⟨-, hneg⟩
    rw [stale_sent, h.toNat_size] at hneg
    revert hneg
    decide

theorem numbered_snoc {first : UInt16} {ps : List Packet} {p : Packet} (h : Numbered ep first ps)
    (hp : Made ep p) (hseq : p.1.packet_seq = first + UInt16.ofNat (2 * ps.length)) :
    Numbered ep first (ps ++ [p]) := by
  intro k q hq
  rcases lt_or_ge k ps.length with hk | hk
  · rw [List.getElem?_append_left hk] at hq
    exact h k q hq
  · rw [List.getElem?_append_right hk] at hq
    obtain ⟨hk0, rfl⟩ : k - ps.length = 0 ∧ p = q := by
      rw [List.getElem?_singleton] at hq
      split at hq
      · next h0 => exact ⟨h0, Option.some.inj hq⟩
      · cases hq
    obtain rfl : k = ps.length := by omega
    exact ⟨hp, hseq⟩

theorem Numbered.last {first : UInt16} {ps : List Packet} {p : Packet}
    (h : Numbered ep first (ps ++ [p])) :
    Made ep p ∧ p.1.packet_seq = first + UInt16.ofNat (2 * ps.length) :=
  h ps.length p (by simp)

end Packets

end LearnNotes.Net
