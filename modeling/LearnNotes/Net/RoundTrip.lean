import LearnNotes.Net.Transfer

/-!
# Packets across a fragmented stream

`hsend` puts a packet on the stream (`packet`) and `hrecv` takes one off it
(`hrecv_packet`). Both leave the stream at a packet boundary, so a whole list of packets
sent comes back packet by packet: `round_trip`.
-/

namespace LearnNotes.Net

open Lib

variable {e : Endian} {ρ σ : Schedule} {fn : hpack_t → Bool}

/-- A packet on the stream: the header with its size in network order, then the message. -/
def packet (e : Endian) (hd : hpack_t) (msg : List UInt8) : List UInt8 :=
  { hd with packet_size := htonl e hd.packet_size }.toBytes e ++ msg

theorem packet_take (hd : hpack_t) (msg : List UInt8) : (packet e hd msg).take HPACK_SIZE =
      { hd with packet_size := htonl e hd.packet_size }.toBytes e :=
  List.take_left' (length_toBytes e _)

theorem packet_drop (hd : hpack_t) (msg : List UInt8) : (packet e hd msg).drop HPACK_SIZE = msg :=
  List.drop_left' (length_toBytes e _)

theorem length_packet (hd : hpack_t) (msg : List UInt8) :
    (packet e hd msg).length = HPACK_SIZE + msg.length := by
  rw [packet, List.length_append, length_toBytes]

/-! ## Sizes -/

theorem toInt_of_lt {n : Nat} (h : n < 2 ^ 31) : toInt n = n := by
  unfold toInt
  rw [Int.bmod_eq_of_le (by omega) (by omega)]

theorem toInt_of_ge {n : Nat} (h : 2 ^ 31 ≤ n) (hlt : n < 2 ^ 32 + 2 ^ 31) :
    toInt n = n - (2 ^ 32 : Nat) := by
  unfold toInt
  rw [Int.bmod_eq_iff (by decide)]
  exact ⟨by omega, by omega, -1, by omega⟩

theorem toInt_neg {n : Nat} (h : 2 ^ 31 ≤ n) (hlt : n < 2 ^ 32) : toInt n < 0 := by
  rw [toInt_of_ge h (by omega)]
  omega

/-! ## Receiving one packet -/

/-- At a packet boundary the header is read as a whole, and as the sender had it. -/
theorem recvHeader_packet (hρ : NoErrors ρ) (hd hd₀ : hpack_t) (calls : Nat) (msg : List UInt8) :
    ∃ calls', recvHeader e ρ hd₀ ⟨calls, packet e hd msg⟩ = (hd, ⟨calls', msg⟩) := by
  have havail : HPACK_SIZE ≤ (packet e hd msg).length := by
    rw [length_packet]
    exact Nat.le_add_right _ _
  obtain ⟨calls', hread⟩ := sread_available hρ ⟨calls, packet e hd msg⟩ havail
  refine ⟨calls', ?_⟩
  have hold : (hd₀.toBytes e).drop HPACK_SIZE = [] :=
    List.drop_of_length_le (Nat.le_of_eq (length_toBytes e hd₀))
  simp only [packet_take, packet_drop] at hread
  unfold recvHeader
  simp only [hread, length_toBytes, hold, List.append_nil, ofBytes_toBytes, ntohl_htonl]

/-- The message is left to the second `sread`. -/
theorem hrecv_header (fn : hpack_t → Bool) (hρ : NoErrors ρ) (hd hd₀ : hpack_t) (calls : Nat)
    (msg : List UInt8) :
    ∃ calls', hrecv e ρ fn hd₀ ⟨calls, packet e hd msg⟩ =
      if !fn hd then ⟨-1, [], hd, ⟨calls', msg⟩⟩
      else
        let (ret, got, io) := sread ρ (toInt hd.packet_size.toNat) ⟨calls', msg⟩
        ⟨ret, got, hd, io⟩ := by
  obtain ⟨calls', h⟩ := recvHeader_packet (e := e) hρ hd hd₀ calls msg
  exact ⟨calls', by unfold hrecv; rw [h]⟩

theorem hrecv_rejected (hρ : NoErrors ρ) {hd : hpack_t} (hd₀ : hpack_t) (calls : Nat)
    (rest : List UInt8) (hfn : fn hd = false) :
    ∃ calls', hrecv e ρ fn hd₀ ⟨calls, packet e hd rest⟩ = ⟨-1, [], hd, ⟨calls', rest⟩⟩ := by
  obtain ⟨calls', h⟩ := hrecv_header (e := e) fn hρ hd hd₀ calls rest
  exact ⟨calls', by rw [h, hfn]; rfl⟩

/-- An accepted size past `int` reads as a negative one: the message is left unread. -/
theorem hrecv_oversized (hρ : NoErrors ρ) {hd : hpack_t} (hd₀ : hpack_t) (calls : Nat)
    (rest : List UInt8) (hfn : fn hd = true) (hsize : 2 ^ 31 ≤ hd.packet_size.toNat) :
    ∃ calls', hrecv e ρ fn hd₀ ⟨calls, packet e hd rest⟩ =
      ⟨toInt hd.packet_size.toNat, [], hd, ⟨calls', rest⟩⟩ := by
  obtain ⟨calls', h⟩ := hrecv_header (e := e) fn hρ hd hd₀ calls rest
  have hneg := toInt_neg hsize hd.packet_size.toNat_lt
  refine ⟨calls', ?_⟩
  rw [h, hfn, sread_nonpos (le_of_lt hneg)]
  rfl

/-- **One accepted packet.** -/
theorem hrecv_packet (hρ : NoErrors ρ) {hd : hpack_t} {msg : List UInt8} (hd₀ : hpack_t)
    (calls : Nat) (rest : List UInt8) (hfn : fn hd = true)
    (hlen : msg.length = hd.packet_size.toNat) (hsize : hd.packet_size.toNat < 2 ^ 31) :
    ∃ calls', hrecv e ρ fn hd₀ ⟨calls, packet e hd (msg ++ rest)⟩ =
      ⟨hd.packet_size.toNat, msg, hd, ⟨calls', rest⟩⟩ := by
  obtain ⟨calls', h⟩ := hrecv_header (e := e) fn hρ hd hd₀ calls (msg ++ rest)
  have havail : hd.packet_size.toNat ≤ (msg ++ rest).length := by
    rw [List.length_append]
    omega
  obtain ⟨calls'', hread⟩ := sread_available hρ ⟨calls', msg ++ rest⟩ havail
  refine ⟨calls'', ?_⟩
  rw [h, hfn, toInt_of_lt hsize, hread]
  dsimp only
  rw [List.take_left' hlen, List.drop_left' hlen]
  rfl

/-! ## Sending -/

/-- What the sender promises of a header and its message. -/
structure Sendable (p : hpack_t × List UInt8) : Prop where
  length : p.2.length = p.1.packet_size.toNat
  fits : HPACK_SIZE + p.1.packet_size.toNat < 2 ^ 31
  version : p.1.version = encrypt .Nd2N p.1

/-- `hsend` on each pair in turn: the results and the stream. -/
def hsendAll (e : Endian) (σ : Schedule) (fuel : Nat) :
    List (hpack_t × List UInt8) → Outgoing → Option (List Int × Outgoing)
  | [], io => some ([], io)
  | (hd, msg) :: ps, io =>
    match hsend e σ fuel msg hd io with
    | none => none
    | some (ret, _, io) => (hsendAll e σ fuel ps io).map fun r => (ret :: r.1, r.2)

/-- `hrecv` again and again into one header object: what each call leaves, and the stream. -/
def hrecvAll (e : Endian) (ρ : Schedule) (fn : hpack_t → Bool) :
    Nat → hpack_t → Incoming → List Received × Incoming
  | 0, _, io => ([], io)
  | n + 1, hd, io =>
    let r := hrecv e ρ fn hd io
    let (rs, io) := hrecvAll e ρ fn n r.hd r.io
    (r :: rs, io)

/-- The packets of a stream. -/
def stream (e : Endian) (ps : List (hpack_t × List UInt8)) : List UInt8 :=
  ps.flatMap fun p => packet e p.1 p.2

@[simp] theorem stream_cons (p : hpack_t × List UInt8) (ps : List (hpack_t × List UInt8)) :
    stream e (p :: ps) = packet e p.1 (p.2 ++ stream e ps) := by
  simp [stream, packet]

theorem hsend_eq {p : hpack_t × List UInt8} (hp : Sendable p) (fuel : Nat) (io : Outgoing) :
    hsend e σ fuel p.2 p.1 io =
      (swriteLoop σ (HPACK_SIZE + p.1.packet_size.toNat : Nat) fuel (packet e p.1 p.2) io).map
        fun r => (r.1, { p.1 with packet_size := htonl e p.1.packet_size }, r.2) := by
  have hmsg : p.2.take p.1.packet_size.toNat = p.2 :=
    List.take_of_length_le (Nat.le_of_eq hp.length)
  have hlen : (packet e p.1 p.2).length = HPACK_SIZE + p.1.packet_size.toNat := by
    rw [length_packet, hp.length]
  unfold hsend swrite
  dsimp only
  rw [hmsg, Nat.add_comm p.1.packet_size.toNat, toInt_of_lt hp.fits, Int.toNat_natCast]
  have hdata : { p.1 with packet_size := htonl e p.1.packet_size }.toBytes e ++ p.2 =
      packet e p.1 p.2 := rfl
  rw [hdata, List.take_of_length_le (Nat.le_of_eq hlen)]
  cases swriteLoop σ _ fuel (packet e p.1 p.2) io <;> rfl

theorem hsendAll_returned (hσ : NoErrors σ) {fuel : Nat} {ps : List (hpack_t × List UInt8)}
    (hps : ∀ p ∈ ps, Sendable p) {io io' : Outgoing} {rets : List Int}
    (h : hsendAll e σ fuel ps io = some (rets, io')) :
    rets = ps.map (fun p => ((HPACK_SIZE + p.1.packet_size.toNat : Nat) : Int)) ∧
      io'.wire = io.wire ++ stream e ps := by
  induction ps generalizing io rets with
  | nil =>
    cases h
    exact ⟨rfl, by simp [stream]⟩
  | cons p ps ih =>
    unfold hsendAll at h
    rw [hsend_eq (hps p List.mem_cons_self)] at h
    cases hw : swriteLoop σ (HPACK_SIZE + p.1.packet_size.toNat : Nat) fuel (packet e p.1 p.2)
        io with
    | none => rw [hw] at h; cases h
    | some r =>
      obtain ⟨ret, out⟩ := r
      obtain ⟨hret, hwire⟩ := swriteLoop_returned hσ hw
      rw [hw] at h
      simp only [Option.map_some] at h
      cases hall : hsendAll e σ fuel ps out with
      | none => rw [hall] at h; cases h
      | some q =>
        rw [hall] at h
        cases h
        obtain ⟨hrets, hwires⟩ := ih (fun q hq => hps q (List.mem_cons_of_mem _ hq)) hall
        refine ⟨by rw [hrets, hret]; rfl, ?_⟩
        rw [hwires, hwire, List.append_assoc]
        rfl

theorem hsendAll_returns (hσ : NoErrors σ) (hp : Progress σ) {ps : List (hpack_t × List UInt8)}
    (hps : ∀ p ∈ ps, Sendable p) (io : Outgoing) :
    ∃ N, ∀ fuel, N ≤ fuel → (hsendAll e σ fuel ps io).isSome := by
  induction ps generalizing io with
  | nil => exact ⟨0, fun _ _ => rfl⟩
  | cons p ps ih =>
    obtain ⟨N, calls, hrun⟩ := writes_of_progress (HPACK_SIZE + p.1.packet_size.toNat : Nat) hσ hp
      (packet e p.1 p.2) io
    obtain ⟨N', hrun'⟩ := ih (fun q hq => hps q (List.mem_cons_of_mem _ hq))
      ⟨calls, io.wire ++ packet e p.1 p.2⟩
    refine ⟨max N N', fun fuel hf => ?_⟩
    unfold hsendAll
    rw [hsend_eq (hps p List.mem_cons_self), hrun fuel (by omega)]
    simpa using hrun' fuel (by omega)

/-! ## Receiving -/

theorem hrecvAll_stream (hρ : NoErrors ρ) {ps : List (hpack_t × List UInt8)}
    (hps : ∀ p ∈ ps, Sendable p) (hd : hpack_t) (calls : Nat) :
    ((hrecvAll e ρ dencrypt_fn ps.length hd ⟨calls, stream e ps⟩).1.map
        fun r => (r.ret, r.msg, r.hd)) =
      ps.map (fun p => ((p.1.packet_size.toNat : Int), p.2, p.1)) ∧
    (hrecvAll e ρ dencrypt_fn ps.length hd ⟨calls, stream e ps⟩).2.rest = [] := by
  induction ps generalizing hd calls with
  | nil => exact ⟨rfl, rfl⟩
  | cons p ps ih =>
    have hp := hps p List.mem_cons_self
    have hfn : dencrypt_fn p.1 = true := by
      unfold dencrypt_fn
      rw [hp.version]
      exact beq_self_eq_true _
    have hsize : p.1.packet_size.toNat < 2 ^ 31 := by
      have := hp.fits
      omega
    obtain ⟨calls', h⟩ := hrecv_packet (e := e) hρ hd calls (stream e ps) hfn hp.length hsize
    obtain ⟨hrecvs, hrest⟩ := ih (fun q hq => hps q (List.mem_cons_of_mem _ hq)) p.1 calls'
    rw [stream_cons, List.length_cons]
    unfold hrecvAll
    rw [h]
    dsimp only
    exact ⟨by rw [List.map_cons, hrecvs, List.map_cons], hrest⟩

/-- **Round trip.** Whatever `send` and `recv` make of the stream, packets that were sent are
received one by one, message and header, and nothing is left; and the sending ends as long as
`send` makes progress. -/
theorem round_trip (e : Endian) {σ ρ : Schedule} (hσ : NoErrors σ) (hρ : NoErrors ρ)
    {ps : List (hpack_t × List UInt8)} (hps : ∀ p ∈ ps, Sendable p) (hd : hpack_t) :
    (∀ fuel rets io, hsendAll e σ fuel ps ⟨0, []⟩ = some (rets, io) →
      rets = ps.map (fun p => ((HPACK_SIZE + p.1.packet_size.toNat : Nat) : Int)) ∧
      ((hrecvAll e ρ dencrypt_fn ps.length hd ⟨0, io.wire⟩).1.map
          fun r => (r.ret, r.msg, r.hd)) =
        ps.map (fun p => ((p.1.packet_size.toNat : Int), p.2, p.1)) ∧
      (hrecvAll e ρ dencrypt_fn ps.length hd ⟨0, io.wire⟩).2.rest = []) ∧
    (Progress σ → ∃ N, ∀ fuel, N ≤ fuel → (hsendAll e σ fuel ps ⟨0, []⟩).isSome) := by
  refine ⟨fun fuel rets io h => ?_, fun hp => hsendAll_returns hσ hp hps _⟩
  obtain ⟨hrets, hwire⟩ := hsendAll_returned hσ hps h
  rw [List.nil_append] at hwire
  rw [hwire]
  exact ⟨hrets, hrecvAll_stream hρ hps hd 0⟩

/-- A header with its version set, as the sender does before `hsend`. -/
def versioned (hd : hpack_t) : hpack_t := { hd with version := encrypt .Nd2N hd }

def hello : hpack_t :=
  versioned ⟨0x0d000721, 3, 1, 1, #v[1, 0, 0, 0], 0, 0, #v[0, 0], 0, 0x1a2b3c4d, #v[0, 0, 0, 0],
    1700000000⟩

/-- Two packets sent three bytes at a time and received seven at a time. -/
theorem round_trip_hello :
    ∃ rets io, hsendAll .little (fun _ => some 3) 20 [(hello, [104, 105, 33]), (hello, [1, 2, 3])]
        ⟨0, []⟩ = some (rets, io) ∧
      ((hrecvAll .little (fun _ => some 7) dencrypt_fn 2 hello ⟨0, io.wire⟩).1.map
        fun r => (r.ret, r.msg, r.hd)) = [(3, [104, 105, 33], hello), (3, [1, 2, 3], hello)] := by
  have hps : ∀ p ∈ [(hello, [104, 105, 33]), (hello, [1, 2, 3])], Sendable p := by
    intro p hp
    simp only [List.mem_cons, List.not_mem_nil, or_false] at hp
    rcases hp with rfl | rfl <;> exact ⟨rfl, by decide, rfl⟩
  have hsome : (hsendAll .little (fun _ => some 3) 20
      [(hello, [104, 105, 33]), (hello, [1, 2, 3])] ⟨0, []⟩).isSome := by decide
  obtain ⟨⟨rets, io⟩, h⟩ := Option.isSome_iff_exists.mp hsome
  exact ⟨rets, io, h, ((round_trip .little (σ := fun _ => some 3) (ρ := fun _ => some 7)
    (fun _ => Option.some_ne_none _) (fun _ => Option.some_ne_none _) hps hello).1 20 rets io
      h).2.1⟩

end LearnNotes.Net
