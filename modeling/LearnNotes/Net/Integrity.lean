import LearnNotes.Net.Endpoint

/-!
# What `hrecv` knows of the payload

`hrecv` passes the header to `dencrypt_fn` and reads the payload after that; nothing looks at
`check` again. What `sread` does depends on how much the stream has and not on what
(`sread_swap`), so any payload of the same size is taken the same way. `received_as_is`: an
accepted payload is the bytes behind the header, which have the CRC the header gives where the
packet is as one of the two loops sent it.
-/

namespace LearnNotes.Net

open Lib

/-- An accepted payload has the CRC its header gives. -/
def ChecksPayload (e : Endian) (ρ : Schedule) (hd₀ : hpack_t) (io : Incoming) : Prop :=
  let r := hrecv e ρ dencrypt_fn hd₀ io
  0 < r.ret → r.ret = r.hd.packet_size.toNat → crc32 r.msg 0 = r.hd.check

/-- The server's answer of zeros, damaged on the way, is accepted. -/
theorem damaged_accepted :
    ¬ ChecksPayload .little (fun _ => some 100) hello
      ⟨0, packet .little (Endpoint.tcp_server.header (Vector.replicate 30 0) 1700000000 hello)
        (1 :: List.replicate 29 0)⟩ := by
  have hρ : NoErrors fun _ => some 100 := fun _ => Option.some_ne_none 100
  have hfn := Endpoint.dencrypt_fn_header .tcp_server (Vector.replicate 30 0) 1700000000 hello
  obtain ⟨calls, hrun⟩ := hrecv_packet (e := .little) hρ hello 0 [] hfn
    (show (1 :: List.replicate 29 (0 : UInt8)).length = 30 from rfl) (by decide)
  rw [List.append_nil] at hrun
  intro h
  unfold ChecksPayload at h
  rw [hrun] at h
  have hcrc : crc32 (1 :: List.replicate 29 0) 0 = crc32 (List.replicate 30 0) 0 :=
    h (show (0 : Int) < 30 by decide) rfl
  revert hcrc
  decide +kernel

/-- The header of the bytes that came, the rest as the caller left it. -/
def mixed (e : Endian) (bytes : List UInt8) (hd : hpack_t) : hpack_t :=
  let hd := hpack_t.ofBytes e (bytes ++ (hd.toBytes e).drop bytes.length)
  { hd with packet_size := ntohl e hd.packet_size }

/-- The bytes the first `sread` of `hrecv` takes for the header. -/
def headerBytes (ρ : Schedule) (io : Incoming) : List UInt8 := (sread ρ HPACK_SIZE io).2.1

/-- What is true of an accepted payload. -/
structure TakenAsIs (e : Endian) (ρ : Schedule) (hd₀ : hpack_t) (io : Incoming)
    (r : Received) : Prop where
  header : r.hd = mixed e (headerBytes ρ io) hd₀
  whole : NoErrors ρ → (headerBytes ρ io).length = HPACK_SIZE
  version : encrypt .Nd2N r.hd = r.hd.version
  length : r.msg.length = r.hd.packet_size.toNat
  /-- The payload is right behind the header, and any other in its place is taken, too. -/
  swap : ∃ back, io.rest = headerBytes ρ io ++ (r.msg ++ back) ∧ ∀ msg : List UInt8,
    msg.length = r.msg.length →
      hrecv e ρ dencrypt_fn hd₀ ⟨io.calls, headerBytes ρ io ++ (msg ++ back)⟩ =
        { r with msg := msg }
  /-- A packet that arrives as it was sent. -/
  sent : NoErrors ρ → ∀ (ep : Endpoint) msg timepoint hpt rest,
    io.rest = packet e (ep.header msg timepoint hpt) (msg.toList ++ rest) →
      crc32 r.msg 0 = r.hd.check

variable {e : Endian} {ρ : Schedule} {size : Int} {hd₀ : hpack_t} {io : Incoming}

/-! ## Reading is blind -/

/-- How far a `recv` gets. -/
theorem recv_swap (ρ : Schedule) {count : Nat} (hc : count ≠ 0) (calls : Nat) :
    (∀ t, recv ρ count ⟨calls, t⟩ = (none, ⟨calls + 1, t⟩)) ∨
      ∃ n, 0 < n ∧ n ≤ count ∧
        ∀ t, recv ρ count ⟨calls, t⟩ = (some (t.take n), ⟨calls + 1, t.drop n⟩) := by
  unfold recv
  cases hn : ρ calls with
  | none => exact .inl fun t => by rw [hn]
  | some n => exact .inr ⟨min (max n 1) count, by omega, by omega, fun t => by rw [hn]⟩

/-- A loop that starts on `n` bytes: what it returns, how many it takes, how many calls it makes. -/
theorem sreadLoop_swap (ρ : Schedule) (size : Int) (fuel count calls n : Nat) :
    ∃ ret k calls', k ≤ n ∧ ∀ buf t, t.length = n →
      sreadLoop ρ size fuel count buf ⟨calls, t⟩ = (ret, buf ++ t.take k, ⟨calls', t.drop k⟩) := by
  induction fuel generalizing count calls n with
  | zero => exact ⟨size, 0, calls, Nat.zero_le n, fun buf t _ => by simp [sreadLoop]⟩
  | succ fuel ih =>
    by_cases hc : count = 0
    · exact ⟨size, 0, calls, Nat.zero_le n, fun buf t _ => by simp [sreadLoop, hc]⟩
    · rcases recv_swap ρ hc calls with hrecv | ⟨m, hpos, -, hrecv⟩
      · refine ⟨-1, 0, calls + 1, Nat.zero_le n, fun buf t _ => ?_⟩
        simp [sreadLoop, hc, hrecv]
      · by_cases hn : n = 0
        · refine ⟨size - count, 0, calls + 1, Nat.zero_le n, fun buf t ht => ?_⟩
          obtain rfl : t = [] := List.length_eq_zero_iff.mp (ht.trans hn)
          simp [sreadLoop, hc, hrecv]
        · obtain ⟨ret, k, calls', hk, hrun⟩ := ih (count - min m n) (calls + 1) (n - m)
          refine ⟨ret, min m n + k, calls', by omega, fun buf t ht => ?_⟩
          have hlen : (t.take m).length = min m n := by rw [List.length_take, ht]
          rw [sreadLoop, if_neg hc, hrecv]
          cases hbs : t.take m with
          | nil =>
            rw [hbs, List.length_nil] at hlen
            omega
          | cons b bs =>
            rw [hbs, List.length_cons] at hlen
            have hdrop : (t.drop m).length = n - m := by rw [List.length_drop, ht]
            have hall : t.take (min m n + k) = t.take m ++ (t.drop m).take k ∧
                t.drop (min m n + k) = (t.drop m).drop k := by
              rcases le_total m n with hle | hle
              · rw [min_eq_left hle]
                exact ⟨List.take_add, List.drop_drop.symm⟩
              · obtain rfl : k = 0 := by omega
                rw [min_eq_right hle, List.take_of_length_le (by omega),
                  List.take_of_length_le (by omega), List.drop_of_length_le (by omega),
                  List.drop_of_length_le (by omega)]
                simp
            dsimp only
            rw [hlen, hrun _ _ hdrop, List.append_assoc, ← hbs, hall.1, hall.2]

/-- **What a read does depends on how much the stream has**, and not on what. -/
theorem sread_swap (ρ : Schedule) (size : Int) (calls n : Nat) :
    ∃ ret k calls', k ≤ n ∧ ∀ t, t.length = n →
      sread ρ size ⟨calls, t⟩ = (ret, t.take k, ⟨calls', t.drop k⟩) := by
  obtain ⟨ret, k, calls', hk, hrun⟩ := sreadLoop_swap ρ size size.toNat size.toNat calls n
  exact ⟨ret, k, calls', hk, fun t ht => hrun [] t ht⟩

theorem recvHeader_fst : (recvHeader e ρ hd₀ io).1 = mixed e (headerBytes ρ io) hd₀ := by
  unfold recvHeader mixed headerBytes
  generalize sread ρ HPACK_SIZE io = r
  rfl

/-- The header is made of the first bytes, whatever follows them. -/
theorem recvHeader_swap (e : Endian) (ρ : Schedule) (hd₀ : hpack_t) (io : Incoming) :
    ∃ back calls', io.rest = headerBytes ρ io ++ back ∧ ∀ rest, rest.length = back.length →
      recvHeader e ρ hd₀ ⟨io.calls, headerBytes ρ io ++ rest⟩ =
        (mixed e (headerBytes ρ io) hd₀, ⟨calls', rest⟩) := by
  obtain ⟨ret, k, calls', hk, hrun⟩ := sread_swap ρ HPACK_SIZE io.calls io.rest.length
  have hfront : (io.rest.take k).length = k := List.length_take_of_le hk
  have hbytes : headerBytes ρ io = io.rest.take k := congrArg (·.2.1) (hrun io.rest rfl)
  rw [← recvHeader_fst, hbytes]
  refine ⟨io.rest.drop k, calls', (List.take_append_drop k io.rest).symm, fun rest hlen => ?_⟩
  have htotal : (io.rest.take k ++ rest).length = io.rest.length := by
    rw [List.length_append, hfront, hlen, List.length_drop]
    omega
  unfold recvHeader
  rw [hrun _ htotal, hrun io.rest rfl, List.take_left' hfront, List.drop_left' hfront]

/-! ## Whole headers -/

theorem sreadLoop_ended (hρ : NoErrors ρ) {fuel count : Nat} {buf : List UInt8} {io : Incoming}
    (hf : count ≤ fuel) (h : io.rest.length < count) :
    (sreadLoop ρ size fuel count buf io).2.2.rest = [] := by
  induction fuel generalizing count buf io with
  | zero => omega
  | succ fuel ih =>
    obtain ⟨n, hpos, -, hrecv⟩ := recv_available hρ io (Nat.zero_lt_of_lt h)
    rw [sreadLoop, if_neg (Nat.ne_zero_of_lt h), hrecv]
    cases hbs : io.rest.take n with
    | nil =>
      have hlen : (io.rest.take n).length = 0 := by rw [hbs, List.length_nil]
      rw [List.length_take] at hlen
      exact List.drop_of_length_le (by omega)
    | cons b bs =>
      have hlen : (io.rest.take n).length = bs.length + 1 := by rw [hbs, List.length_cons]
      rw [List.length_take] at hlen
      refine ih (by omega) ?_
      show (io.rest.drop n).length < _
      rw [List.length_drop]
      omega

/-- A stream that ends inside the header is at its end. -/
theorem length_headerBytes (hρ : NoErrors ρ) {back : List UInt8} (hb : back ≠ [])
    (h : io.rest = headerBytes ρ io ++ back) : (headerBytes ρ io).length = HPACK_SIZE := by
  by_cases hlen : HPACK_SIZE ≤ io.rest.length
  · obtain ⟨calls, hread⟩ := sread_available hρ io hlen
    unfold headerBytes
    rw [hread, List.length_take_of_le hlen]
  · obtain ⟨ret, k, calls, hk, hrun⟩ := sread_swap ρ HPACK_SIZE io.calls io.rest.length
    have hself : sread ρ HPACK_SIZE io = (ret, io.rest.take k, ⟨calls, io.rest.drop k⟩) :=
      hrun io.rest rfl
    have hended : (sread ρ HPACK_SIZE io).2.2.rest = [] :=
      sreadLoop_ended hρ (Nat.le_refl _) (not_le.mp hlen)
    have hbytes : headerBytes ρ io = io.rest.take k := congrArg (·.2.1) hself
    rw [hself] at hended
    have hk' : io.rest.length ≤ k := List.drop_eq_nil_iff.mp hended
    have hlength := congrArg List.length h
    rw [List.length_append, hbytes, List.length_take_of_le hk] at hlength
    exact absurd (List.length_eq_zero_iff.mp (by omega)) hb

/-! ## Accepted payloads -/

theorem sreadLoop_full {fuel count : Nat} {buf buf' : List UInt8} {io io' : Incoming}
    (hf : count ≤ fuel) (hs : 0 < size)
    (h : sreadLoop ρ size fuel count buf io = (size, buf', io')) :
    buf'.length = buf.length + count := by
  induction fuel generalizing count buf io with
  | zero =>
    obtain rfl : count = 0 := by omega
    cases h
    rfl
  | succ fuel ih =>
    unfold sreadLoop at h
    by_cases hc : count = 0
    · rw [if_pos hc] at h
      cases h
      rw [hc]
      rfl
    · rw [if_neg hc] at h
      split at h
      · obtain ⟨hret, -⟩ := Prod.mk.inj h
        omega
      · obtain ⟨hret, -⟩ := Prod.mk.inj h
        omega
      · next b bs io'' hrecv =>
        have hlen := length_recv hrecv
        have hrest := ih (by omega) h
        rw [List.length_cons] at hlen
        rw [List.length_append, List.length_cons] at hrest
        omega

/-- A whole message was read where its size is what `sread` returns. -/
theorem length_of_full {n : Nat} {msg : List UInt8} {io io' : Incoming} (hn : n < 2 ^ 32)
    (hpos : 0 < n) (h : sread ρ (toInt n) io = ((n : Int), msg, io')) : msg.length = n := by
  by_cases hint : n < 2 ^ 31
  · rw [toInt_of_lt hint] at h
    have hfull := sreadLoop_full (Nat.le_refl _) (by omega) h
    rwa [Int.toNat_natCast, List.length_nil, Nat.zero_add] at hfull
  · have hneg := toInt_neg (not_lt.mp hint) hn
    rw [sread_nonpos (le_of_lt hneg)] at h
    obtain ⟨hret, -⟩ := Prod.mk.inj h
    omega

/-- A packet that arrives as a sender made it has the CRC of its payload. -/
theorem crc32_of_sent (hρ : NoErrors ρ) {ep : Endpoint} {msg : Vector UInt8 MAXSBUF}
    {timepoint : Int64} {hpt : hpack_t} {rest : List UInt8}
    (hrest : io.rest = packet e (ep.header msg timepoint hpt) (msg.toList ++ rest)) :
    crc32 (hrecv e ρ dencrypt_fn hd₀ io).msg 0 = (hrecv e ρ dencrypt_fn hd₀ io).hd.check := by
  have hsize := Endpoint.packet_size_header ep msg timepoint hpt
  have hlen : msg.toList.length = (ep.header msg timepoint hpt).packet_size.toNat :=
    (Vector.length_toList ..).trans hsize.symm
  obtain ⟨calls, hpacket⟩ := hrecv_packet (e := e) hρ hd₀ io.calls rest
    (Endpoint.dencrypt_fn_header ep msg timepoint hpt) hlen (by rw [hsize]; decide)
  rw [← hrest] at hpacket
  have heq : hrecv e ρ dencrypt_fn hd₀ io = _ := hpacket
  rw [heq]
  rfl

/-- **What is known of an accepted payload.** -/
theorem received_as_is (e : Endian) (ρ : Schedule) (hd₀ : hpack_t) (io : Incoming)
    (hpos : 0 < (hrecv e ρ dencrypt_fn hd₀ io).ret)
    (hret : (hrecv e ρ dencrypt_fn hd₀ io).ret =
      (hrecv e ρ dencrypt_fn hd₀ io).hd.packet_size.toNat) :
    TakenAsIs e ρ hd₀ io (hrecv e ρ dencrypt_fn hd₀ io) := by
  obtain ⟨back, calls, hio, hhd⟩ := recvHeader_swap e ρ hd₀ io
  have hself : recvHeader e ρ hd₀ io = (mixed e (headerBytes ρ io) hd₀, ⟨calls, back⟩) := by
    have := hhd back rfl
    rwa [← hio] at this
  generalize hmixed : mixed e (headerBytes ρ io) hd₀ = hd at hhd hself
  cases hfn : dencrypt_fn hd with
  | false =>
    rw [hrecv_of_rejected hself hfn] at hpos
    cases hpos
  | true =>
    obtain ⟨ret, k, calls', hk, hrun⟩ :=
      sread_swap ρ (toInt hd.packet_size.toNat) calls back.length
    have hmsg : (back.take k).length = k := List.length_take_of_le hk
    have hr := hrecv_of_accepted hself hfn (hrun back rfl)
    rw [hr] at hpos hret
    dsimp only at hpos hret
    have hsize : 0 < hd.packet_size.toNat := by omega
    have hfull := hrun back rfl
    rw [hret] at hfull
    have hlength := length_of_full hd.packet_size.toNat_lt hsize hfull
    refine ⟨?_, fun hρ => ?_, ?_, ?_, ⟨back.drop k, ?_, fun msg hlen => ?_⟩, ?_⟩
    · rw [hr, hmixed]
    · refine length_headerBytes hρ (fun hnil => ?_) hio
      rw [hnil, List.take_nil, List.length_nil] at hlength
      omega
    · rw [hr]
      exact beq_iff_eq.mp hfn
    · rw [hr]
      exact hlength
    · rw [hr, List.take_append_drop]
      exact hio
    · rw [hr] at hlen ⊢
      have hlen' : msg.length = k := hlen.trans hmsg
      have htotal : (msg ++ back.drop k).length = back.length := by
        rw [List.length_append, hlen', List.length_drop]
        omega
      have hread := hrun _ htotal
      rw [List.take_left' hlen', List.drop_left' hlen'] at hread
      exact hrecv_of_accepted (hhd _ htotal) hfn hread
    · exact fun hρ ep msg timepoint hpt rest hrest => crc32_of_sent hρ hrest

/-- The server's answer of zeros, received as it was sent. -/
theorem received_as_is_zeros :
    TakenAsIs .little (fun _ => some 100) hello
      ⟨0, packet .little (Endpoint.tcp_server.header (Vector.replicate 30 0) 1700000000 hello)
        (List.replicate 30 0)⟩
      (hrecv .little (fun _ => some 100) dencrypt_fn hello
        ⟨0, packet .little (Endpoint.tcp_server.header (Vector.replicate 30 0) 1700000000 hello)
          (List.replicate 30 0)⟩) := by
  have hρ : NoErrors fun _ => some 100 := fun _ => Option.some_ne_none 100
  have hfn := Endpoint.dencrypt_fn_header .tcp_server (Vector.replicate 30 0) 1700000000 hello
  obtain ⟨calls, hrun⟩ := hrecv_packet (e := .little) hρ hello 0 [] hfn
    (show (List.replicate 30 (0 : UInt8)).length = 30 from rfl) (by decide)
  rw [List.append_nil] at hrun
  refine received_as_is .little _ hello _ ?_ ?_
  · rw [hrun]
    exact show (0 : Int) < 30 by decide
  · rw [hrun]

end LearnNotes.Net
