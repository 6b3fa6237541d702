import LearnNotes.Net.Endpoint

/-!
# The sender's header

Before each packet both ends fill in their header with `set_hpack_pft` and pass it to `hsend`.
The first counts one bit too many and copies the file counts the wrong way: `records_iff`. The
second leaves the size in network order in the caller's header (`keepsHeader_iff`) and converts
the length of the packet to an `int`, which sizes from about half the range on do not survive:
`sendsWhole_iff`.
-/

namespace LearnNotes.Net

open Lib

/-! ## `set_hpack_pft` -/

def FT_ZIP : UInt8 := 2
def FT_EXE : UInt8 := 4
def FT_DIR : UInt8 := 8

/-- How many of the declared kinds of file `ftype` names. -/
def declaredKinds (ftype : UInt8) : Nat :=
  ([FT_NOR, FT_ZIP, FT_EXE, FT_DIR].filter fun kind => ftype &&& kind ≠ 0).length

/-- The call returns the number of kinds and the header has both arguments, `fcount` as the bytes
it has in memory. -/
def Records (e : Endian) (ftype : UInt8) (fcount : UInt32) (hd : hpack_t) : Prop :=
  set_hpack_pft ftype fcount hd =
    ((declaredKinds ftype : Int),
      { hd with packet_ftype := ftype, packet_fcount := raw 4 (bytes32 e fcount) })

/-- One normal file, as both loops say, in a header that said none. -/
theorem one_file_not_recorded :
    ¬ Records .little FT_NOR 1 { hello with packet_fcount := #v[0, 0, 0, 0] } := by
  unfold Records
  decide

/-- The loop looks at the bits 0 to 4. -/
theorem count_eq (ftype : UInt8) :
    (((List.range (PACK_FTYPE_SIZE + 1)).filter ftype.toNat.testBit).length : Int) =
      declaredKinds ftype + if ftype &&& 0x10 = 0 then 0 else 1 := by
  have hall : ∀ bits : BitVec 8,
      (((List.range (PACK_FTYPE_SIZE + 1)).filter
          (UInt8.ofBitVec bits).toNat.testBit).length : Int) =
        declaredKinds ⟨bits⟩ + if (⟨bits⟩ : UInt8) &&& 0x10 = 0 then 0 else 1 := by
    decide +kernel
  exact hall ftype.toBitVec

/-- **Exactly when the arguments are recorded.** -/
theorem records_iff (e : Endian) (ftype : UInt8) (fcount : UInt32) (hd : hpack_t) :
    Records e ftype fcount hd ↔
      ftype &&& 0x10 = 0 ∧ hd.packet_fcount = raw 4 (bytes32 e fcount) := by
  unfold Records set_hpack_pft
  rw [Prod.mk.injEq, count_eq]
  refine and_congr ?_ ?_
  · split
    · next h => simp [h]
    · next h => simp [h]
  · simp

/-! ## The header `hsend` leaves -/

variable {e : Endian} {σ : Schedule}

/-- However the call ends, the header is as it was, and a second call with it does what one with
the first header does. -/
def KeepsHeader (e : Endian) (msg : List UInt8) (hd : hpack_t) : Prop :=
  ∀ σ fuel io ret hd' io', hsend e σ fuel msg hd io = some (ret, hd', io') →
    hd' = hd ∧ ∀ σ' fuel' io₂, hsend e σ' fuel' msg hd' io₂ = hsend e σ' fuel' msg hd io₂

/-- The data `hsend` passes on, and the length it is passed with. -/
def sendData (e : Endian) (msg : List UInt8) (hd : hpack_t) : List UInt8 :=
  packet e hd (msg.take hd.packet_size.toNat)

def sendSize (hd : hpack_t) : Int := toInt (hd.packet_size.toNat + HPACK_SIZE)

theorem hsend_eq_swrite (fuel : Nat) (msg : List UInt8) (hd : hpack_t) (io : Outgoing) :
    hsend e σ fuel msg hd io =
      (swrite σ fuel (sendData e msg hd) (sendSize hd) io).map fun r =>
        (r.1, { hd with packet_size := htonl e hd.packet_size }, r.2) := by
  unfold hsend sendData sendSize packet
  dsimp only
  cases swrite σ fuel _ _ io <;> rfl

/-- A socket that fails at once ends the call. -/
theorem hsend_fails (e : Endian) (msg : List UInt8) (hd : hpack_t) :
    ∃ ret io', hsend e (fun _ => none) 1 msg hd ⟨0, []⟩ =
      some (ret, { hd with packet_size := htonl e hd.packet_size }, io') := by
  rw [hsend_eq_swrite]
  unfold swrite swriteLoop
  split
  · exact ⟨_, _, rfl⟩
  · exact ⟨_, _, rfl⟩

/-- A header of the client on a little-endian host. -/
theorem hello_not_kept : ¬ KeepsHeader .little [104, 105, 33] hello := by
  intro h
  obtain ⟨ret, io', hsent⟩ := hsend_fails .little [104, 105, 33] hello
  have hkept := congrArg hpack_t.packet_size (h _ _ _ _ _ _ hsent).1
  revert hkept
  decide

theorem htonl_eq_iff (x : UInt32) :
    htonl e x = x ↔ e = .big ∨ bytes32 .little x = bytes32 .big x := by
  unfold htonl
  cases e with
  | big =>
    have h : word32 .big (bytes32 .big x) = x := by
      rw [← List.append_nil (bytes32 .big x), word32_append]
    exact iff_of_true h (.inl rfl)
  | little =>
    constructor
    · intro h
      have hbytes := bytes32_word32 .little (length_bytes32 .big x)
      rw [h] at hbytes
      exact .inr hbytes
    · rintro (h | h)
      · cases h
      · rw [← h, ← List.append_nil (bytes32 .little x), word32_append]

/-- **Exactly when the header is kept.** -/
theorem keepsHeader_iff (e : Endian) (msg : List UInt8) (hd : hpack_t) :
    KeepsHeader e msg hd ↔
      e = .big ∨ bytes32 .little hd.packet_size = bytes32 .big hd.packet_size := by
  rw [← htonl_eq_iff]
  constructor
  · intro h
    obtain ⟨ret, io', hsent⟩ := hsend_fails e msg hd
    exact congrArg hpack_t.packet_size (h _ _ _ _ _ _ hsent).1
  · intro hsize σ fuel io ret hd' io' hsent
    rw [hsend_eq_swrite, hsize] at hsent
    obtain ⟨r, -, hr⟩ := Option.map_eq_some_iff.mp hsent
    have hhd : hd = hd' := (Prod.mk.inj (Prod.mk.inj hr).2).1
    exact ⟨hhd.symm, fun σ' fuel' io₂ => by rw [hhd]⟩

/-! ## The length -/

/-- The socket takes everything, in chunks of any positive size. -/
def Accepting (σ : Schedule) : Prop := ∀ i, ∃ n, σ i = some (n + 1)

/-- On a socket that takes everything `hsend` returns -1 and sends nothing, or it sends the whole
packet and returns its length. -/
def SendsWhole (e : Endian) (hd : hpack_t) : Prop :=
  ∀ σ msg io, Accepting σ → hd.packet_size.toNat ≤ msg.length →
    ∃ N ret hd' io', (∀ fuel, N ≤ fuel → hsend e σ fuel msg hd io = some (ret, hd', io')) ∧
      (ret = -1 ∧ io'.wire = io.wire ∨
        0 < ret ∧ ret = (HPACK_SIZE + hd.packet_size.toNat : Nat) ∧
          io'.wire = io.wire ++ packet e hd (msg.take hd.packet_size.toNat))

theorem Accepting.noErrors (hσ : Accepting σ) : NoErrors σ := fun i => by
  obtain ⟨n, hn⟩ := hσ i
  rw [hn]
  exact Option.some_ne_none _

theorem Accepting.progress (hσ : Accepting σ) : Progress σ := fun i => ⟨i, le_rfl, hσ i⟩

theorem hsend_accepting (hσ : Accepting σ) (msg : List UInt8) (hd : hpack_t) (io : Outgoing) :
    ∃ N calls, ∀ fuel, N ≤ fuel → hsend e σ fuel msg hd io =
      some (sendSize hd, { hd with packet_size := htonl e hd.packet_size },
        ⟨calls, io.wire ++ (sendData e msg hd).take (sendSize hd).toNat⟩) := by
  simp only [hsend_eq_swrite]
  generalize sendSize hd = size, sendData e msg hd = buf
  obtain ⟨N, calls, hrun⟩ := writes_of_progress size hσ.noErrors hσ.progress
    (buf.take size.toNat) io
  refine ⟨N, calls, fun fuel hf => ?_⟩
  rw [swrite, hrun fuel hf, Option.map_some]

theorem length_sendData {msg : List UInt8} {hd : hpack_t} (h : hd.packet_size.toNat ≤ msg.length) :
    (sendData e msg hd).length = HPACK_SIZE + hd.packet_size.toNat := by
  rw [sendData, length_packet, List.length_take_of_le h]

/-- What is returned is the length converted to `int`. -/
theorem SendsWhole.sendSize_eq {hd : hpack_t} (h : SendsWhole e hd) :
    sendSize hd = -1 ∨
      0 < sendSize hd ∧ sendSize hd = (HPACK_SIZE + hd.packet_size.toNat : Nat) := by
  have hσ : Accepting fun _ => some 1 := fun _ => ⟨0, rfl⟩
  obtain ⟨N, ret, hd', io', hrun, hret⟩ := h _ (List.replicate hd.packet_size.toNat 0) ⟨0, []⟩ hσ
    (Nat.le_of_eq (List.length_replicate ..).symm)
  obtain ⟨N', calls, hrun'⟩ := hsend_accepting (e := e) hσ
    (List.replicate hd.packet_size.toNat 0) hd ⟨0, []⟩
  have heq := (hrun (max N N') (le_max_left ..)).symm.trans (hrun' (max N N') (le_max_right ..))
  have hsize : ret = sendSize hd := (Prod.mk.inj (Option.some.inj heq)).1
  rw [hsize] at hret
  rcases hret with ⟨hret, -⟩ | ⟨hpos, hret, -⟩
  · exact .inl hret
  · exact .inr ⟨hpos, hret⟩

/-- The first packet whose length is no `int`. -/
theorem half_range_not_sent :
    ¬ SendsWhole .little { hello with packet_size := 0x7fffffd8 } := by
  intro h
  have hsize := h.sendSize_eq
  revert hsize
  decide

/-- **Exactly when the length survives**, or happens to be -1. -/
theorem sendsWhole_iff (e : Endian) (hd : hpack_t) :
    SendsWhole e hd ↔
      HPACK_SIZE + hd.packet_size.toNat < 2 ^ 31 ∨
        HPACK_SIZE + hd.packet_size.toNat = 2 ^ 32 - 1 := by
  have hlt := hd.packet_size.toNat_lt
  have hHPACK : HPACK_SIZE = 40 := rfl
  constructor
  · intro h
    by_contra hsize
    obtain ⟨hbig, hne⟩ := not_or.mp hsize
    have hint : sendSize hd = _ := toInt_of_ge (by omega) (by omega)
    have heq := h.sendSize_eq
    omega
  · intro hsize σ msg io hσ hmsg
    obtain ⟨N, calls, hrun⟩ := hsend_accepting (e := e) hσ msg hd io
    refine ⟨N, _, _, _, hrun, ?_⟩
    rcases hsize with hfits | hminus
    · have hint : sendSize hd = _ := toInt_of_lt (by omega)
      refine .inr ⟨by omega, by omega, ?_⟩
      rw [List.take_of_length_le (by rw [length_sendData hmsg]; omega)]
      rfl
    · have hint : sendSize hd = _ := toInt_of_ge (by omega) (by omega)
      refine .inl ⟨by omega, ?_⟩
      rw [Int.toNat_of_nonpos (by omega), List.take_zero, List.append_nil]

end LearnNotes.Net
