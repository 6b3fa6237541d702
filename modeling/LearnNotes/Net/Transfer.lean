import LearnNotes.Net.Package

/-!
# Bytes across a fragmented stream

The header survives its object representation and the byte-order conversion of
`packet_size`. `sread` gets what it asks for as long as the stream has it, however `recv`
cuts it up; `swrite` puts everything on the stream, and it returns as long as `send` does
not answer 0 for ever (`Progress`).
-/

namespace LearnNotes.Net

open Lib

/-! ## The header -/

section Header

variable (e : Endian)

@[simp] theorem length_bytes32 (x : UInt32) : (bytes32 e x).length = 4 := Bytes.length_put ..

@[simp] theorem length_bytes16 (x : UInt16) : (bytes16 e x).length = 2 := Bytes.length_put ..

@[simp] theorem length_bytes64 (x : Int64) : (bytes64 e x).length = 8 := Bytes.length_put ..

@[simp] theorem word32_append (x : UInt32) (rest : List UInt8) :
    word32 e (bytes32 e x ++ rest) = x := by
  have hx : x.toNat < 256 ^ 4 := x.toNat_lt
  unfold word32 bytes32
  rw [Bytes.get_put_append hx, UInt32.ofNat_toNat]

@[simp] theorem word16_append (x : UInt16) (rest : List UInt8) :
    word16 e (bytes16 e x ++ rest) = x := by
  have hx : x.toNat < 256 ^ 2 := x.toNat_lt
  unfold word16 bytes16
  rw [Bytes.get_put_append hx, UInt16.ofNat_toNat]

@[simp] theorem word64_bytes64 (x : Int64) : word64 e (bytes64 e x) = x := by
  have hx : x.toUInt64.toNat < 256 ^ 8 := x.toUInt64.toNat_lt
  unfold word64 bytes64
  rw [← List.append_nil (Bytes.put _ _ _), Bytes.get_put_append hx, UInt64.ofNat_toNat]
  rfl

@[simp] theorem raw_append {n : Nat} (v : Vector UInt8 n) (rest : List UInt8) :
    raw n (v.toList ++ rest) = v := by
  apply Vector.ext
  intro i hi
  have hlen : i < v.toList.length := by simpa using hi
  simp [raw, List.getElem?_append_left hlen, hi]

/-- A word's bytes are the bytes read. -/
theorem bytes32_word32 {bs : List UInt8} (h : bs.length = 4) : bytes32 e (word32 e bs) = bs := by
  have hlt : Bytes.get e 4 bs < UInt32.size := Bytes.get_lt e 4 bs
  unfold word32
  rw [bytes32, UInt32.toNat_ofNat_of_lt' hlt, Bytes.put_get h]

/-- A word in network order, put back in host order. -/
@[simp] theorem ntohl_htonl (x : UInt32) : ntohl e (htonl e x) = x := by
  unfold ntohl htonl
  rw [bytes32_word32 e (length_bytes32 .big x), ← List.append_nil (bytes32 .big x), word32_append]

theorem length_toBytes (hd : hpack_t) : (hd.toBytes e).length = HPACK_SIZE := by
  simp [hpack_t.toBytes, HPACK_SIZE]

/-- **The header is its bytes.** -/
theorem ofBytes_toBytes (hd : hpack_t) : hpack_t.ofBytes e (hd.toBytes e) = hd := by
  unfold hpack_t.ofBytes hpack_t.toBytes
  simp [List.drop_append, List.drop_of_length_le]

end Header

/-! ## Reading -/

def NoErrors (σ : Schedule) : Prop := ∀ i, σ i ≠ none

variable {ρ σ : Schedule} {size : Int}

/-- A `recv` gives a first part of the stream. -/
theorem recv_available (hρ : NoErrors ρ) {count : Nat} (io : Incoming) (hc : 0 < count) :
    ∃ n, 0 < n ∧ n ≤ count ∧
      recv ρ count io = (some (io.rest.take n), ⟨io.calls + 1, io.rest.drop n⟩) := by
  unfold recv
  cases hn : ρ io.calls with
  | none => exact absurd hn (hρ io.calls)
  | some n => exact ⟨min (max n 1) count, by omega, by omega, rfl⟩

theorem sreadLoop_available (hρ : NoErrors ρ) {fuel count : Nat} (buf : List UInt8)
    (io : Incoming) (hf : count ≤ fuel) (h : count ≤ io.rest.length) :
    ∃ calls, sreadLoop ρ size fuel count buf io =
      (size, buf ++ io.rest.take count, ⟨calls, io.rest.drop count⟩) := by
  induction fuel generalizing count buf io with
  | zero =>
    obtain rfl : count = 0 := by omega
    exact ⟨io.calls, by simp [sreadLoop]⟩
  | succ fuel ih =>
    unfold sreadLoop
    by_cases hc : count = 0
    · subst hc
      exact ⟨io.calls, by simp⟩
    · obtain ⟨n, hpos, hle, hrecv⟩ := recv_available hρ io (Nat.pos_of_ne_zero hc)
      have hlen : (io.rest.take n).length = n := List.length_take_of_le (by omega)
      rw [if_neg hc, hrecv]
      cases hbs : io.rest.take n with
      | nil =>
        rw [hbs, List.length_nil] at hlen
        omega
      | cons b bs =>
        have hb : bs.length + 1 = n := by rw [← hlen, hbs, List.length_cons]
        have hrest : count - n ≤ (io.rest.drop n).length := by rw [List.length_drop]; omega
        obtain ⟨calls, hrun⟩ := ih (buf ++ b :: bs) ⟨io.calls + 1, io.rest.drop n⟩
          (by omega : count - n ≤ fuel) hrest
        refine ⟨calls, ?_⟩
        dsimp only
        rw [hb, hrun, ← hbs, List.append_assoc, ← List.take_add, List.drop_drop]
        congr 4
        · omega
        · omega

/-- **`sread` however the stream is cut.** -/
theorem sread_available (hρ : NoErrors ρ) {n : Nat} (io : Incoming) (h : n ≤ io.rest.length) :
    ∃ calls, sread ρ n io = ((n : Int), io.rest.take n, (⟨calls, io.rest.drop n⟩ : Incoming)) :=
  sreadLoop_available hρ [] io (Nat.le_of_eq (Int.toNat_natCast n)) (by simpa using h)

/-- A size that is not positive is no read. -/
theorem sread_nonpos {io : Incoming} (h : size ≤ 0) : sread ρ size io = (size, [], io) := by
  unfold sread
  rw [Int.toNat_of_nonpos h]
  rfl

/-! ## Writing -/

/-- `send` accepts something again and again. -/
def Progress (σ : Schedule) : Prop := ∀ i, ∃ j, i ≤ j ∧ ∃ n, σ j = some (n + 1)

theorem drop_min {α : Type} (m : Nat) (buf : List α) :
    buf.drop (min m buf.length) = buf.drop m := by
  rcases le_total m buf.length with h | h
  · rw [min_eq_left h]
  · rw [min_eq_right h, List.drop_length, List.drop_of_length_le h]

theorem swriteLoop_step {fuel m : Nat} {buf : List UInt8} {io : Outgoing} (hbuf : buf ≠ [])
    (hm : σ io.calls = some m) :
    swriteLoop σ size (fuel + 1) buf io =
      swriteLoop σ size fuel (buf.drop m) ⟨io.calls + 1, io.wire ++ buf.take m⟩ := by
  rw [swriteLoop, if_neg hbuf]
  unfold send
  rw [hm]
  dsimp only
  rw [drop_min]

/-- A `swrite` that returns has put everything on the stream. -/
theorem swriteLoop_returned (hσ : NoErrors σ) {fuel : Nat} {buf : List UInt8} {io io' : Outgoing}
    {ret : Int} (h : swriteLoop σ size fuel buf io = some (ret, io')) :
    ret = size ∧ io'.wire = io.wire ++ buf := by
  induction fuel generalizing buf io with
  | zero => cases h
  | succ fuel ih =>
    by_cases hbuf : buf = []
    · rw [swriteLoop, if_pos hbuf] at h
      cases h
      exact ⟨rfl, by rw [hbuf, List.append_nil]⟩
    · cases hm : σ io.calls with
      | none => exact absurd hm (hσ io.calls)
      | some m =>
        rw [swriteLoop_step hbuf hm] at h
        obtain ⟨hret, hwire⟩ := ih h
        rw [List.append_assoc, List.take_append_drop] at hwire
        exact ⟨hret, hwire⟩

/-- `swrite` puts `buf` on the stream and returns. -/
def Writes (σ : Schedule) (size : Int) (buf : List UInt8) (io : Outgoing) : Prop :=
  ∃ N calls, ∀ fuel, N ≤ fuel →
    swriteLoop σ size fuel buf io = some (size, ⟨calls, io.wire ++ buf⟩)

theorem writes_nil (io : Outgoing) : Writes σ size [] io := by
  refine ⟨1, io.calls, fun fuel hf => ?_⟩
  obtain ⟨fuel, rfl⟩ := Nat.exists_eq_add_of_le' hf
  simp [swriteLoop]

/-- What is left after one `send` is what is left to write. -/
theorem writes_step {buf : List UInt8} {io : Outgoing} {m : Nat} (hbuf : buf ≠ [])
    (hm : σ io.calls = some m)
    (h : Writes σ size (buf.drop m) ⟨io.calls + 1, io.wire ++ buf.take m⟩) :
    Writes σ size buf io := by
  obtain ⟨N, calls, hrun⟩ := h
  refine ⟨N + 1, calls, fun fuel hf => ?_⟩
  obtain ⟨fuel, rfl⟩ : ∃ k, fuel = k + 1 := ⟨fuel - 1, by omega⟩
  rw [swriteLoop_step hbuf hm, hrun fuel (by omega), List.append_assoc, List.take_append_drop]

/-- **`swrite` returns**, however `send` cuts the bytes. -/
theorem writes_of_progress (size : Int) (hσ : NoErrors σ) (hp : Progress σ) (buf : List UInt8)
    (io : Outgoing) : Writes σ size buf io := by
  induction hlen : buf.length using Nat.strong_induction_on generalizing buf io with
  | _ len ihlen =>
    by_cases hbuf : buf = []
    · rw [hbuf]
      exact writes_nil io
    · have hpos : 0 < buf.length := List.length_pos_iff.mpr hbuf
      -- induction on how many calls may still answer 0
      obtain ⟨j, hj, n, hn⟩ := hp io.calls
      induction hd : j - io.calls generalizing io with
      | zero =>
        obtain rfl : j = io.calls := by omega
        exact writes_step hbuf hn (ihlen _ (by rw [List.length_drop]; omega) _ _ rfl)
      | succ d ihd =>
        cases hc : σ io.calls with
        | none => exact absurd hc (hσ io.calls)
        | some m =>
          cases m with
          | zero =>
            refine writes_step hbuf hc ?_
            exact ihd ⟨io.calls + 1, io.wire ++ []⟩ (by show io.calls + 1 ≤ j; omega)
              (by show j - (io.calls + 1) = d; omega)
          | succ m =>
            exact writes_step hbuf hc (ihlen _ (by rw [List.length_drop]; omega) _ _ rfl)

end LearnNotes.Net
