import LearnNotes.Net.Package

/-!
# Is the version code decoded?

The rounds of `__Nd2N_encrypt` and `__Nd2N_dencrypt` shift a 16-bit word by 2 and by 6, which
turns 8 bits and not 16: bits meet in an or, and no round is injective
(`encryptRound_not_injective`). A round moves every bit by 2 modulo 8, so the word falls into eight
lanes of two bits that never meet (`lane_back`). A lane has few enough keys to try all of them, and
the code survives where the eight lanes do: `dencrypt_inverts_iff`.
-/

namespace LearnNotes.Net

/-- One round of `__Nd2N_dencrypt`, in 16 bits. -/
def dencryptRound (key : UInt16) (decrypted : ptlv_t) : ptlv_t :=
  ((decrypted >>> 2) ||| (decrypted <<< 6)) ^^^ key

/-- The steps of `__Nd2N_dencrypt`, on `code`. -/
def dencryptFrom (code : ptlv_t) (magic timestamp pkg_len crc32 : UInt32) : ptlv_t :=
  let dynkey := magic ^^^ timestamp ^^^ pkg_len ^^^ crc32
  let key : List UInt16 :=
    [((dynkey >>> 24) &&& 0xFF).toUInt16, ((dynkey >>> 16) &&& 0xFF).toUInt16,
      ((dynkey >>> 8) &&& 0xFF).toUInt16, (dynkey &&& 0xFFFF).toUInt16]
  key.foldr dencryptRound (code ^^^ (magic &&& 0xFF).toUInt16)

/-- `__Nd2N_dencrypt`: it starts from the protocol number, not from a code. -/
def Nd2N_dencrypt (magic timestamp pkg_len crc32 : UInt32) : ptlv_t :=
  dencryptFrom Nd2N magic timestamp pkg_len crc32

/-- The decryption of the code gives the protocol number. -/
def Inverts (magic timestamp pkg_len crc32 : UInt32) : Prop :=
  dencryptFrom (Nd2N_encrypt magic timestamp pkg_len crc32) magic timestamp pkg_len crc32 = Nd2N

/-- A packet of the client. -/
theorem hello_not_inverted : ¬ Inverts 0x0d000721 1700000000 30 0x1a2b3c4d := by
  unfold Inverts
  decide

/-- The bits 6 and 14 of a word meet. -/
theorem encryptRound_not_injective (key : UInt8) :
    ¬ Function.Injective fun code => encryptRound code key := by
  intro h
  have hcancel : ∀ x : UInt16, x ^^^ key.toUInt16 ^^^ key.toUInt16 = x := fun x => by
    rw [UInt16.xor_assoc, UInt16.xor_self, UInt16.xor_zero]
  have hmeet : encryptRound (0x0040 ^^^ key.toUInt16) key =
      encryptRound (0x4040 ^^^ key.toUInt16) key := by
    unfold encryptRound
    rw [hcancel, hcancel]
    rfl
  have heq := congrArg (· ^^^ key.toUInt16) (h hmeet)
  simp only [hcancel] at heq
  exact absurd heq (by decide)

/-! ## Lanes -/

/-- A bit of the low byte and the same bit of the high byte. -/
structure Lane where
  lo : Bool
  hi : Bool
  deriving DecidableEq

def lane {w : Nat} (c : Nat) (x : BitVec w) : Lane := ⟨x.getLsbD c, x.getLsbD (c + 8)⟩

/-- A word is its lanes. -/
theorem eq_iff_lanes {x y : BitVec 16} : x = y ↔ ∀ c < 8, lane c x = lane c y := by
  refine ⟨fun h c _ => by rw [h], fun h => BitVec.eq_of_getLsbD_eq fun i hi => ?_⟩
  have hlane := h (i % 8) (Nat.mod_lt i (by decide))
  simp only [lane, Lane.mk.injEq] at hlane
  obtain ⟨hlo, hhi⟩ := hlane
  have hi8 : i = i % 8 ∨ i = i % 8 + 8 := by omega
  rcases hi8 with heq | heq
  · rwa [← heq] at hlo
  · rwa [← heq] at hhi

namespace Lane

/-- The key bits of a lane on its way from `c` through `c + 2`, `c + 4` and `c + 6`: one a round,
the one above the last, which decryption adds, too, and the one of the magic number. -/
structure Key where
  k0 : Bool
  k1 : Bool
  k2 : Bool
  k3 : Bool
  above : Bool
  magic : Bool

/-- One encryption round on the lane `c`. -/
def turn (c : Nat) (key : Bool) (x : Lane) : Lane :=
  let lo := x.lo ^^ key
  if c < 6 then ⟨lo || x.hi, x.hi⟩ else ⟨lo, lo || x.hi⟩

/-- One decryption round to the lane `c`. -/
def turnBack (c : Nat) (key : Lane) (x : Lane) : Lane :=
  if c < 6 then ⟨x.lo ^^ key.lo, (x.hi || x.lo) ^^ key.hi⟩
  else ⟨(x.hi || x.lo) ^^ key.lo, x.hi ^^ key.hi⟩

/-- Four rounds, the magic number, and four rounds back. -/
def back (c : Nat) (k : Key) (x : Lane) : Lane :=
  let x := turn ((c + 6) % 8) k.k3
    (turn ((c + 4) % 8) k.k2 (turn ((c + 2) % 8) k.k1 (turn c k.k0 x)))
  let x : Lane := ⟨x.lo, x.hi ^^ k.magic⟩
  turnBack c ⟨k.k0, false⟩ (turnBack ((c + 2) % 8) ⟨k.k1, false⟩
    (turnBack ((c + 4) % 8) ⟨k.k2, false⟩ (turnBack ((c + 6) % 8) ⟨k.k3, k.above⟩ x)))

end Lane

variable {c : Nat} (x : ptlv_t)

theorem lane_encryptRound (hc : c < 8) (key : UInt8) :
    lane c (encryptRound x key).toBitVec =
      Lane.turn ((c + 6) % 8) (key.toBitVec.getLsbD ((c + 6) % 8))
        (lane ((c + 6) % 8) x.toBitVec) := by
  have hbits : (encryptRound x key).toBitVec =
      ((x.toBitVec ^^^ key.toBitVec.setWidth 16) <<< 2) |||
        ((x.toBitVec ^^^ key.toBitVec.setWidth 16) >>> 6) := rfl
  rw [hbits]
  interval_cases c <;> simp [lane, Lane.turn]

theorem lane_dencryptRound (hc : c < 8) (key : UInt16) :
    lane c (dencryptRound key x).toBitVec =
      Lane.turnBack c (lane c key.toBitVec) (lane ((c + 2) % 8) x.toBitVec) := by
  have hbits : (dencryptRound key x).toBitVec =
      ((x.toBitVec >>> 2) ||| (x.toBitVec <<< 6)) ^^^ key.toBitVec := rfl
  rw [hbits]
  interval_cases c <;> simp [lane, Lane.turnBack]

/-! ## The keys of a lane -/

/-- The dynamic key of the four fields. -/
def dynkey (magic timestamp pkg_len crc32 : UInt32) : UInt32 :=
  magic ^^^ timestamp ^^^ pkg_len ^^^ crc32

/-- The key of a lane, of the bits `d` of the dynamic key and `m` of the magic number. -/
def laneKey (d m : Nat → Bool) (c : Nat) : Lane.Key where
  k0 := d (24 + c)
  k1 := d (16 + (c + 2) % 8)
  k2 := d (8 + (c + 4) % 8)
  k3 := d ((c + 6) % 8)
  above := d (8 + (c + 6) % 8)
  magic := m (8 + c)

section Keys

variable (d : UInt32) (hc : c < 8)
include hc

theorem lane_low :
    lane c (d &&& 0xFF).toUInt16.toBitVec = ⟨d.toUInt8.toBitVec.getLsbD c, false⟩ := by
  interval_cases c <;> simp [lane]

theorem lane_word : lane c (d &&& 0xFFFF).toUInt16.toBitVec =
    ⟨d.toBitVec.getLsbD c, d.toBitVec.getLsbD (8 + c)⟩ := by
  interval_cases c <;> simp [lane]

/-- What both ends add of the magic number. -/
theorem lane_magic (x : ptlv_t) :
    lane c (x ^^^ (d &&& 0xFFFF).toUInt16 ^^^ (d &&& 0xFF).toUInt16).toBitVec =
      ⟨(lane c x.toBitVec).lo, (lane c x.toBitVec).hi ^^ d.toBitVec.getLsbD (8 + c)⟩ := by
  interval_cases c <;> simp [lane]

theorem bit_shiftRight (n : UInt32) (hn : n.toNat < 32) :
    (d >>> n).toUInt8.toBitVec.getLsbD c = d.toBitVec.getLsbD (n.toNat + c) := by
  have hmod : n.toNat % 32 = n.toNat := Nat.mod_eq_of_lt hn
  simp [hc, hmod]

end Keys

/-- **A lane there and back.** -/
theorem lane_back (hc : c < 8) (magic timestamp pkg_len crc32 : UInt32) :
    lane c (dencryptFrom (Nd2N_encrypt magic timestamp pkg_len crc32)
        magic timestamp pkg_len crc32).toBitVec =
      Lane.back c (laneKey (dynkey magic timestamp pkg_len crc32).toBitVec.getLsbD
        magic.toBitVec.getLsbD c) (lane c Nd2N.toBitVec) := by
  have h2 : (c + 2) % 8 < 8 := Nat.mod_lt _ (by decide)
  have h4 : (c + 4) % 8 < 8 := Nat.mod_lt _ (by decide)
  have h6 : (c + 6) % 8 < 8 := Nat.mod_lt _ (by decide)
  -- the lanes on the way back, and those the code came from
  have b4 : ((c + 2) % 8 + 2) % 8 = (c + 4) % 8 := by omega
  have b6 : ((c + 4) % 8 + 2) % 8 = (c + 6) % 8 := by omega
  have b8 : ((c + 6) % 8 + 2) % 8 = c := by omega
  have a4 : ((c + 6) % 8 + 6) % 8 = (c + 4) % 8 := by omega
  have a2 : ((c + 4) % 8 + 6) % 8 = (c + 2) % 8 := by omega
  have a0 : ((c + 2) % 8 + 6) % 8 = c := by omega
  unfold dencryptFrom Nd2N_encrypt
  simp only [List.foldr_cons, List.foldr_nil, List.foldl_cons, List.foldl_nil]
  rw [lane_dencryptRound _ hc, lane_dencryptRound _ h2, b4, lane_dencryptRound _ h4, b6,
    lane_dencryptRound _ h6, b8, lane_magic _ hc, lane_encryptRound _ hc,
    lane_encryptRound _ h6, a4, lane_encryptRound _ h4, a2, lane_encryptRound _ h2, a0,
    lane_low _ hc, lane_low _ h2, lane_low _ h4, lane_word _ h6, bit_shiftRight _ hc _ (by decide),
    bit_shiftRight _ h2 _ (by decide), bit_shiftRight _ h4 _ (by decide)]
  simp [Lane.back, laneKey, dynkey, h6]

/-! ## The lanes that survive -/

namespace Lane

/-- The lane survives under all keys for which `P` holds, and no others. -/
def SurvivesIff (c : Nat) (P : Bool → Bool → Bool → Bool → Bool → Bool → Bool) : Prop :=
  ∀ k0 k1 k2 k3 above magic,
    back c ⟨k0, k1, k2, k3, above, magic⟩ (lane c Nd2N.toBitVec) = lane c Nd2N.toBitVec ↔
      P k0 k1 k2 k3 above magic

instance (c : Nat) (P : Bool → Bool → Bool → Bool → Bool → Bool → Bool) :
    Decidable (SurvivesIff c P) := by
  unfold SurvivesIff
  infer_instance

theorem survives0 : SurvivesIff 0 fun k0 k1 k2 k3 above magic =>
    k0 && !k1 && !k2 && (!above || k3) && magic == (k3 ^^ above) := by
  decide +kernel

theorem survives1 : SurvivesIff 1 fun k0 k1 k2 k3 above magic =>
    k0 == ((!k3 || magic) ^^ k2 ^^ k1) && !(k3 && !magic && above && !k2 && !k0) := by
  decide +kernel

theorem survives2 : SurvivesIff 2 fun k0 k1 k2 k3 above magic =>
    k0 && !k1 && !(k2 && k3) && above == (k2 || k3 || magic) := by
  decide +kernel

theorem survives3 : SurvivesIff 3 fun k0 k1 k2 k3 above magic =>
    !k0 && !k1 && !(k2 && k3) && above == (k2 || k3 || magic) := by
  decide +kernel

theorem survives4 : SurvivesIff 4 fun k0 k1 k2 k3 above magic =>
    k0 && k1 == k2 && (!k1 || k3) && above == (k3 || magic) := by
  decide +kernel

theorem survives5 : SurvivesIff 5 fun k0 k1 k2 k3 above magic =>
    k0 && k1 == k2 && (!k1 || k3) && above == (k3 || magic) := by
  decide +kernel

theorem survives6 : SurvivesIff 6 fun k0 k1 k2 k3 above magic =>
    k0 == !k1 && !k2 && above == (k3 || magic) && (!k1 || k3) := by
  decide +kernel

theorem survives7 : SurvivesIff 7 fun k0 _ k2 k3 above _ => k0 && (k2 || !k3 || !above) := by
  decide +kernel

end Lane

/-- The bits `d` of the dynamic key and `m` of the magic number under which the code survives. -/
structure Survives (d m : Nat → Bool) : Prop where
  /-- The first byte of the key is `0xf5` or `0xf7`. -/
  first : d 24 ∧ d 26 ∧ ¬ d 27 ∧ d 28 ∧ d 29 ∧ d 30 ∧ d 31
  second : ¬ d 16 ∧ ¬ d 18 ∧ ¬ d 20 ∧ ¬ d 21 ∧ ¬ d 22
  third : ¬ d 8 ∧ ¬ d 10 ∧ ¬ d 12 ∧ ¬ d 14
  fourth : ¬ d 0 ∧ ¬ d 2 ∧ ¬ d 4
  magic : m 8 = d 6 ∧ ¬ m 10 ∧ ¬ m 12 ∧ ¬ m 14
  lane1 : d 25 = ((!d 7 || m 9) ^^ d 13 ^^ d 19) ∧ ¬ (d 7 ∧ ¬ m 9 ∧ d 15 ∧ ¬ d 13 ∧ ¬ d 25)
  lane3 : d 9 = (d 15 || d 1 || m 11) ∧ ¬ (d 15 ∧ d 1)
  lane5 : d 23 = d 9 ∧ (d 23 → d 3) ∧ d 11 = (d 3 || m 13)
  lane7 : d 13 → d 5 → d 11

variable {d m : Nat → Bool}

/-- Read off the lanes, the bits that lead to one known to be clear first. -/
theorem survives_of_lanes
    (h : ∀ c < 8, Lane.back c (laneKey d m c) (lane c Nd2N.toBitVec) = lane c Nd2N.toBitVec) :
    Survives d m := by
  have h0 := (Lane.survives0 ..).mp (h 0 (by decide))
  have h1 := (Lane.survives1 ..).mp (h 1 (by decide))
  have h2 := (Lane.survives2 ..).mp (h 2 (by decide))
  have h3 := (Lane.survives3 ..).mp (h 3 (by decide))
  have h4 := (Lane.survives4 ..).mp (h 4 (by decide))
  have h5 := (Lane.survives5 ..).mp (h 5 (by decide))
  have h6 := (Lane.survives6 ..).mp (h 6 (by decide))
  have h7 := (Lane.survives7 ..).mp (h 7 (by decide))
  simp only [Nat.reduceAdd, Nat.reduceMod, Bool.and_eq_true, Bool.or_eq_true, Bool.not_eq_true',
    beq_iff_eq] at h0 h1 h2 h3 h4 h5 h6 h7
  obtain ⟨⟨⟨⟨h24, h18⟩, h12⟩, -⟩, hm8⟩ := h0
  obtain ⟨⟨⟨h26, h20⟩, -⟩, h8⟩ := h2
  obtain ⟨⟨⟨h28, h22⟩, h22_2⟩, h10⟩ := h4
  obtain ⟨⟨⟨h30, h10'⟩, h12'⟩, h16_4⟩ := h6
  -- the bit 10 is clear, and with it all that lead to it
  rw [h10', eq_comm, Bool.or_eq_false_iff] at h10
  rw [h12, eq_comm, Bool.or_eq_false_iff] at h12'
  have h22' : d 22 = false := h22_2.resolve_right (by simp [h10.1])
  rw [← h22, h22', eq_comm, Bool.or_eq_false_iff, Bool.or_eq_false_iff] at h8
  have h16 : d 16 = false := h16_4.resolve_right (by simp [h12'.1])
  rw [h8.1.1, Bool.xor_false] at hm8
  rw [h16] at h30
  obtain ⟨⟨⟨h27, h21⟩, h15_1⟩, h9⟩ := h3
  obtain ⟨⟨⟨h29, h23⟩, h23_3⟩, h11⟩ := h5
  constructor
  case first => simp [h24, h26, h27, h28, h29, h30, h7.1]
  case second => simp [h16, h18, h20, h21, h22']
  case third => simp [← h22, h22', h10', h12, h8]
  case fourth => simp [h8, h10, h12']
  case magic => simp [hm8, h8, h10, h12']
  case lane1 => exact ⟨h1.1, by simpa using h1.2⟩
  case lane3 => exact ⟨h9, by simpa using h15_1⟩
  case lane5 => exact ⟨h23, fun h => h23_3.resolve_left (by simp [h]), h11⟩
  case lane7 => exact fun h13 h5 => by simpa [h13, h5] using h7.2

theorem lanes_of_survives (h : Survives d m) :
    ∀ c < 8, Lane.back c (laneKey d m c) (lane c Nd2N.toBitVec) = lane c Nd2N.toBitVec := by
  obtain ⟨⟨h24, h26, h27, h28, h29, h30, h31⟩, ⟨h16, h18, h20, h21, h22⟩, ⟨h8, h10, h12, h14⟩,
    ⟨h0, h2, h4⟩, ⟨hm8, hm10, hm12, hm14⟩, ⟨h25, hout⟩, ⟨h9, h15_1⟩, ⟨h23, h23_3, h11⟩, h13⟩ := h
  intro c hc
  simp only [Bool.not_eq_true] at *
  interval_cases c
  · exact (Lane.survives0 ..).mpr (by simp [*])
  · exact (Lane.survives1 ..).mpr (by simp [h25] at *; grind)
  · exact (Lane.survives2 ..).mpr (by simp [*])
  · exact (Lane.survives3 ..).mpr (by simp; grind)
  · exact (Lane.survives4 ..).mpr (by simp [*])
  · exact (Lane.survives5 ..).mpr (by simp; grind)
  · exact (Lane.survives6 ..).mpr (by simp [*])
  · exact (Lane.survives7 ..).mpr (by simp; grind)

theorem lanes_survive_iff (d m : Nat → Bool) :
    (∀ c < 8, Lane.back c (laneKey d m c) (lane c Nd2N.toBitVec) = lane c Nd2N.toBitVec) ↔
      Survives d m :=
  ⟨survives_of_lanes, lanes_of_survives⟩

/-- **Exactly where decryption inverts encryption.** No round is injective. -/
theorem dencrypt_inverts_iff (magic timestamp pkg_len crc32 : UInt32) (key : UInt8) :
    (Inverts magic timestamp pkg_len crc32 ↔
      Survives (dynkey magic timestamp pkg_len crc32).toBitVec.getLsbD magic.toBitVec.getLsbD) ∧
    ¬ Function.Injective fun code => encryptRound code key := by
  refine ⟨?_, encryptRound_not_injective key⟩
  unfold Inverts
  rw [← UInt16.toBitVec_inj, eq_iff_lanes, ← lanes_survive_iff]
  refine forall₂_congr fun c hc => ?_
  rw [lane_back hc]

end LearnNotes.Net
