import Mathlib.Data.Nat.Digits.Defs
import LearnNotes.Utils.Lang

/-!
# Codes in hexadecimal

`Denotes key n`: `key` is `0x` or `0X` and the hexadecimal digits of `n`. `parse_hex_code` accepts
exactly such keys, and gives the number modulo `2^32` (`parse_hex_code_eq_some_iff`): the shift
drops the bits above. `parse_hex_code_exact_iff`: it is exact where the number fits, and two keys
give one code where their numbers agree modulo `2^32`. A `String` here is the text of the key, or
its bytes each as the character of that code: `parse_hex_code` knows no character from 128 on.
-/

namespace LearnNotes.Utils

/-- The number a hexadecimal digit stands for. -/
def digitNat (c : Char) : Option Nat := "0123456789abcdef".toList.idxOf? c.toLower

/-- `key` is a hexadecimal literal for `n`. -/
def Denotes (key : String) (n : Nat) : Prop :=
  ∃ x digits ds, key.toList = '0' :: x :: digits ∧ (x = 'x' ∨ x = 'X') ∧ digits ≠ [] ∧
    digits.mapM digitNat = some ds ∧ n = Nat.ofDigits 16 ds.reverse

/-- The call `parse_hex_code(key, out)`: what it returns, and what it leaves in `out`. -/
def parse_hex_code_out (key : String) (out : UInt32) : Bool × UInt32 :=
  match parse_hex_code key with
  | some value => (true, value)
  | none => (false, out)

/-- A key is accepted iff it stands for a number of 32 bits, and then `out` is the number. -/
def ParsesExactly (key : String) : Prop :=
  ∀ out,
    (∀ n, Denotes key n → n < 2 ^ 32 → parse_hex_code_out key out = (true, UInt32.ofNat n)) ∧
    ((¬ ∃ n, Denotes key n ∧ n < 2 ^ 32) → parse_hex_code_out key out = (false, out))

/-- Keys with one code stand for one number. -/
def SameNumber (key key' : String) : Prop :=
  ∀ code, parse_hex_code key = some code → parse_hex_code key' = some code →
    ∃ n, Denotes key n ∧ Denotes key' n

/-! ## Digits -/

theorem digitNat_lt {c : Char} {d : Nat} (h : digitNat c = some d) : d < 16 := by
  obtain ⟨hlt, -⟩ := List.idxOf?_eq_some_iff.mp h
  exact hlt

theorem digitNat_of_le {c : Char} (h : 128 ≤ c.toNat) : digitNat c = none := by
  have hlower : c.toLower = c := dif_neg fun hupper => by
    have hle : c.toNat ≤ 'Z'.toNat := hupper.2
    have : 'Z'.toNat < 128 := by decide
    omega
  refine List.idxOf?_eq_none_iff.mpr fun hmem => ?_
  have hall : ("0123456789abcdef".toList.all fun a => decide (a.toNat < 128)) = true := rfl
  have := of_decide_eq_true (List.all_eq_true.mp hall _ hmem)
  rw [hlower] at this
  omega

theorem hexDigit_of_le {c : Char} (h : 128 ≤ c.toNat) : hexDigit c = none := by
  have hle : ∀ a : Char, a.toNat < 128 → ¬ c ≤ a := fun a ha hc => by
    have : c.toNat ≤ a.toNat := hc
    omega
  simp [hexDigit, hle]

theorem hexDigit_eq (c : Char) : hexDigit c = (digitNat c).map UInt32.ofNat := by
  rcases Nat.lt_or_ge c.toNat 128 with hlt | hge
  · have hascii : ∀ n < 128,
        hexDigit (Char.ofNat n) = (digitNat (Char.ofNat n)).map UInt32.ofNat := by
      decide +kernel
    have := hascii c.toNat hlt
    rwa [Char.ofNat_toNat] at this
  · rw [hexDigit_of_le hge, digitNat_of_le hge]
    rfl

/-- One turn of the loop. -/
theorem shift_or (n : Nat) {d : Nat} (hd : d < 16) :
    (UInt32.ofNat n <<< 4) ||| UInt32.ofNat d = UInt32.ofNat (d + 16 * n) := by
  have hor : ∀ m, (m <<< 4) ||| d = d + 16 * m := fun m => by
    rw [← Nat.shiftLeft_add_eq_or_of_lt (show d < 2 ^ 4 from hd), Nat.shiftLeft_eq]
    omega
  have hshift : ((UInt32.ofNat n <<< 4).toNat) = ((n % 2 ^ 32) <<< 4) % 2 ^ 32 := by
    rw [UInt32.toNat_shiftLeft, UInt32.toNat_ofNat']
    rfl
  have hd' : d % 2 ^ 32 = d := Nat.mod_eq_of_lt (by omega)
  rw [← UInt32.toNat_inj, UInt32.toNat_or, hshift, UInt32.toNat_ofNat', UInt32.toNat_ofNat', hd',
    ← hor n, Nat.or_mod_two_pow, hd']
  congr 1
  simp only [Nat.shiftLeft_eq]
  exact Nat.mod_mul_mod _ _ _

/-- **The loop**: Horner's rule, modulo `2^32`. -/
theorem hexValue_eq (n : Nat) (cs : List Char) :
    hexValue (UInt32.ofNat n) cs =
      (cs.mapM digitNat).map fun ds => UInt32.ofNat (Nat.ofDigits 16 (ds.reverse ++ [n])) := by
  induction cs generalizing n with
  | nil => simp [hexValue]
  | cons c cs ih =>
    rw [hexValue, hexDigit_eq]
    cases hd : digitNat c with
    | none => simp [hd]
    | some d =>
      simp only [Option.map_some, shift_or n (digitNat_lt hd), ih, List.mapM_cons, hd]
      cases cs.mapM digitNat with
      | none => rfl
      | some ds =>
        have hds : Nat.ofDigits 16 (ds.reverse ++ [d + 16 * n]) =
            Nat.ofDigits 16 ((d :: ds).reverse ++ [n]) := by
          simp [Nat.ofDigits_append, Nat.ofDigits_cons]
        exact congrArg (some ∘ UInt32.ofNat) hds

/-- **What `parse_hex_code` accepts**, and the code it gives. -/
theorem parse_hex_code_eq_some_iff {key : String} {value : UInt32} :
    parse_hex_code key = some value ↔ ∃ n, Denotes key n ∧ value = UInt32.ofNat n := by
  have hzero : ∀ cs, hexValue 0 cs =
      (cs.mapM digitNat).map fun ds => UInt32.ofNat (Nat.ofDigits 16 ds.reverse) := fun cs => by
    have := hexValue_eq 0 cs
    simpa [Nat.ofDigits_append] using this
  constructor
  · intro h
    unfold parse_hex_code at h
    split at h
    · next x c cs hkey =>
      split at h
      · next hx =>
        rw [hzero, Option.map_eq_some_iff] at h
        obtain ⟨ds, hds, rfl⟩ := h
        exact ⟨_, ⟨x, c :: cs, ds, hkey, hx, List.cons_ne_nil c cs, hds, rfl⟩, rfl⟩
      · cases h
    · cases h
  · rintro ⟨n, ⟨x, digits, ds, hkey, hx, hne, hds, rfl⟩, rfl⟩
    obtain ⟨c, cs, rfl⟩ := List.exists_cons_of_ne_nil hne
    unfold parse_hex_code
    simp only [hkey, if_pos hx, hzero, hds, Option.map_some]

/-! ## Numbers -/

variable {key key' : String} {n n' : Nat}

/-- A key stands for one number at most. -/
theorem Denotes.unique (h : Denotes key n) (h' : Denotes key n') : n = n' := by
  obtain ⟨x, digits, ds, hkey, -, -, hds, rfl⟩ := h
  obtain ⟨x', digits', ds', hkey', -, -, hds', rfl⟩ := h'
  rw [hkey] at hkey'
  simp only [List.cons.injEq, true_and] at hkey'
  rw [← hkey'.2, hds, Option.some.injEq] at hds'
  rw [hds']

theorem Denotes.parse (h : Denotes key n) : parse_hex_code key = some (UInt32.ofNat n) :=
  parse_hex_code_eq_some_iff.mpr ⟨n, h, rfl⟩

theorem parse_eq_none_iff : parse_hex_code key = none ↔ ¬ ∃ n, Denotes key n := by
  constructor
  · rintro hnone ⟨n, hn⟩
    rw [hn.parse] at hnone
    cases hnone
  · intro hno
    refine Option.eq_none_iff_forall_ne_some.mpr fun value hvalue => ?_
    obtain ⟨n, hn, -⟩ := parse_hex_code_eq_some_iff.mp hvalue
    exact hno ⟨n, hn⟩

theorem parsesExactly_of_lt (h : ∀ n, Denotes key n → n < 2 ^ 32) : ParsesExactly key := by
  refine fun out => ⟨fun n hn _ => ?_, fun hno => ?_⟩
  · rw [parse_hex_code_out, hn.parse]
  · have hnone : parse_hex_code key = none :=
      parse_eq_none_iff.mpr fun ⟨n, hn⟩ => hno ⟨n, hn, h n hn⟩
    rw [parse_hex_code_out, hnone]

/-- A larger number is accepted all the same. -/
theorem ParsesExactly.lt (h : ParsesExactly key) (hn : Denotes key n) : n < 2 ^ 32 := by
  by_contra hlarge
  have hno : ¬ ∃ n', Denotes key n' ∧ n' < 2 ^ 32 := by
    rintro ⟨n', hn', hlt⟩
    exact hlarge (hn.unique hn' ▸ hlt)
  have hfalse := (h 0).2 hno
  rw [parse_hex_code_out, hn.parse] at hfalse
  cases hfalse

theorem parse_eq_parse_iff (hn : Denotes key n) (hn' : Denotes key' n') :
    parse_hex_code key = parse_hex_code key' ↔ n % 2 ^ 32 = n' % 2 ^ 32 := by
  rw [hn.parse, hn'.parse, Option.some.injEq, ← UInt32.toNat_inj, UInt32.toNat_ofNat',
    UInt32.toNat_ofNat']

theorem sameNumber_iff : SameNumber key key' ↔
    ∀ n n', Denotes key n → Denotes key' n' → n % 2 ^ 32 = n' % 2 ^ 32 → n = n' := by
  constructor
  · intro h n n' hn hn' hmod
    have hcode := (parse_eq_parse_iff hn hn').mpr hmod
    obtain ⟨k, hk, hk'⟩ := h _ hn.parse (hcode ▸ hn.parse)
    exact (hn.unique hk).trans (hk'.unique hn')
  · intro h code hcode hcode'
    obtain ⟨n, hn, -⟩ := parse_hex_code_eq_some_iff.mp hcode
    obtain ⟨n', hn', -⟩ := parse_hex_code_eq_some_iff.mp hcode'
    have heq := h n n' hn hn' ((parse_eq_parse_iff hn hn').mp (hcode.trans hcode'.symm))
    exact ⟨n, hn, heq ▸ hn'⟩

/-- **Exactly when a code is the number it is written as**, and when two keys tell two numbers
apart. -/
theorem parse_hex_code_exact_iff (key key' : String) :
    (ParsesExactly key ↔ ∀ n, Denotes key n → n < 2 ^ 32) ∧
      (SameNumber key key' ↔
        ∀ n n', Denotes key n → Denotes key' n' → n % 2 ^ 32 = n' % 2 ^ 32 → n = n') :=
  ⟨⟨fun h _ hn => h.lt hn, parsesExactly_of_lt⟩, sameNumber_iff⟩

/-- A digit too many: the code of `0x100000001` is that of `0x1`. -/
theorem parse_hex_code_overflows :
    ¬ ParsesExactly "0x100000001" ∧ ¬ SameNumber "0x1" "0x100000001" := by
  have hlong : Denotes "0x100000001" 4294967297 :=
    ⟨'x', "100000001".toList, [1, 0, 0, 0, 0, 0, 0, 0, 1], by decide, .inl rfl, by decide,
      by decide, by decide⟩
  have hshort : Denotes "0x1" 1 :=
    ⟨'x', ['1'], [1], by decide, .inl rfl, by decide, by decide, by decide⟩
  refine ⟨fun h => absurd (h.lt hlong) (by decide), fun h => ?_⟩
  have := sameNumber_iff.mp h 1 4294967297 hshort hlong (by decide)
  cases this

end LearnNotes.Utils
