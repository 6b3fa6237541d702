import Mathlib.Data.UInt
import LearnNotes.Lib.CString

/-!
# Charset conversion

`u2g` and `g2u` of `learn_xml/wxn_codeConv.cpp` hand a string to `iconv` with a buffer of
`2 * strlen(inbuf) - 1` bytes. `iconv` writes the converted bytes and no NUL behind them; the string
ends because the buffer was cleared and one byte of it is left. Every character takes up fewer
than twice the bytes it came from (`surplus`), so with two characters there is room for the NUL;
with one there may not be, and with none the size wraps: `converts_iff`.
-/

namespace LearnNotes.Xml

open Lib

def SIZE_MAX : Nat := 18446744073709551615

/-- The difference of two `size_t`. -/
def sizeSub (a b : Nat) : Nat := (a + (SIZE_MAX + 1) - b) % (SIZE_MAX + 1)

inductive Charset where
  | utf8
  | gb2312
  deriving DecidableEq

/-- The name `iconv_open` is given. -/
def Charset.name : Charset → String
  | utf8 => "utf-8"
  | gb2312 => "gb2312"

/-- The other charset. -/
def Charset.other : Charset → Charset
  | utf8 => gb2312
  | gb2312 => utf8

/-! ## Text -/

/-- ASCII; what has two bytes in either charset, as Greek and Cyrillic letters have; and what has
two in GB2312 and three in UTF-8: the Chinese characters, and also kana, full-width letters,
punctuation and box drawing. -/
inductive Kind where
  | ascii
  | letter
  | wide
  deriving DecidableEq

def Kind.width : Charset → Kind → Nat
  | _, ascii => 1
  | _, letter => 2
  | .utf8, wide => 3
  | .gb2312, wide => 2

/-- The characters of either charset, with their bytes where a charset has them. Those that one of
the two lacks have no `kind`. -/
structure Repertoire (χ : Type) where
  kind : χ → Option Kind
  encode : Charset → χ → Option (List UInt8)
  encode_kind : ∀ cs c k, kind c = some k →
    ∃ bytes, encode cs c = some bytes ∧ bytes.length = k.width cs
  encode_lacking : ∀ cs c bytes, kind c = none → encode cs c = some bytes →
    encode cs.other c = none
  ne_nil : ∀ cs c, encode cs c ≠ some []
  no_nul : ∀ cs c bytes, encode cs c = some bytes → 0 ∉ bytes

variable {χ : Type}

/-- The bytes of a text in a charset that has all of its characters. -/
def Repertoire.bytes (R : Repertoire χ) (cs : Charset) : List χ → Option (List UInt8)
  | [] => some []
  | c :: text =>
    match R.encode cs c, R.bytes cs text with
    | some first, some rest => some (first ++ rest)
    | _, _ => none

/-- A string that is valid in the charset, and fits in memory: no object is larger than
`PTRDIFF_MAX`. -/
structure Input (R : Repertoire χ) (cs : Charset) where
  text : List χ
  inbuf : List UInt8
  valid : R.bytes cs text = some inbuf
  fits : inbuf.length + 1 < 2 ^ 63

/-! ## The library -/

/-- `malloc`, the descriptors `iconv_open` gives, -1 for none, and the bytes `iconv` turns a text
into, none where the other charset lacks a character. -/
structure Platform (R : Repertoire χ) where
  malloc : Nat → Option (List UInt8)
  malloc_length : ∀ n block, malloc n = some block → block.length = n
  iconv_open : String → String → Int
  convert : Charset → Charset → List UInt8 → Option (List UInt8)
  convert_bytes : ∀ from_charset to_charset text inbuf, R.bytes from_charset text = some inbuf →
    convert from_charset to_charset inbuf = R.bytes to_charset text

variable {R : Repertoire χ} (p : Platform R)

/-- `iconv` into a buffer, without result where it is -1: the descriptor, the bytes or the room
for them are wanting. -/
def iconv (cd : Int) (from_charset to_charset : Charset) (inbuf outbuf : List UInt8) :
    Option (List UInt8) :=
  if cd = -1 then none
  else
    match p.convert from_charset to_charset inbuf with
    | none => none
    | some bytes => CString.put outbuf 0 bytes

/-! ## The functions -/

/-- `memset(outbuf, 0, outlen)`; through a null pointer it has no result. -/
def memset (outlen : Nat) : Option (List UInt8) → Option (List UInt8)
  | some outbuf => some (List.replicate outlen 0 ++ outbuf.drop outlen)
  | none => if outlen = 0 then some [] else none

/-- What `code_convert` comes to: 0 with this in `outbuf`, -1, or no result. -/
inductive Status where
  | ok (outbuf : List UInt8)
  | failed
  | undefined

def code_convert (from_charset to_charset : Charset) (inbuf : List UInt8)
    (outbuf : Option (List UInt8)) (outlen : Nat) : Status :=
  let cd := p.iconv_open to_charset.name from_charset.name
  if cd = 0 then .failed
  else
    match memset outlen outbuf with
    | none => .undefined
    | some outbuf =>
      match iconv p cd from_charset to_charset inbuf outbuf with
      | none => .failed
      | some outbuf => .ok outbuf

/-- `2 * strlen(inbuf) - 1`. -/
def nOutLen (inbuf : List UInt8) : Nat := sizeSub (2 * inbuf.length % (SIZE_MAX + 1)) 1

/-- What `u2g` and `g2u` return. -/
inductive Returned where
  | pOut (block : List UInt8)
  | nullptr
  | undefined

/-- The two functions are one but for the charsets. -/
def convertString (from_charset to_charset : Charset) (inbuf : List UInt8) : Returned :=
  let pOut := p.malloc (nOutLen inbuf)
  match code_convert p from_charset to_charset inbuf pOut (nOutLen inbuf) with
  | .failed => .nullptr
  | .ok block => .pOut block
  | .undefined => .undefined

def u2g (inbuf : List UInt8) : Returned := convertString p .utf8 .gb2312 inbuf

def g2u (inbuf : List UInt8) : Returned := convertString p .gb2312 .utf8 inbuf

/-! ## Lengths -/

variable {cs to_charset : Charset} {text : List χ} {inbuf outbuf : List UInt8}

theorem bytes_cons {c : χ} (h : R.bytes cs (c :: text) = some inbuf) :
    ∃ first rest, R.encode cs c = some first ∧ R.bytes cs text = some rest ∧
      inbuf = first ++ rest := by
  cases hfirst : R.encode cs c with
  | none => simp [Repertoire.bytes, hfirst] at h
  | some first =>
    cases hrest : R.bytes cs text with
    | none => simp [Repertoire.bytes, hrest] at h
    | some rest =>
      refine ⟨first, rest, rfl, rfl, ?_⟩
      simpa [Repertoire.bytes, hfirst, hrest] using h.symm

theorem bytes_singleton {c : χ} {first : List UInt8} (h : R.encode cs c = some first) :
    R.bytes cs [c] = some first := by
  simp [Repertoire.bytes, h]

theorem no_nul_bytes (h : R.bytes cs text = some inbuf) : 0 ∉ inbuf := by
  induction text generalizing inbuf with
  | nil =>
    rw [← Option.some.inj h]
    exact List.not_mem_nil
  | cons c text ih =>
    obtain ⟨first, rest, hfirst, hrest, rfl⟩ := bytes_cons h
    intro hmem
    rcases List.mem_append.mp hmem with hmem | hmem
    · exact R.no_nul cs c first hfirst hmem
    · exact ih hrest hmem

theorem length_bytes_pos (h : R.bytes cs text = some inbuf) (hne : text ≠ []) :
    0 < inbuf.length := by
  cases text with
  | nil => exact absurd rfl hne
  | cons c text =>
    obtain ⟨first, rest, hfirst, -, rfl⟩ := bytes_cons h
    have hpos : 0 < first.length := by
      apply List.length_pos_iff.mpr
      rintro rfl
      exact R.ne_nil cs c hfirst
    rw [List.length_append]
    omega

/-- A character that both charsets have is of one of the kinds. -/
theorem exists_kind {c : χ} {first first' : List UInt8} (h : R.encode cs c = some first)
    (h' : R.encode cs.other c = some first') :
    ∃ k, R.kind c = some k ∧ first.length = k.width cs ∧ first'.length = k.width cs.other := by
  cases hk : R.kind c with
  | none =>
    rw [R.encode_lacking cs c first hk h] at h'
    cases h'
  | some k =>
    obtain ⟨bytes, hbytes, hlen⟩ := R.encode_kind cs c k hk
    obtain ⟨bytes', hbytes', hlen'⟩ := R.encode_kind cs.other c k hk
    rw [h] at hbytes
    rw [h'] at hbytes'
    cases hbytes
    cases hbytes'
    exact ⟨k, rfl, hlen, hlen'⟩

/-- A character has less than twice the bytes in the other charset. -/
theorem Kind.width_lt (k : Kind) (cs : Charset) : k.width cs.other < 2 * k.width cs := by
  cases k <;> cases cs <;> decide

/-- **The surplus** of the formula is a byte for each character. -/
theorem surplus (h : R.bytes cs text = some inbuf) (hout : R.bytes cs.other text = some outbuf) :
    outbuf.length + text.length ≤ 2 * inbuf.length := by
  induction text generalizing inbuf outbuf with
  | nil =>
    rw [← Option.some.inj hout]
    exact Nat.zero_le _
  | cons c text ih =>
    obtain ⟨first, rest, hfirst, hrest, rfl⟩ := bytes_cons h
    obtain ⟨first', rest', hfirst', hrest', rfl⟩ := bytes_cons hout
    obtain ⟨k, -, hlen, hlen'⟩ := exists_kind hfirst hfirst'
    have hwidth := k.width_lt cs
    have hrests := ih hrest hrest'
    rw [List.length_append, List.length_append, List.length_cons]
    omega

/-- A text of one character that leaves no byte over. -/
def Tight (R : Repertoire χ) (cs : Charset) (text : List χ) : Prop :=
  ∃ c, text = [c] ∧ (R.kind c = some .ascii ∨ cs = .gb2312 ∧ R.kind c = some .wide)

theorem tight_utf8 : Tight R .utf8 text ↔ ∃ c, text = [c] ∧ R.kind c = some .ascii := by
  simp [Tight]

theorem tight_gb2312 : Tight R .gb2312 text ↔
    ∃ c, text = [c] ∧ (R.kind c = some .ascii ∨ R.kind c = some .wide) := by
  simp [Tight]

/-- The other charset has that character. -/
theorem Tight.bytes_other (h : Tight R cs text) :
    ∃ outbuf, R.bytes cs.other text = some outbuf := by
  obtain ⟨c, rfl, hkind⟩ := h
  obtain ⟨k, hk⟩ : ∃ k, R.kind c = some k := by
    rcases hkind with hk | ⟨-, hk⟩ <;> exact ⟨_, hk⟩
  obtain ⟨first, hfirst, -⟩ := R.encode_kind cs.other c k hk
  exact ⟨first, bytes_singleton hfirst⟩

/-- There is room for the NUL in all but the tight texts. -/
theorem room_iff (h : R.bytes cs text = some inbuf) (hout : R.bytes cs.other text = some outbuf)
    (hne : text ≠ []) : outbuf.length + 2 ≤ 2 * inbuf.length ↔ ¬ Tight R cs text := by
  have hsurplus := surplus h hout
  cases text with
  | nil => exact absurd rfl hne
  | cons c text =>
    cases text with
    | nil =>
      obtain ⟨first, rest, hfirst, hrest, rfl⟩ := bytes_cons h
      obtain ⟨first', rest', hfirst', hrest', rfl⟩ := bytes_cons hout
      obtain ⟨k, hk, hlen, hlen'⟩ := exists_kind hfirst hfirst'
      cases hrest
      cases hrest'
      have htight : Tight R cs [c] ↔ k = .ascii ∨ cs = .gb2312 ∧ k = .wide := by
        constructor
        · rintro ⟨d, hd, hkind⟩
          rwa [← List.singleton_inj.mp hd, hk, Option.some.injEq, Option.some.injEq] at hkind
        · intro hkind
          exact ⟨c, rfl, by rwa [hk, Option.some.injEq, Option.some.injEq]⟩
      rw [htight, List.append_nil, List.append_nil, hlen, hlen']
      cases k <;> cases cs <;> decide
    | cons d text =>
      rw [List.length_cons, List.length_cons] at hsurplus
      refine iff_of_true (by omega) ?_
      rintro ⟨e, he, -⟩
      cases he

theorem nOutLen_eq (h : 0 < inbuf.length) (hfits : inbuf.length < 2 ^ 63) :
    nOutLen inbuf = 2 * inbuf.length - 1 := by
  unfold nOutLen sizeSub SIZE_MAX
  omega

/-- Nothing less one byte. -/
theorem nOutLen_nil : nOutLen [] = SIZE_MAX := rfl

/-! ## Calls -/

/-- There is memory, and a descriptor. -/
def Platform.Answers (cs to_charset : Charset) (inbuf : List UInt8) : Prop :=
  (p.malloc (nOutLen inbuf)).isSome ∧ p.iconv_open to_charset.name cs.name ≠ 0 ∧
    p.iconv_open to_charset.name cs.name ≠ -1

variable {p}

/-- A call that gets memory and a descriptor: the bytes with what is left of the buffer, or a
null pointer where there are none or they do not fit. -/
theorem convertString_of_answers (h : p.Answers cs to_charset inbuf)
    (hin : R.bytes cs text = some inbuf) :
    convertString p cs to_charset inbuf =
      match R.bytes to_charset text with
      | none => .nullptr
      | some outbuf =>
        if outbuf.length ≤ nOutLen inbuf then
          .pOut (outbuf ++ List.replicate (nOutLen inbuf - outbuf.length) 0)
        else .nullptr := by
  obtain ⟨hmalloc, hzero, hminus⟩ := h
  obtain ⟨block, hblock⟩ := Option.isSome_iff_exists.mp hmalloc
  have hcleared : memset (nOutLen inbuf) (some block) =
      some (List.replicate (nOutLen inbuf) 0) := by
    rw [memset, ← p.malloc_length _ _ hblock, List.drop_length, List.append_nil]
  simp only [convertString, code_convert, hblock, hcleared, if_neg hzero, iconv, if_neg hminus,
    p.convert_bytes _ _ _ _ hin]
  cases hout : R.bytes to_charset text with
  | none => rfl
  | some outbuf =>
    by_cases hfit : outbuf.length ≤ nOutLen inbuf
    · simp only [CString.put_cleared hfit, if_pos hfit]
    · have hput : CString.put (List.replicate (nOutLen inbuf) 0) 0 outbuf = none := by
        rw [CString.put, List.length_replicate, Nat.zero_add, if_neg hfit]
      simp only [hput, if_neg hfit]

/-- A pointer is only returned by such a call. -/
theorem answers_of_pOut {block : List UInt8}
    (h : convertString p cs to_charset inbuf = .pOut block) : p.Answers cs to_charset inbuf := by
  have hodd : nOutLen inbuf ≠ 0 := by
    unfold nOutLen sizeSub SIZE_MAX
    omega
  unfold Platform.Answers
  by_cases hzero : p.iconv_open to_charset.name cs.name = 0
  · simp [convertString, code_convert, hzero] at h
  by_cases hminus : p.iconv_open to_charset.name cs.name = -1
  · cases hm : memset (nOutLen inbuf) (p.malloc (nOutLen inbuf)) <;>
      simp [convertString, code_convert, hm, iconv, hminus] at h
  cases hmalloc : p.malloc (nOutLen inbuf) with
  | none => simp [convertString, code_convert, hmalloc, memset, hzero, hodd] at h
  | some block => exact ⟨rfl, hzero, hminus⟩

/-- The string comes back terminated inside its buffer, whose size was computed without wrapping. -/
structure Terminated (f : List UInt8 → Returned) (s : Input R cs) : Prop where
  no_underflow : (nOutLen s.inbuf : Int) = 2 * s.inbuf.length - 1
  holds : ∀ block, f s.inbuf = .pOut block →
    ∃ converted, R.bytes cs.other s.text = some converted ∧
      converted.length + 1 ≤ nOutLen s.inbuf ∧ block.length = nOutLen s.inbuf ∧
      CString.Holds block converted

theorem Terminated.ne_nil {f : List UInt8 → Returned} {s : Input R cs} (h : Terminated f s) :
    s.text ≠ [] := by
  intro hnil
  have hvalid := s.valid
  rw [hnil] at hvalid
  have hsize := h.no_underflow
  rw [← Option.some.inj hvalid, nOutLen_nil] at hsize
  exact absurd hsize (by decide)

theorem Input.nOutLen_eq (s : Input R cs) (hne : s.text ≠ []) :
    nOutLen s.inbuf = 2 * s.inbuf.length - 1 :=
  Xml.nOutLen_eq (length_bytes_pos s.valid hne) (Nat.lt_of_succ_lt s.fits)

/-- A tight text is returned, in a buffer that its bytes fill. -/
theorem Terminated.not_tight {s : Input R cs} (h : Terminated (convertString p cs cs.other) s)
    (hanswers : p.Answers cs cs.other s.inbuf) : ¬ Tight R cs s.text := by
  intro htight
  obtain ⟨outbuf, hout⟩ := htight.bytes_other
  have hsize := s.nOutLen_eq h.ne_nil
  have hsurplus := surplus s.valid hout
  have hlen := List.length_pos_iff.mpr h.ne_nil
  have hfit : outbuf.length ≤ nOutLen s.inbuf := by omega
  have hcall := convertString_of_answers hanswers s.valid
  simp only [hout, if_pos hfit] at hcall
  obtain ⟨converted, hconverted, hroom, -⟩ := h.holds _ hcall
  rw [hout] at hconverted
  cases hconverted
  exact (room_iff s.valid hout h.ne_nil).mp (by omega) htight

theorem terminated_of_not_tight {s : Input R cs} (hne : s.text ≠ [])
    (htight : p.Answers cs cs.other s.inbuf → ¬ Tight R cs s.text) :
    Terminated (convertString p cs cs.other) s := by
  have hpos := length_bytes_pos s.valid hne
  have hsize := s.nOutLen_eq hne
  refine ⟨by omega, fun block hblock => ?_⟩
  have hanswers := answers_of_pOut hblock
  rw [convertString_of_answers hanswers s.valid] at hblock
  cases hout : R.bytes cs.other s.text with
  | none => simp [hout] at hblock
  | some outbuf =>
    have hroom := (room_iff s.valid hout hne).mpr (htight hanswers)
    have hfit : outbuf.length ≤ nOutLen s.inbuf := by omega
    simp only [hout, if_pos hfit] at hblock
    cases hblock
    refine ⟨outbuf, rfl, by omega, ?_,
      (CString.holds_padded_iff (no_nul_bytes hout)).mpr (by omega)⟩
    rw [List.length_append, List.length_replicate]
    omega

theorem terminated_iff (s : Input R cs) :
    Terminated (convertString p cs cs.other) s ↔
      s.text ≠ [] ∧ (p.Answers cs cs.other s.inbuf → ¬ Tight R cs s.text) :=
  ⟨fun h => ⟨h.ne_nil, h.not_tight⟩, fun h => terminated_of_not_tight h.1 h.2⟩

variable (p) in
/-- **Conversion either way.** The result is a terminated string iff there is a character, and, in
a call that gets memory and a descriptor, not a single one that is ASCII or, for `g2u`, wide. -/
theorem converts_iff :
    (∀ s : Input R .utf8, Terminated (u2g p) s ↔
        s.text ≠ [] ∧ (p.Answers .utf8 .gb2312 s.inbuf →
          ¬ ∃ c, s.text = [c] ∧ R.kind c = some .ascii)) ∧
      ∀ s : Input R .gb2312, Terminated (g2u p) s ↔
        s.text ≠ [] ∧ (p.Answers .gb2312 .utf8 s.inbuf →
          ¬ ∃ c, s.text = [c] ∧ (R.kind c = some .ascii ∨ R.kind c = some .wide)) := by
  constructor
  · intro s
    rw [← tight_utf8]
    exact terminated_iff s
  · intro s
    rw [← tight_gb2312]
    exact terminated_iff s

/-! ## One character -/

/-- A letter, a Greek one, a Chinese character and a sign that GB2312 lacks. -/
inductive Sample where
  | A
  | alpha
  | zhong
  | euro

def Sample.kind : Sample → Option Kind
  | A => some .ascii
  | alpha => some .letter
  | zhong => some .wide
  | euro => none

def Sample.encode : Charset → Sample → Option (List UInt8)
  | _, A => some [0x41]
  | .utf8, alpha => some [0xCE, 0xB1]
  | .gb2312, alpha => some [0xA6, 0xC1]
  | .utf8, zhong => some [0xE4, 0xB8, 0xAD]
  | .gb2312, zhong => some [0xD6, 0xD0]
  | .utf8, euro => some [0xE2, 0x82, 0xAC]
  | .gb2312, euro => none

def sample : Repertoire Sample where
  kind := Sample.kind
  encode := Sample.encode
  encode_kind cs c k h := by cases cs <;> cases c <;> cases h <;> exact ⟨_, rfl, rfl⟩
  encode_lacking cs c bytes hkind h := by
    cases c <;> cases hkind
    cases cs with
    | utf8 => rfl
    | gb2312 => cases h
  ne_nil cs c := by cases cs <;> cases c <;> decide
  no_nul cs c bytes h := by cases cs <;> cases c <;> cases h <;> decide

def decode : Charset → List UInt8 → Option (List Sample)
  | _, [] => some []
  | cs, 0x41 :: bytes => (decode cs bytes).map (.A :: ·)
  | .utf8, 0xCE :: 0xB1 :: bytes => (decode .utf8 bytes).map (.alpha :: ·)
  | .gb2312, 0xA6 :: 0xC1 :: bytes => (decode .gb2312 bytes).map (.alpha :: ·)
  | .utf8, 0xE4 :: 0xB8 :: 0xAD :: bytes => (decode .utf8 bytes).map (.zhong :: ·)
  | .gb2312, 0xD6 :: 0xD0 :: bytes => (decode .gb2312 bytes).map (.zhong :: ·)
  | .utf8, 0xE2 :: 0x82 :: 0xAC :: bytes => (decode .utf8 bytes).map (.euro :: ·)
  | _, _ => none

theorem decode_bytes {cs : Charset} {text : List Sample} {inbuf : List UInt8}
    (h : sample.bytes cs text = some inbuf) : decode cs inbuf = some text := by
  induction text generalizing inbuf with
  | nil =>
    rw [← Option.some.inj h]
    cases cs <;> rfl
  | cons c text ih =>
    obtain ⟨first, rest, hfirst, hrest, rfl⟩ := bytes_cons h
    have hdecode := ih hrest
    cases cs <;> cases c <;> cases hfirst <;> simp [decode, hdecode]

/-- A C library with these characters, and memory for 1024 bytes. -/
def samplePlatform : Platform sample where
  malloc n := if n ≤ 1024 then some (List.replicate n 0) else none
  malloc_length n block h := by
    split at h
    · rw [← Option.some.inj h, List.length_replicate]
    · cases h
  iconv_open _ _ := 3
  convert from_charset to_charset inbuf :=
    (decode from_charset inbuf).bind (sample.bytes to_charset)
  convert_bytes from_charset to_charset text inbuf h := by rw [decode_bytes h]; rfl

/-- `"A"`. -/
def letterA : Input sample .utf8 where
  text := [.A]
  inbuf := [0x41]
  valid := rfl
  fits := by decide

/-- One Chinese character. -/
def oneZhong : Input sample .gb2312 where
  text := [.zhong]
  inbuf := [0xD6, 0xD0]
  valid := rfl
  fits := by decide

/-- `""`. -/
def noText : Input sample .utf8 where
  text := []
  inbuf := []
  valid := rfl
  fits := by decide

/-- The letter to GB2312 and the Chinese character to UTF-8 fill their buffers, and the size for
the empty string wraps. -/
theorem short_unterminated :
    ¬ Terminated (u2g samplePlatform) letterA ∧ ¬ Terminated (g2u samplePlatform) oneZhong ∧
      ¬ Terminated (u2g samplePlatform) noText := by
  refine ⟨fun h => ?_, fun h => ?_, fun h => ?_⟩
  · obtain ⟨converted, hconverted, hroom, -⟩ := h.holds [0x41] (by rfl)
    cases hconverted
    exact absurd hroom (by decide)
  · obtain ⟨converted, hconverted, hroom, -⟩ := h.holds [0xE4, 0xB8, 0xAD] (by rfl)
    cases hconverted
    exact absurd hroom (by decide)
  · exact absurd h.no_underflow (by decide)

end LearnNotes.Xml
