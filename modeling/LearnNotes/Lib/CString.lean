import LearnNotes.Lib.Arena

/-!
# Strings in memory

A block of memory holds a string where its characters stand at the front of it with a 0 behind
them. The functions of `<string.h>` on such blocks have no result where they would touch a cell
outside: `strlen_holding`, `strcpy_eq`, `strcat_holding` and `strncpy_eq` say what they do where
there is room, `strrchr_last` where the last occurrence of a character is.
-/

namespace Lib.CString

variable {α : Type} [Zero α]

/-- `cells` written over a block from `off` on, inside of it. -/
def put {α : Type} (block : List α) (off : Nat) (cells : List α) : Option (List α) :=
  if off + cells.length ≤ block.length then some (Arena.overwrite block off cells) else none

def strcpy (dst src : List α) : Option (List α) := put dst 0 (src ++ [0])

/-- Exactly `n` cells, filled up with 0. -/
def strncpy (dst src : List α) (n : Nat) : Option (List α) :=
  put dst 0 (src.take n ++ List.replicate (n - src.length) 0)

/-- The block holds the string `s`. -/
def Holds (block s : List α) : Prop := 0 ∉ s ∧ ∃ rest, block = s ++ 0 :: rest

variable [DecidableEq α]

def strlen (block : List α) : Option Nat := if 0 ∈ block then some (block.idxOf 0) else none

def strcat (dst src : List α) : Option (List α) :=
  match strlen dst with
  | none => none
  | some n => put dst n (src ++ [0])

/-- Where the last `c` of a string is. -/
def strrchr (s : List α) (c : α) : Option Nat :=
  if c ∈ s then some (s.length - 1 - s.reverse.idxOf c) else none

variable {block dst s t rest : List α} {c : α} {n : Nat}

omit [Zero α] in
theorem idxOf_behind (h : c ∉ s) : (s ++ c :: rest).idxOf c = s.length := by
  rw [List.idxOf_append_of_notMem h, List.idxOf_cons_self, Nat.add_zero]

theorem strlen_holding (h : 0 ∉ s) : strlen (s ++ 0 :: rest) = some s.length := by
  rw [strlen, if_pos (List.mem_append_right s List.mem_cons_self), idxOf_behind h]

theorem Holds.strlen (h : Holds block s) : strlen block = some s.length := by
  obtain ⟨hs, rest, rfl⟩ := h
  exact strlen_holding hs

/-- A block holds one string. -/
theorem Holds.unique (hs : Holds block s) (ht : Holds block t) : s = t := by
  have hlen : s.length = t.length := Option.some.inj (hs.strlen.symm.trans ht.strlen)
  obtain ⟨-, rest, rfl⟩ := hs
  obtain ⟨-, rest', h⟩ := ht
  exact (List.append_inj h hlen).1

omit [Zero α] [DecidableEq α] in
/-- What is behind the front of a block is written over. -/
theorem put_behind (front : List α) (h : s.length ≤ rest.length) :
    put (front ++ rest) front.length s = some (front ++ s ++ rest.drop s.length) := by
  have hfit : front.length + s.length ≤ (front ++ rest).length := by
    rw [List.length_append]
    omega
  rw [put, if_pos hfit, Arena.overwrite, List.take_left, List.drop_length_add_append]

omit [Zero α] [DecidableEq α] in
theorem put_zero (h : s.length ≤ dst.length) : put dst 0 s = some (s ++ dst.drop s.length) :=
  put_behind [] h

omit [DecidableEq α] in
theorem strcpy_eq (h : s.length + 1 ≤ dst.length) :
    strcpy dst s = some (s ++ 0 :: dst.drop (s.length + 1)) := by
  have hlen : (s ++ [(0 : α)]).length = s.length + 1 := List.length_append
  rw [strcpy, put_zero (by omega), hlen, List.append_assoc, List.singleton_append]

theorem strcat_holding (hs : 0 ∉ s) (h : t.length ≤ rest.length) :
    strcat (s ++ 0 :: rest) t = some (s ++ t ++ 0 :: rest.drop t.length) := by
  have hlen : (t ++ [(0 : α)]).length = t.length + 1 := List.length_append
  have hfit : (t ++ [(0 : α)]).length ≤ (0 :: rest).length := by
    rw [hlen, List.length_cons]
    omega
  rw [strcat, strlen_holding hs]
  simp only [put_behind s hfit, hlen, List.drop_succ_cons, List.append_assoc,
    List.singleton_append]

/-! ### What is held -/

omit [DecidableEq α] in
theorem Holds.getElem? {i : Nat} (h : Holds block s) (hi : i < s.length) :
    block[i]? = s[i]? := by
  obtain ⟨-, rest, rfl⟩ := h
  exact List.getElem?_append_left hi

omit [DecidableEq α] in
theorem strcpy_holds (hs : 0 ∉ s) (h : s.length + 1 ≤ dst.length) :
    ∃ after, strcpy dst s = some after ∧ after.length = dst.length ∧ Holds after s := by
  refine ⟨_, strcpy_eq h, ?_, hs, _, rfl⟩
  rw [List.length_append, List.length_cons, List.length_drop]
  omega

theorem Holds.strcat (h : Holds dst s) (ht : 0 ∉ t) (hroom : s.length + t.length + 1 ≤ dst.length) :
    ∃ after, strcat dst t = some after ∧ after.length = dst.length ∧ Holds after (s ++ t) := by
  obtain ⟨hs, rest, rfl⟩ := h
  rw [List.length_append, List.length_cons] at hroom
  refine ⟨_, strcat_holding hs (by omega), ?_, ?_, _, rfl⟩
  · rw [List.length_append, List.length_append, List.length_append, List.length_cons,
      List.length_cons, List.length_drop]
    omega
  · exact fun hmem => (List.mem_append.mp hmem).elim hs ht

/-! ### Padding -/

omit [DecidableEq α] in
theorem strncpy_eq (h : n ≤ dst.length) (hs : s.length ≤ n) :
    strncpy dst s n = some (s ++ List.replicate (n - s.length) 0 ++ dst.drop n) := by
  have hlen : (s ++ List.replicate (n - s.length) (0 : α)).length = n := by
    rw [List.length_append, List.length_replicate]
    omega
  rw [strncpy, List.take_of_length_le hs, put_zero (by omega), hlen]

omit [DecidableEq α] in
/-- The idiom `strncpy(dst, s, n - 1); dst[n - 1] = 0` for a block of `n` cells. -/
theorem strncpy_put_nul (h : s.length < dst.length) :
    (strncpy dst s (dst.length - 1)).bind (put · (dst.length - 1) [0]) =
      some (s ++ List.replicate (dst.length - s.length) 0) := by
  have hlen : (s ++ List.replicate (dst.length - 1 - s.length) (0 : α)).length =
      dst.length - 1 := by
    rw [List.length_append, List.length_replicate]
    omega
  have hlast : (dst.drop (dst.length - 1)).length = 1 := by
    rw [List.length_drop]
    omega
  obtain ⟨v, hv⟩ := List.length_eq_one_iff.mp hlast
  have hone : [(0 : α)].length ≤ [v].length := Nat.le_refl 1
  have hput := put_behind (s ++ List.replicate (dst.length - 1 - s.length) (0 : α)) hone
  have hnul : s ++ List.replicate (dst.length - 1 - s.length) 0 ++ [0] ++ [] =
      s ++ List.replicate (dst.length - s.length) (0 : α) := by
    rw [List.append_nil, List.append_assoc, ← List.replicate_succ']
    congr 2
    omega
  rw [hlen] at hput
  rw [strncpy_eq (by omega) (by omega), hv, Option.bind_some, hput, ← hnul]
  rfl

omit [DecidableEq α] in
/-- Cells written over a cleared block. -/
theorem put_cleared (h : s.length ≤ n) :
    put (List.replicate n (0 : α)) 0 s = some (s ++ List.replicate (n - s.length) 0) := by
  rw [put_zero (by rwa [List.length_replicate]), List.drop_replicate]

omit [DecidableEq α] in
/-- A padded string is terminated iff there is any padding. -/
theorem holds_padded_iff (hs : 0 ∉ s) : Holds (s ++ List.replicate n 0) s ↔ 0 < n := by
  constructor
  · rintro ⟨-, rest, h⟩
    have hrest : List.replicate n (0 : α) = 0 :: rest := List.append_cancel_left h
    have hlen := congrArg List.length hrest
    rw [List.length_replicate, List.length_cons] at hlen
    omega
  · intro hn
    obtain ⟨m, rfl⟩ : ∃ m, n = m + 1 := ⟨n - 1, by omega⟩
    exact ⟨hs, List.replicate m 0, by rw [List.replicate_succ]⟩

omit [DecidableEq α] in
/-- The front of a block with a string, padded. -/
theorem holds_take_padded {m : Nat} (hm : 0 < m) (hs : 0 ∉ s) (n : Nat) :
    Holds ((s ++ 0 :: rest).take n ++ List.replicate m 0) (s.take n) := by
  have htake : (0 : α) ∉ s.take n := fun hmem => hs (List.mem_of_mem_take hmem)
  by_cases hn : n ≤ s.length
  · rw [List.take_append_of_le_length hn]
    exact (holds_padded_iff htake).mpr hm
  · obtain ⟨k, rfl⟩ : ∃ k, n = s.length + (k + 1) := ⟨n - s.length - 1, by omega⟩
    have hall : s.take (s.length + (k + 1)) = s := List.take_of_length_le (by omega)
    rw [List.take_length_add_append, List.take_succ_cons, hall]
    exact ⟨hs, rest.take k ++ List.replicate m 0, by rw [List.append_assoc, List.cons_append]⟩

/-- What is printed of a block that holds a string. -/
theorem Holds.take_strlen (h : Holds block s) :
    (CString.strlen block).map (fun n => block.take n) = some s := by
  rw [h.strlen, Option.map_some]
  obtain ⟨-, rest, rfl⟩ := h
  rw [List.take_left]

omit [Zero α] in
theorem strrchr_last (h : c ∉ t) : strrchr (s ++ c :: t) c = some s.length := by
  have hrev : (s ++ c :: t).reverse = t.reverse ++ c :: s.reverse := by simp
  have hidx : (s ++ c :: t).reverse.idxOf c = t.length := by
    rw [hrev, idxOf_behind (mt List.mem_reverse.mp h), List.length_reverse]
  rw [strrchr, if_pos (List.mem_append_right s List.mem_cons_self), hidx]
  congr 1
  simp only [List.length_append, List.length_cons]
  omega

end Lib.CString
