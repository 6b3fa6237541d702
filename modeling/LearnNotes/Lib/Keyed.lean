import Mathlib.Data.List.Nodup
import Mathlib.Data.List.Induction

/-!
# Lists with a key

A list whose entries have a key is a finite map that remembers an order. `put hit miss` works
on the first entry with the key of what comes in, and at the end of the list where there is
none. Where the keys are distinct, a run of `put`s is each entry with everything of its key
folded into it (`absorb`), in place, and then one entry for each new key in the order the keys
first come in (`added`): `foldl_put_some`, `foldl_put_none`.
-/

namespace Lib.Keyed

universe u v

variable {α : Type u} {κ : Type v} [DecidableEq κ] (key : α → κ)

/-- The first entry for `k`. -/
def find (l : List α) (k : κ) : Option α := l.find? (key · == k)

/-- The last entry for `k`. -/
def findLast (l : List α) (k : κ) : Option α := l.reverse.find? (key · == k)

/-- `hit` on the first entry with the key of `c`; where there is none, `miss c` at the end. -/
def put (hit : α → α → α) (miss : α → Option α) (l : List α) (c : α) : List α :=
  match l.findIdx? (key · == key c) with
  | none => l ++ (miss c).toList
  | some i => l.modify i (hit · c)

/-- What has the key of `e`, folded into it. -/
def absorb (hit : α → α → α) (cs : List α) (e : α) : α :=
  (cs.filter (key · == key e)).foldl hit e

/-- The entries for the keys that are not in `seen`. -/
def added (hit : α → α → α) (make : α → α) : List κ → List α → List α
  | _, [] => []
  | seen, c :: cs =>
    if key c ∈ seen then added hit make seen cs
    else absorb key hit cs (make c) :: added hit make (key c :: seen) cs

variable {key} {hit : α → α → α} {make : α → α} {miss : α → Option α} {l cs : List α}
  {c e : α} {k : κ} {seen seen' : List κ}

/-! ## Looking up -/

theorem find_eq_none : find key l k = none ↔ k ∉ l.map key := by
  simp [find, List.find?_eq_none]

theorem findLast_eq_none : findLast key l k = none ↔ k ∉ l.map key := by
  simp [findLast, List.find?_eq_none]

theorem find_append (l l' : List α) :
    find key (l ++ l') k = (find key l k).or (find key l' k) := List.find?_append

theorem find_map {f : α → α} (hf : ∀ e, key (f e) = key e) (l : List α) :
    find key (l.map f) k = (find key l k).map f := by
  unfold find
  rw [List.find?_map]
  simp only [Function.comp_def, hf]

theorem find_cons_of_eq (h : key e = k) (l : List α) : find key (e :: l) k = some e := by
  simp [find, h]

theorem find_cons_of_ne (h : key e ≠ k) (l : List α) : find key (e :: l) k = find key l k := by
  simp [find, h]

theorem findLast_append (l l' : List α) :
    findLast key (l ++ l') k = (findLast key l' k).or (findLast key l k) := by
  unfold findLast
  rw [List.reverse_append, List.find?_append]

theorem findLast_cons (e : α) (l : List α) :
    findLast key (e :: l) k = (findLast key l k).or (if key e = k then some e else none) := by
  rw [← List.singleton_append, findLast_append]
  congr 1
  by_cases hk : key e = k <;> simp [findLast, hk]

theorem key_of_find (h : find key l k = some e) : key e = k := by
  simpa using List.find?_some h

theorem mem_of_find (h : find key l k = some e) : e ∈ l := List.mem_of_find?_eq_some h

/-- A lookup in what is not dropped for its key. -/
theorem find_filter (p : κ → Bool) (l : List α) :
    find key (l.filter fun e => p (key e)) k = if p k then find key l k else none := by
  induction l with
  | nil => simp [find]
  | cons e l ih =>
    by_cases hk : key e = k
    · subst hk
      by_cases hp : p (key e)
      · rw [List.filter_cons_of_pos (by exact hp), find_cons_of_eq rfl, find_cons_of_eq rfl,
          if_pos hp]
      · rw [List.filter_cons_of_neg (by exact hp), ih, if_neg hp, if_neg hp]
    · rw [find_cons_of_ne hk, ← ih]
      by_cases hp : p (key e)
      · rw [List.filter_cons_of_pos (by exact hp), find_cons_of_ne hk]
      · rw [List.filter_cons_of_neg (by exact hp)]

/-! ## One `put` -/

/-- With distinct keys there is one entry to hit. -/
theorem modify_findIdx (hl : (l.map key).Nodup) {i : Nat} {f : α → α}
    (hi : l.findIdx? (key · == k) = some i) :
    l.modify i f = l.map fun e => if key e = k then f e else e := by
  induction l generalizing i with
  | nil => cases hi
  | cons e l ih =>
    obtain ⟨hnot, hl⟩ := List.nodup_cons.mp hl
    rw [List.findIdx?_cons] at hi
    by_cases hk : key e = k
    · rw [if_pos (by simpa using hk)] at hi
      cases hi
      have hrest : l.map (fun e => if key e = k then f e else e) = l := by
        refine (List.map_congr_left fun e' he' => ?_).trans (List.map_id l)
        rw [if_neg fun hk' => hnot (by rw [hk, ← hk']; exact List.mem_map_of_mem he')]
        rfl
      rw [List.map_cons, if_pos hk, hrest]
      rfl
    · rw [if_neg (by simpa using hk)] at hi
      obtain ⟨i, hi', rfl⟩ := Option.map_eq_some_iff.mp hi
      rw [List.map_cons, if_neg hk, ← ih hl hi']
      rfl

theorem put_of_mem (hl : (l.map key).Nodup) (hc : key c ∈ l.map key) :
    put key hit miss l c = l.map fun e => if key e = key c then hit e c else e := by
  unfold put
  cases hi : l.findIdx? (key · == key c) with
  | none =>
    rw [List.findIdx?_eq_none_iff] at hi
    obtain ⟨e, he, hk⟩ := List.mem_map.mp hc
    exact absurd (hi e he) (by simp [hk])
  | some i => exact modify_findIdx hl hi

theorem put_of_notMem (hc : key c ∉ l.map key) :
    put key hit miss l c = l ++ (miss c).toList := by
  have hi : l.findIdx? (key · == key c) = none := by
    rw [List.findIdx?_eq_none_iff]
    intro e he
    have hk : key e ≠ key c := fun hk => hc (hk ▸ List.mem_map_of_mem he)
    simpa using hk
  unfold put
  rw [hi]

/-- A `put` on a list is one on its head or one on its tail. -/
theorem put_cons (e : α) (l : List α) :
    put key hit miss (e :: l) c =
      if key e = key c then hit e c :: l else e :: put key hit miss l c := by
  unfold put
  rw [List.findIdx?_cons]
  by_cases hk : key e = key c
  · rw [if_pos hk, if_pos (by simpa using hk)]
    rfl
  · rw [if_neg hk, if_neg (by simpa using hk)]
    cases l.findIdx? (key · == key c) <;> rfl

/-- `l[key c] = c`. -/
def assign (key : α → κ) (l : List α) (c : α) : List α := put key (fun _ c => c) some l c

theorem find_assign (l : List α) (c : α) (k : κ) :
    find key (assign key l c) k = if k = key c then some c else find key l k := by
  induction l with
  | nil =>
    by_cases hk : key c = k
    · rw [if_pos hk.symm]
      exact find_cons_of_eq hk []
    · rw [if_neg (Ne.symm hk)]
      exact find_cons_of_ne hk []
  | cons e l ih =>
    unfold assign
    rw [put_cons]
    by_cases he : key e = key c
    · rw [if_pos he]
      by_cases hk : key c = k
      · rw [if_pos hk.symm, find_cons_of_eq hk]
      · rw [if_neg (Ne.symm hk), find_cons_of_ne hk, find_cons_of_ne (by rwa [he])]
    · rw [if_neg he]
      by_cases hk : key e = k
      · rw [find_cons_of_eq hk, find_cons_of_eq hk, if_neg (by rw [← hk]; exact he)]
      · rw [find_cons_of_ne hk, find_cons_of_ne hk]
        exact ih

theorem assign_ne_nil (l : List α) (c : α) : assign key l c ≠ [] := by
  intro h
  have hfind : find key (assign key l c) (key c) = some c := by rw [find_assign, if_pos rfl]
  rw [h] at hfind
  cases hfind

/-! ## What is folded in -/

theorem absorb_cons_of_ne (h : key c ≠ key e) (cs : List α) :
    absorb key hit (c :: cs) e = absorb key hit cs e := by
  unfold absorb
  rw [List.filter_cons_of_neg (by simpa using h)]

/-- What every hit keeps. -/
theorem absorb_keeps {P : α → Prop} (h : ∀ e c, P e → P (hit e c)) (he : P e) (cs : List α) :
    P (absorb key hit cs e) :=
  List.foldlRecOn _ hit he fun e he c _ => h e c he

theorem key_absorb (hhit : ∀ e c, key (hit e c) = key e) (cs : List α) (e : α) :
    key (absorb key hit cs e) = key e :=
  absorb_keeps (P := fun e' => key e' = key e) (fun e' c h => (hhit e' c).trans h) rfl cs

theorem absorb_cons_of_eq (hhit : ∀ e c, key (hit e c) = key e) (h : key c = key e)
    (cs : List α) : absorb key hit (c :: cs) e = absorb key hit cs (hit e c) := by
  unfold absorb
  rw [List.filter_cons_of_pos (by simpa using h), List.foldl_cons, hhit]

/-- Where nothing is hit. -/
theorem absorb_of_keeps (h : ∀ e c, hit e c = e) (cs : List α) (e : α) :
    absorb key hit cs e = e :=
  absorb_keeps (P := (· = e)) (fun e' c he => (h e' c).trans he) rfl cs

/-- Nothing of its key comes in. -/
theorem absorb_of_notMem (h : key e ∉ cs.map key) : absorb key hit cs e = e := by
  have hnil : cs.filter (key · == key e) = [] := by
    rw [List.filter_eq_nil_iff]
    intro c hc
    have hk : key c ≠ key e := fun hk => h (hk ▸ List.mem_map_of_mem hc)
    simpa using hk
  unfold absorb
  rw [hnil]
  rfl

/-- What comes in last decides, where each hit does. -/
theorem foldl_last {R : α → α → Prop} (h : ∀ e c, R (hit e c) c) :
    ∀ {cs : List α} {c : α}, cs.getLast? = some c → ∀ e, R (cs.foldl hit e) c := by
  intro cs c hc e
  obtain ⟨cs, rfl⟩ := List.getLast?_eq_some_iff.mp hc
  rw [List.foldl_append]
  exact h _ c

theorem absorb_last {R : α → α → Prop} (h : ∀ e c, R (hit e c) c)
    (hc : findLast key cs (key e) = some c) : R (absorb key hit cs e) c :=
  foldl_last h (List.getLast?_filter.trans hc) e

/-! ## The new entries -/

theorem added_congr (h : ∀ k, k ∈ seen ↔ k ∈ seen') :
    added key hit make seen cs = added key hit make seen' cs := by
  induction cs generalizing seen seen' with
  | nil => rfl
  | cons c cs ih =>
    unfold added
    by_cases hc : key c ∈ seen
    · rw [if_pos hc, if_pos ((h _).mp hc), ih h]
    · have hcons : ∀ k, k ∈ key c :: seen ↔ k ∈ key c :: seen' := fun k => by
        simp only [List.mem_cons, h k]
      rw [if_neg hc, if_neg fun hc' => hc ((h _).mpr hc'), ih hcons]

section Added

variable (hhit : ∀ e c, key (hit e c) = key e) (hmake : ∀ c, key (make c) = key c)
include hhit hmake

/-- One for each new key, in the order the keys first come in. -/
theorem map_key_added (seen : List κ) (cs : List α) :
    (added key hit make seen cs).map key = ((cs.map key).filter (· ∉ seen)).eraseDups := by
  induction cs generalizing seen with
  | nil => rfl
  | cons c cs ih =>
    rw [List.map_cons]
    unfold added
    by_cases hc : key c ∈ seen
    · rw [if_pos hc, List.filter_cons_of_neg (by simpa using hc), ih]
    · rw [if_neg hc, List.filter_cons_of_pos (by simpa using hc), List.eraseDups_cons,
        List.filter_filter, List.map_cons, key_absorb hhit, hmake, ih]
      congr 3
      funext k
      by_cases hk : k = key c <;> simp [hk]

theorem mem_map_key_added :
    k ∈ (added key hit make seen cs).map key ↔ k ∈ cs.map key ∧ k ∉ seen := by
  rw [map_key_added hhit hmake, List.mem_eraseDups, List.mem_filter, decide_eq_true_iff]

theorem nodup_added (seen : List κ) (cs : List α) :
    ((added key hit make seen cs).map key).Nodup := by
  induction cs generalizing seen with
  | nil => exact List.nodup_nil
  | cons c cs ih =>
    unfold added
    by_cases hc : key c ∈ seen
    · rw [if_pos hc]
      exact ih seen
    · rw [if_neg hc, List.map_cons, List.nodup_cons, key_absorb hhit, hmake]
      exact ⟨fun h => ((mem_map_key_added hhit hmake).mp h).2 List.mem_cons_self, ih _⟩

/-- A new entry is made of the first that came in with its key, and has the others folded in. -/
theorem find_added (seen : List κ) (cs : List α) :
    find key (added key hit make seen cs) k =
      if k ∈ seen then none
      else match cs.filter (key · == k) with
        | [] => none
        | c :: cs => some (cs.foldl hit (make c)) := by
  induction cs generalizing seen with
  | nil => simp [added, find]
  | cons c cs ih =>
    unfold added
    by_cases hk : key c = k
    · subst hk
      by_cases hc : key c ∈ seen
      · rw [if_pos hc, ih, if_pos hc, if_pos hc]
      · have hkey : key (absorb key hit cs (make c)) = key c := by
          rw [key_absorb hhit, hmake]
        rw [if_neg hc, if_neg hc, List.filter_cons_of_pos (by simp), find_cons_of_eq hkey]
        unfold absorb
        rw [hmake]
    · rw [List.filter_cons_of_neg (by simpa using hk)]
      by_cases hc : key c ∈ seen
      · rw [if_pos hc, ih]
      · have hkey : key (absorb key hit cs (make c)) ≠ k := by
          rw [key_absorb hhit, hmake]
          exact hk
        rw [if_neg hc, find_cons_of_ne hkey, ih]
        simp only [List.mem_cons, eq_comm (a := k), hk, false_or]

/-- A new entry is what came in last with its key, where each hit and each make is. -/
theorem find_added_last {R : α → α → Prop} (h : ∀ e c, R (hit e c) c) (hm : ∀ c, R (make c) c)
    (hk : k ∉ seen) (cs : List α) :
    Option.Rel R (find key (added key hit make seen cs) k) (findLast key cs k) := by
  have hlast : findLast key cs k = (cs.filter (key · == k)).getLast? := List.getLast?_filter.symm
  rw [find_added hhit hmake, if_neg hk, hlast]
  cases cs.filter (key · == k) with
  | nil => exact .none
  | cons c cs =>
    rw [List.getLast?_cons]
    cases hc : cs.getLast? with
    | none =>
      obtain rfl : cs = [] := List.getLast?_eq_none_iff.mp hc
      exact .some (hm c)
    | some c' => exact .some (foldl_last h hc (make c))

/-- Where nothing is hit, a new entry is what came in first with its key. -/
theorem find_added_first (h : ∀ e c, hit e c = e) (hk : k ∉ seen) (cs : List α) :
    find key (added key hit make seen cs) k = (find key cs k).map make := by
  have hfirst : find key cs k = (cs.filter (key · == k)).head? := List.head?_filter.symm
  have hfold : ∀ (cs : List α) (e : α), cs.foldl hit e = e := fun cs e =>
    List.foldlRecOn (motive := (· = e)) cs hit rfl fun e' he c _ => (h e' c).trans he
  rw [find_added hhit hmake, if_neg hk, hfirst]
  cases cs.filter (key · == k) with
  | nil => rfl
  | cons c cs => exact congrArg some (hfold cs (make c))

omit hhit hmake in
/-- What every hit keeps and a new entry has. -/
theorem added_forall {P : α → Prop} (h : ∀ e c, P e → P (hit e c)) (hm : ∀ c, P (make c))
    (seen : List κ) (cs : List α) : ∀ e ∈ added key hit make seen cs, P e := by
  induction cs generalizing seen with
  | nil => exact fun e he => by cases he
  | cons c cs ih =>
    intro e he
    unfold added at he
    by_cases hc : key c ∈ seen
    · rw [if_pos hc] at he
      exact ih seen e he
    · rw [if_neg hc] at he
      rcases List.mem_cons.mp he with rfl | he
      · exact absorb_keeps h (hm c) cs
      · exact ih _ e he

/-! ## A run of `put`s -/

omit hmake in
/-- A `put` on a key of the list keeps the keys, and is folded into the entry it hits. -/
theorem put_absorb_of_mem (hl : (l.map key).Nodup) (hc : key c ∈ l.map key) (cs : List α) :
    (put key hit miss l c).map key = l.map key ∧
      (put key hit miss l c).map (absorb key hit cs) = l.map (absorb key hit (c :: cs)) := by
  rw [put_of_mem hl hc, List.map_map, List.map_map]
  refine ⟨List.map_congr_left fun e _ => ?_, List.map_congr_left fun e _ => ?_⟩
  · show key (if key e = key c then hit e c else e) = key e
    split
    · exact hhit e c
    · rfl
  · show absorb key hit cs (if key e = key c then hit e c else e) = absorb key hit (c :: cs) e
    by_cases hk : key e = key c
    · rw [if_pos hk, absorb_cons_of_eq hhit hk.symm]
    · rw [if_neg hk, absorb_cons_of_ne (Ne.symm hk)]

omit hhit hmake in
/-- Another key is not folded into the entries there are. -/
theorem map_absorb_of_notMem (hc : key c ∉ l.map key) (cs : List α) :
    l.map (absorb key hit (c :: cs)) = l.map (absorb key hit cs) :=
  List.map_congr_left fun e he => by
    have hk : key c ≠ key e := fun hk => hc (hk ▸ List.mem_map_of_mem he)
    rw [absorb_cons_of_ne hk]

omit hhit hmake in
theorem map_absorb_nil (l : List α) : l.map (absorb key hit []) = l := List.map_id l

/-- **Entries that are missing are made.** -/
theorem foldl_put_some (hl : (l.map key).Nodup) (cs : List α) :
    cs.foldl (put key hit fun c => some (make c)) l =
      l.map (absorb key hit cs) ++ added key hit make (l.map key) cs := by
  induction cs generalizing l with
  | nil =>
    rw [map_absorb_nil]
    exact (List.append_nil l).symm
  | cons c cs ih =>
    rw [List.foldl_cons]
    unfold added
    by_cases hc : key c ∈ l.map key
    · obtain ⟨hkeys, habsorb⟩ :=
        put_absorb_of_mem hhit hl hc cs
      rw [if_pos hc, ih (hkeys.symm ▸ hl), hkeys, habsorb]
    · have hkeys : (l ++ [make c]).map key = l.map key ++ [key c] := by
        rw [List.map_append, List.map_singleton, hmake]
      have hnodup : ((l ++ [make c]).map key).Nodup := by
        rw [hkeys, ← List.concat_eq_append]
        exact hl.concat hc
      rw [put_of_notMem hc, if_neg hc, Option.toList_some, ih hnodup, hkeys,
        map_absorb_of_notMem hc, List.map_append, List.map_singleton, List.append_assoc,
        List.singleton_append]
      congr 2
      exact added_congr fun k => by simp [or_comm]

section Winner

variable {R : α → α → Prop} (h : ∀ e c, R (hit e c) c) (hrefl : ∀ e, R e e)
include h hrefl

omit hhit hmake in
/-- An entry is what came in last with its key, or what it was. -/
theorem rel_absorb (he : key e = k) (cs : List α) :
    Option.Rel R (some (absorb key hit cs e)) ((findLast key cs k).or (some e)) := by
  subst he
  cases hc : findLast key cs (key e) with
  | none =>
    rw [absorb_of_notMem (findLast_eq_none.mp hc)]
    exact .some (hrefl e)
  | some c => exact .some (absorb_last h hc)

omit hmake in
theorem find_absorb (l cs : List α) :
    Option.Rel R (find key (l.map (absorb key hit cs)) k)
      (if k ∈ l.map key then (findLast key cs k).or (find key l k) else none) := by
  rw [find_map (key_absorb hhit cs)]
  cases he : find key l k with
  | none =>
    rw [if_neg (find_eq_none.mp he)]
    exact .none
  | some e =>
    have hmem : k ∈ l.map key := key_of_find he ▸ List.mem_map_of_mem (mem_of_find he)
    rw [if_pos hmem]
    exact rel_absorb h hrefl (key_of_find he) cs

theorem find_absorb_added (hm : ∀ c, R (make c) c) (l cs : List α) :
    Option.Rel R (find key (l.map (absorb key hit cs) ++ added key hit make (l.map key) cs) k)
      ((findLast key cs k).or (find key l k)) := by
  rw [find_append, find_map (key_absorb hhit cs)]
  cases he : find key l k with
  | none =>
    rw [Option.or_none]
    exact find_added_last hhit hmake h hm (find_eq_none.mp he) cs
  | some e => exact rel_absorb h hrefl (key_of_find he) cs

end Winner

theorem map_key_absorb_added (l cs : List α) :
    (l.map (absorb key hit cs) ++ added key hit make (l.map key) cs).map key =
      l.map key ++ ((cs.map key).filter (· ∉ l.map key)).eraseDups := by
  have hkeys : (l.map (absorb key hit cs)).map key = l.map key := by
    rw [List.map_map]
    exact List.map_congr_left fun e _ => key_absorb hhit cs e
  rw [List.map_append, hkeys, map_key_added hhit hmake]

theorem nodup_absorb_added (hl : (l.map key).Nodup) (cs : List α) :
    ((l.map (absorb key hit cs) ++ added key hit make (l.map key) cs).map key).Nodup := by
  rw [map_key_absorb_added hhit hmake, ← map_key_added hhit hmake]
  refine List.nodup_append.mpr ⟨hl, nodup_added hhit hmake _ cs, fun a ha b hb => ?_⟩
  rintro rfl
  exact ((mem_map_key_added hhit hmake).mp hb).2 ha

omit hmake in
/-- **Entries that are missing stay missing.** -/
theorem foldl_put_none (hl : (l.map key).Nodup) (cs : List α) :
    cs.foldl (put key hit fun _ => none) l = l.map (absorb key hit cs) := by
  induction cs generalizing l with
  | nil => exact (map_absorb_nil l).symm
  | cons c cs ih =>
    rw [List.foldl_cons]
    by_cases hc : key c ∈ l.map key
    · obtain ⟨hkeys, habsorb⟩ := put_absorb_of_mem hhit hl hc cs
      rw [ih (hkeys.symm ▸ hl), habsorb]
    · rw [put_of_notMem hc, Option.toList_none, List.append_nil, ih hl, map_absorb_of_notMem hc]

end Added

end Lib.Keyed
