import LearnNotes.Lib.Arena
import LearnNotes.Lib.BlockedLoop

/-!
# `saxpy` in lanes

The three kernels of `SIMD/main.cpp` compute `a * x[i] + y[i]` into `z[i]`: `scalar_saxpy` one
index at a time, `saxpy128` two registers of four lanes a round, `saxpy256` one of eight. The rest
of `n` by eight is left to a scalar loop; `saxpy256` hands over to `saxpy128` for it, which begins
at index 0 again. Each kernel is followed over the arrays it is given (`Args`), where `y` and `z`
may be one array: `saxpy128_eq`, `scalar_saxpy_eq`, `saxpy256_eq`. An access outside of an array
has no result.

Where `z` is an array of its own the kernels agree (`kernels_agree`). In place the elements of the
vector loop are updated twice by `saxpy256`: `inPlace_iff`.
-/

namespace LearnNotes.Simd

open Lib

variable {κ α : Type} [Mul α] [Add α]

/-! ## Registers -/

/-- `_mm_set1_ps`, `_mm256_set1_ps`: the same value in `w` lanes. -/
def set1_ps (w : Nat) (a : α) : List α := List.replicate w a

/-- `_mm_mul_ps`, `_mm256_mul_ps`. -/
def mul_ps (u v : List α) : List α := List.zipWith (· * ·) u v

/-- `_mm_add_ps`, `_mm256_add_ps`. -/
def add_ps (u v : List α) : List α := List.zipWith (· + ·) u v

/-- `_mm_loadu_ps(&p[i])`, `_mm256_loadu_ps(&p[i])`. -/
def loadu_ps (w : Nat) (m : Arena κ α) (p : κ) (i : Nat) : Option (List α) := m.read p i w

/-- `p[i]`. -/
def element (m : Arena κ α) (p : κ) (i : Nat) : Option α :=
  match m p with
  | none => none
  | some block => block[i]?

variable [DecidableEq κ]

/-- `_mm_storeu_ps(&p[i], v)`, `_mm256_storeu_ps(&p[i], v)`. -/
def storeu_ps (m : Arena κ α) (p : κ) (i : Nat) (v : List α) : Option (Arena κ α) := m.write p i v

/-! ## The kernels -/

def round128 (a : α) (x y z : κ) (i : Nat) (m : Arena κ α) : Option (Arena κ α) := do
  let av := set1_ps 4 a
  let xi ← loadu_ps 4 m x i
  let xi2 ← loadu_ps 4 m x (i + 4)
  let yi ← loadu_ps 4 m y i
  let yi2 ← loadu_ps 4 m y (i + 4)
  let zi := add_ps (mul_ps av xi) yi
  let zi2 := add_ps (mul_ps av xi2) yi2
  let m ← storeu_ps m z i zi
  storeu_ps m z (i + 4) zi2

def round256 (a : α) (x y z : κ) (i : Nat) (m : Arena κ α) : Option (Arena κ α) := do
  let av := set1_ps 8 a
  let xi ← loadu_ps 8 m x i
  let yi ← loadu_ps 8 m y i
  let zi := add_ps (mul_ps av xi) yi
  storeu_ps m z i zi

/-- `z[i] = a * x[i] + y[i]`. -/
def scalarRound (a : α) (x y z : κ) (i : Nat) (m : Arena κ α) : Option (Arena κ α) := do
  let xi ← element m x i
  let yi ← element m y i
  m.write z i [a * xi + yi]

/-- `n + 7` fits in a `size_t`, and with it `i + 7` for every `i` below `n`. -/
def saxpy128 (a : α) (x y z : κ) (n : Nat) (m : Arena κ α) : Option (Arena κ α) := do
  let (i, m) ← blocked 7 n (round128 a x y z) 0 m
  let (_, m) ← blocked 0 n (scalarRound a x y z) i m
  return m

def saxpy256 (a : α) (x y z : κ) (n : Nat) (m : Arena κ α) : Option (Arena κ α) := do
  let (i, m) ← blocked 7 n (round256 a x y z) 0 m
  if n ≥ 4 then saxpy128 a x y z n m
  else
    let (_, m) ← blocked 0 n (scalarRound a x y z) i m
    return m

def scalar_saxpy (a : α) (x y z : κ) (n : Nat) (m : Arena κ α) : Option (Arena κ α) := do
  let (_, m) ← blocked 0 n (scalarRound a x y z) 0 m
  return m

/-! ## What the kernels are given -/

variable (κ α) in
/-- Arrays of `n` elements behind `x`, `y` and `z`, of which `x` is not written to. -/
structure Args where
  a : α
  x : κ
  y : κ
  z : κ
  n : Nat
  mem : Arena κ α
  xs : List α
  ys : List α
  zs : List α
  mem_x : mem x = some xs
  mem_y : mem y = some ys
  mem_z : mem z = some zs
  length_xs : xs.length = n
  length_ys : ys.length = n
  length_zs : zs.length = n
  x_ne_z : x ≠ z

/-- `a * x[i] + y[i]`. -/
def saxpy (a xi yi : α) : α := a * xi + yi

namespace Args

variable (c : Args κ α)

/-- The array `z` with the elements below `j` computed. -/
def swept (j : Nat) : List α :=
  List.zipWith (saxpy c.a) (c.xs.take j) (c.ys.take j) ++ c.zs.drop j

/-- The memory with `cells` in the array `z`. -/
def store (cells : List α) : Arena κ α := Function.update c.mem c.z (some cells)

/-- The memory with all of `z` computed. -/
def result : Arena κ α := c.store (List.zipWith (saxpy c.a) c.xs c.ys)

/-- What a kernel is given that is called once `cells` are in `z`. -/
def put (cells : List α) (h : cells.length = c.n) : Args κ α :=
  { c with
    mem := c.store cells
    ys := if c.y = c.z then cells else c.ys
    zs := cells
    mem_x := by rw [store, Function.update_of_ne c.x_ne_z, c.mem_x]
    mem_y := by
      rw [store]
      split
      · next hyz => rw [hyz, Function.update_self]
      · next hyz => rw [Function.update_of_ne hyz, c.mem_y]
    mem_z := Function.update_self ..
    length_ys := by
      split
      · exact h
      · exact c.length_ys
    length_zs := h }

variable {c} {i j w : Nat}

omit [DecidableEq κ] in
theorem length_swept (hj : j ≤ c.n) : (c.swept j).length = c.n := by
  rw [swept, List.length_append, List.length_zipWith, List.length_take, List.length_take,
    List.length_drop, c.length_xs, c.length_ys, c.length_zs]
  omega

omit [DecidableEq κ] in
@[simp] theorem swept_zero : c.swept 0 = c.zs := rfl

omit [DecidableEq κ] in
theorem swept_all : c.swept c.n = List.zipWith (saxpy c.a) c.xs c.ys := by
  rw [swept, List.drop_of_length_le (Nat.le_of_eq c.length_zs), List.append_nil,
    List.take_of_length_le (Nat.le_of_eq c.length_xs),
    List.take_of_length_le (Nat.le_of_eq c.length_ys)]

theorem store_swept_zero : c.store (c.swept 0) = c.mem := by
  rw [store, swept_zero, ← c.mem_z, Function.update_eq_self]

theorem store_swept_all : c.store (c.swept c.n) = c.result := by
  rw [swept_all, result]

/-! ### Reading and writing part way -/

omit [DecidableEq κ] in
/-- What stands in `z` from `j` on is not computed yet. -/
theorem drop_swept (hij : j ≤ i) (hj : j ≤ c.n) : (c.swept j).drop i = c.zs.drop i := by
  have hlen : (List.zipWith (saxpy c.a) (c.xs.take j) (c.ys.take j)).length = j := by
    rw [List.length_zipWith, List.length_take, List.length_take, c.length_xs, c.length_ys]
    omega
  rw [swept, List.drop_append, hlen, List.drop_of_length_le (by omega), List.nil_append,
    List.drop_drop, Nat.add_sub_cancel' hij]

omit [Mul α] [Add α] [DecidableEq κ] in
theorem zs_eq_ys (h : c.y = c.z) : c.zs = c.ys := by
  have hmem := c.mem_y
  rw [h, c.mem_z] at hmem
  exact Option.some.inj hmem

omit [Mul α] [Add α] in
/-- The array behind `x` is as it was. -/
theorem store_x (cells : List α) : c.store cells c.x = some c.xs := by
  rw [store, Function.update_of_ne c.x_ne_z, c.mem_x]

/-- So is the array behind `y` from `j` on, even where it is `z`. -/
theorem store_y (hj : j ≤ c.n) :
    ∃ block, c.store (c.swept j) c.y = some block ∧ block.length = c.n ∧
      ∀ i, j ≤ i → block.drop i = c.ys.drop i := by
  by_cases hyz : c.y = c.z
  · refine ⟨c.swept j, by rw [store, hyz, Function.update_self], length_swept hj, ?_⟩
    intro i hij
    rw [drop_swept hij hj, zs_eq_ys hyz]
  · refine ⟨c.ys, by rw [store, Function.update_of_ne hyz, c.mem_y], c.length_ys, ?_⟩
    intro i hij
    rfl

omit [Mul α] [Add α] in
theorem loadu_x (cells : List α) (h : i + w ≤ c.n) :
    loadu_ps w (c.store cells) c.x i = some ((c.xs.drop i).take w) := by
  rw [← c.length_xs] at h
  exact Arena.read_eq_some (c.store_x cells) h

theorem loadu_y (hij : j ≤ i) (h : i + w ≤ c.n) :
    loadu_ps w (c.store (c.swept j)) c.y i = some ((c.ys.drop i).take w) := by
  obtain ⟨block, hblock, hlen, hdrop⟩ := c.store_y (j := j) (by omega)
  rw [← hlen] at h
  rw [loadu_ps, Arena.read_eq_some hblock h, hdrop i hij]

omit [Mul α] [Add α] [DecidableEq κ] in
theorem length_lanes {u : List α} (hu : u.length = c.n) (h : j + w ≤ c.n) :
    ((u.drop j).take w).length = w := by
  rw [List.length_take, List.length_drop, hu]
  omega

omit [DecidableEq κ] in
/-- The next `w` elements complete the array up to `j + w`. -/
theorem overwrite_swept (h : j + w ≤ c.n) :
    Arena.overwrite (c.swept j) j
        (List.zipWith (saxpy c.a) ((c.xs.drop j).take w) ((c.ys.drop j).take w)) =
      c.swept (j + w) := by
  have hxs : (c.xs.take j).length = j := List.length_take_of_le (by rw [c.length_xs]; omega)
  have hys : (c.ys.take j).length = j := List.length_take_of_le (by rw [c.length_ys]; omega)
  have htake : (c.swept j).take j = List.zipWith (saxpy c.a) (c.xs.take j) (c.ys.take j) := by
    apply List.take_left'
    rw [List.length_zipWith, hxs, hys, Nat.min_self]
  rw [Arena.overwrite, List.length_zipWith, length_lanes c.length_xs h,
    length_lanes c.length_ys h, Nat.min_self, htake, drop_swept (by omega) (by omega), swept,
    List.take_add, List.take_add, List.zipWith_append (hxs.trans hys.symm)]

theorem write_z (h : j + w ≤ c.n) :
    (c.store (c.swept j)).write c.z j
        (List.zipWith (saxpy c.a) ((c.xs.drop j).take w) ((c.ys.drop j).take w)) =
      some (c.store (c.swept (j + w))) := by
  have hz : c.store (c.swept j) c.z = some (c.swept j) := Function.update_self ..
  have hfit : j + (List.zipWith (saxpy c.a) ((c.xs.drop j).take w)
      ((c.ys.drop j).take w)).length ≤ (c.swept j).length := by
    rw [List.length_zipWith, length_lanes c.length_xs h, length_lanes c.length_ys h,
      length_swept (by omega)]
    omega
  rw [Arena.write_eq_some hz hfit, overwrite_swept h, store, Function.update_idem, store]

/-! ## One round -/

omit [DecidableEq κ] in
theorem add_mul_set1 (a : α) {u v : List α} (hu : u.length = w) :
    add_ps (mul_ps (set1_ps w a) u) v = List.zipWith (saxpy a) u v := by
  subst hu
  induction u generalizing v with
  | nil => rfl
  | cons xi u ih =>
    cases v with
    | nil => rfl
    | cons yi v => exact congrArg (saxpy a xi yi :: ·) ih

omit [Mul α] [Add α] [DecidableEq κ] in
/-- An element is a register of one lane. -/
theorem element_of_lane {m : Arena κ α} {p : κ} {block : List α} {v : α} (hb : m p = some block)
    (h : (block.drop i).take 1 = [v]) : element m p i = some v := by
  have hget : ((block.drop i).take 1)[0]? = some v := by rw [h]; rfl
  rw [List.getElem?_take_of_lt Nat.one_pos, List.getElem?_drop, Nat.add_zero] at hget
  unfold element
  rw [hb]
  exact hget

theorem scalarRound_eq (h : j + 0 < c.n) :
    scalarRound c.a c.x c.y c.z j (c.store (c.swept j)) = some (c.store (c.swept (j + 1))) := by
  have hfit : j + 1 ≤ c.n := by omega
  obtain ⟨xi, hxi⟩ := List.length_eq_one_iff.mp (length_lanes c.length_xs hfit)
  obtain ⟨yi, hyi⟩ := List.length_eq_one_iff.mp (length_lanes c.length_ys hfit)
  obtain ⟨block, hblock, -, hdrop⟩ := c.store_y (j := j) (by omega)
  have hy : (block.drop j).take 1 = [yi] := by rw [hdrop j (Nat.le_refl j), hyi]
  rw [scalarRound, element_of_lane (c.store_x _) hxi, element_of_lane hblock hy]
  have hwrite := write_z hfit
  rw [hxi, hyi] at hwrite
  exact hwrite

theorem round256_eq (h : j + 7 < c.n) :
    round256 c.a c.x c.y c.z j (c.store (c.swept j)) = some (c.store (c.swept (j + 8))) := by
  have hfit : j + 8 ≤ c.n := by omega
  rw [round256, loadu_x _ hfit, loadu_y (Nat.le_refl j) hfit]
  simp only [Option.bind_eq_bind, Option.bind_some]
  rw [add_mul_set1 c.a (length_lanes c.length_xs hfit)]
  exact write_z hfit

theorem round128_eq (h : j + 7 < c.n) :
    round128 c.a c.x c.y c.z j (c.store (c.swept j)) = some (c.store (c.swept (j + 8))) := by
  have hlow : j + 4 ≤ c.n := by omega
  have hhigh : j + 4 + 4 ≤ c.n := by omega
  rw [round128, loadu_x _ hlow, loadu_x _ hhigh, loadu_y (Nat.le_refl j) hlow,
    loadu_y (Nat.le_add_right j 4) hhigh]
  simp only [Option.bind_eq_bind, Option.bind_some]
  rw [add_mul_set1 c.a (length_lanes c.length_xs hlow),
    add_mul_set1 c.a (length_lanes c.length_xs hhigh), storeu_ps, write_z hlow, Option.bind_some]
  exact write_z hhigh

end Args

/-! ## The kernels -/

section

open Args

variable (c : Args κ α)

/-- The scalar loop, from wherever the loop before it stopped. -/
theorem scalarLoop_eq {i : Nat} (hi : i ≤ c.n) :
    blocked 0 c.n (scalarRound c.a c.x c.y c.z) i (c.store (c.swept i)) =
      some (c.n, c.result) := by
  have hloop := blocked_eq 0 (fun j => c.store (c.swept j)) hi
    fun j _ hj => scalarRound_eq hj
  rwa [stop_zero, store_swept_all] at hloop

theorem scalar_saxpy_eq : scalar_saxpy c.a c.x c.y c.z c.n c.mem = some c.result := by
  rw [scalar_saxpy, ← store_swept_zero, scalarLoop_eq c (Nat.zero_le _)]
  rfl

/-- The elements of the whole vectors, the first `8 * (n / 8)`. -/
def vectors (n : Nat) : Nat := stop 7 n 0

theorem vectors_le {n : Nat} : vectors n ≤ n := stop_le

/-- A vector loop, whatever registers its rounds use. -/
theorem vectorLoop_eq {round : Nat → Arena κ α → Option (Arena κ α)}
    (hround : ∀ j, j + 7 < c.n →
      round j (c.store (c.swept j)) = some (c.store (c.swept (j + 8)))) :
    blocked 7 c.n round 0 c.mem = some (vectors c.n, c.store (c.swept (vectors c.n))) := by
  have hloop := blocked_eq 7 (fun j => c.store (c.swept j)) (Nat.zero_le c.n)
    fun j _ hj => hround j hj
  rwa [store_swept_zero] at hloop

theorem saxpy128_eq : saxpy128 c.a c.x c.y c.z c.n c.mem = some c.result := by
  rw [saxpy128, vectorLoop_eq c fun _ => round128_eq]
  simp only [Option.bind_eq_bind, Option.bind_some]
  rw [scalarLoop_eq c vectors_le]
  rfl

/-- The result of a call behind `cells`, where the array `y` may be `cells` as well. -/
theorem result_put {cells : List α} (h : cells.length = c.n) :
    (c.put cells h).result =
      c.store (List.zipWith (saxpy c.a) c.xs (if c.y = c.z then cells else c.ys)) :=
  Function.update_idem ..

/-- `saxpy256` is `saxpy128` on what its vector loop leaves. -/
theorem saxpy256_eq :
    saxpy256 c.a c.x c.y c.z c.n c.mem =
      some (c.put (c.swept (vectors c.n)) (length_swept vectors_le)).result := by
  rw [saxpy256, vectorLoop_eq c fun _ => round256_eq]
  simp only [Option.bind_eq_bind, Option.bind_some]
  by_cases hn : c.n ≥ 4
  · rw [if_pos hn]
    exact saxpy128_eq (c.put (c.swept (vectors c.n)) (length_swept vectors_le))
  · have hzero : vectors c.n = 0 := stop_of_le (Nat.zero_le _) (by omega)
    have hys : (if c.y = c.z then c.zs else c.ys) = c.ys := by
      split
      · next hyz => exact zs_eq_ys hyz
      · rfl
    rw [if_neg hn, scalarLoop_eq c vectors_le, result_put, hzero, swept_zero, hys]
    rfl

/-! ## Agreement -/

/-- Every kernel computes every element of `z` once, inside the arrays. -/
def Agree : Prop :=
  ∃ zs : List α, zs.length = c.n ∧
    (∀ (i : Nat) (xi yi : α), c.xs[i]? = some xi → c.ys[i]? = some yi →
      zs[i]? = some (c.a * xi + yi)) ∧
    saxpy128 c.a c.x c.y c.z c.n c.mem = some (c.store zs) ∧
    saxpy256 c.a c.x c.y c.z c.n c.mem = some (c.store zs) ∧
    scalar_saxpy c.a c.x c.y c.z c.n c.mem = some (c.store zs)

/-- Two of the kernels always do. -/
theorem agree_iff :
    Agree c ↔ (c.put (c.swept (vectors c.n)) (length_swept vectors_le)).result = c.result := by
  have h128 := saxpy128_eq c
  have h256 := saxpy256_eq c
  constructor
  · rintro ⟨zs, -, -, hzs128, hzs256, -⟩
    rw [h256] at hzs256
    rw [h128] at hzs128
    exact Option.some.inj (hzs256.trans hzs128.symm)
  · intro h
    rw [h] at h256
    refine ⟨List.zipWith (saxpy c.a) c.xs c.ys, ?_, ?_, h128, h256, scalar_saxpy_eq c⟩
    · rw [List.length_zipWith, c.length_xs, c.length_ys, Nat.min_self]
    · intro i xi yi hxi hyi
      rw [List.getElem?_zipWith, hxi, hyi]
      rfl

/-- **Into an array of its own** the kernels agree. -/
theorem kernels_agree (hyz : c.y ≠ c.z) : Agree c := by
  rw [agree_iff, result_put, if_neg hyz]
  rfl

/-- A second update of the elements below `j` changes nothing. -/
def Settled (j : Nat) : Prop :=
  ∀ (i : Nat) (xi yi : α), i < j → c.xs[i]? = some xi → c.ys[i]? = some yi →
    c.a * xi + (c.a * xi + yi) = c.a * xi + yi

variable {c}

omit [DecidableEq κ] in
theorem getElem?_swept_of_lt {i j : Nat} {xi yi : α} (hj : j ≤ c.n) (hi : i < j)
    (hxi : c.xs[i]? = some xi) (hyi : c.ys[i]? = some yi) :
    (c.swept j)[i]? = some (saxpy c.a xi yi) := by
  have hlen : i < (List.zipWith (saxpy c.a) (c.xs.take j) (c.ys.take j)).length := by
    rw [List.length_zipWith, List.length_take, List.length_take, c.length_xs, c.length_ys]
    omega
  rw [swept, List.getElem?_append_left hlen, List.getElem?_zipWith, List.getElem?_take_of_lt hi,
    List.getElem?_take_of_lt hi, hxi, hyi]

omit [DecidableEq κ] in
theorem getElem?_swept_of_le {i j : Nat} (hj : j ≤ c.n) (hi : j ≤ i) :
    (c.swept j)[i]? = c.zs[i]? := by
  have hget : ((c.swept j).drop i)[0]? = (c.zs.drop i)[0]? := by rw [drop_swept hi hj]
  rwa [List.getElem?_drop, List.getElem?_drop, Nat.add_zero] at hget

omit [DecidableEq κ] in
theorem settled_iff {j : Nat} (hj : j ≤ c.n) (hyz : c.y = c.z) :
    List.zipWith (saxpy c.a) c.xs (c.swept j) = List.zipWith (saxpy c.a) c.xs c.ys ↔
      Settled c j := by
  constructor
  · intro h i xi yi hi hxi hyi
    have hget := congrArg (·[i]?) h
    simp only [List.getElem?_zipWith, hxi, hyi, getElem?_swept_of_lt hj hi hxi hyi] at hget
    exact Option.some.inj hget
  · intro h
    apply List.ext_getElem?
    intro i
    rw [List.getElem?_zipWith, List.getElem?_zipWith]
    rcases Nat.lt_or_ge i j with hi | hi
    · obtain ⟨xi, hxi⟩ : ∃ xi, c.xs[i]? = some xi :=
        ⟨_, List.getElem?_eq_getElem (by rw [c.length_xs]; omega)⟩
      obtain ⟨yi, hyi⟩ : ∃ yi, c.ys[i]? = some yi :=
        ⟨_, List.getElem?_eq_getElem (by rw [c.length_ys]; omega)⟩
      rw [getElem?_swept_of_lt hj hi hxi hyi, hxi, hyi]
      exact congrArg some (h i xi yi hi hxi hyi)
    · rw [getElem?_swept_of_le hj hi, zs_eq_ys hyz]

omit [Mul α] [Add α] in
theorem store_inj {cells cells' : List α} (h : c.store cells = c.store cells') :
    cells = cells' := by
  have hz := congrFun h c.z
  rw [store, store, Function.update_self, Function.update_self] at hz
  exact Option.some.inj hz

variable (c) in
/-- **In place** the kernels agree iff a second update changes no element of a whole vector. -/
theorem inPlace_iff (hyz : c.y = c.z) : Agree c ↔ Settled c (8 * (c.n / 8)) := by
  have hvectors : 8 * (c.n / 8) = vectors c.n := by
    unfold vectors stop
    omega
  rw [agree_iff, result_put, if_pos hyz, hvectors, ← settled_iff (j := vectors c.n) vectors_le hyz]
  exact ⟨store_inj, congrArg c.store⟩

end

/-- `n` elements at three pointers, or at two. -/
def separate (n : Nat) : Args (Fin 3) ℤ where
  a := 3
  x := 0
  y := 1
  z := 2
  n := n
  mem p := some (List.replicate n ((p : ℤ) + 1))
  xs := List.replicate n 1
  ys := List.replicate n 2
  zs := List.replicate n 3
  mem_x := rfl
  mem_y := rfl
  mem_z := rfl
  length_xs := List.length_replicate
  length_ys := List.length_replicate
  length_zs := List.length_replicate
  x_ne_z := by decide

def shared (n : Nat) : Args (Fin 3) ℤ where
  a := 3
  x := 0
  y := 1
  z := 1
  n := n
  mem p := some (List.replicate n ((p : ℤ) + 1))
  xs := List.replicate n 1
  ys := List.replicate n 2
  zs := List.replicate n 2
  mem_x := rfl
  mem_y := rfl
  mem_z := rfl
  length_xs := List.length_replicate
  length_ys := List.length_replicate
  length_zs := List.length_replicate
  x_ne_z := by decide

theorem kernels_agree_nine : Agree (separate 9) := kernels_agree (separate 9) (by decide)

theorem inPlace_iff_eight : Agree (shared 8) ↔ Settled (shared 8) 8 :=
  inPlace_iff (shared 8) (by decide)

/-- One whole vector: every element is updated twice. -/
theorem eight_twice : ¬ Agree (shared 8) := by
  rintro ⟨zs, -, hzs, -, h256, -⟩
  have htwice : (saxpy256 (3 : ℤ) 0 1 1 8 (shared 8).mem).bind (· 1) =
      some (List.replicate 8 8) := by decide +kernel
  have hzs8 : zs = List.replicate 8 8 :=
    Option.some.inj ((congrArg (·.bind (· 1)) h256).symm.trans htwice)
  have hzs0 := hzs 0 1 2 rfl rfl
  rw [hzs8] at hzs0
  exact absurd hzs0 (by decide)

end LearnNotes.Simd
