import LearnNotes.Factorial.Cpp

/-!
# Factorials in C

The C half of `learn_cpp/src/factorial.cpp`, up to what C leaves undefined: a signed overflow, an
access past the end of a block, a cell never written, a null or freed pointer each end a call in a
`Fault`. `multiply_eq` says what `multiply` does with the digits of a number: it leaves the digits
of the product where the block has room for them, and writes behind its end where it has not.
-/

namespace LearnNotes.Factorial.C

open Lib
open scoped Nat

inductive Fault where
  | outOfBounds (i capacity : Nat)
  | indeterminate (i : Nat)
  | nullPointer
  | danglingPointer
  | signedOverflow

/-- A result of `int` arithmetic. -/
def int (value : Int) : Except Fault Int :=
  if -(INT_MAX : Int) - 1 ≤ value ∧ value ≤ INT_MAX then .ok value else .error .signedOverflow

/-! ## Memory -/

/-- The `int32_t` cells of an array, `none` before the first write. -/
abbrev Block := List (Option Int)

def load (res : Block) (i : Nat) : Except Fault Int :=
  match res[i]? with
  | none => .error (.outOfBounds i res.length)
  | some none => .error (.indeterminate i)
  | some (some value) => .ok value

def store (res : Block) (i : Nat) (value : Int) : Except Fault Block :=
  if i < res.length then .ok (res.set i (some value)) else .error (.outOfBounds i res.length)

/-- The blocks by address, `none` once freed, and the caller's pointer `*result`. -/
structure Memory where
  blocks : List (Option Block)
  result : Option Nat

namespace Memory

/-- The address a pointer has, and the block there. -/
def deref (m : Memory) : Option Nat → Except Fault (Nat × Block)
  | none => .error .nullPointer
  | some p =>
    match m.blocks[p]? with
    | some (some block) => .ok (p, block)
    | _ => .error .danglingPointer

def write (m : Memory) (p : Nat) (block : Block) : Memory :=
  { m with blocks := m.blocks.set p (some block) }

def free (m : Memory) (p : Nat) : Memory := { m with blocks := m.blocks.set p none }

/-- `malloc`, where `allocates` says which requests succeed. -/
def malloc (allocates : Nat → Bool) (m : Memory) (size : Nat) : Option Nat × Memory :=
  if allocates size then
    (some m.blocks.length, { m with blocks := m.blocks ++ [some (List.replicate size none)] })
  else (none, m)

/-- `realloc` of `block` at `p`, which moves. -/
def realloc (allocates : Nat → Bool) (m : Memory) (p : Nat) (block : Block) (size : Nat) :
    Option Nat × Memory :=
  if allocates size then
    let grown := block.take size ++ List.replicate (size - block.length) none
    (some m.blocks.length, { m.free p with blocks := (m.free p).blocks ++ [some grown] })
  else (none, m)

end Memory

/-! ## `multiply` -/

/-- A round of the first loop: the carry and the array. -/
def digitRound (x : Int) (i : Nat) (s : Int × Block) : Except Fault (Int × Block) := do
  let digit ← load s.2 i
  let scaled ← int (digit * x)
  let prod ← int (scaled + s.1)
  let res ← store s.2 i (prod.tmod 10)
  return (prod.tdiv 10, res)

theorem natAbs_tdiv_lt {carry : Int} (h : carry ≠ 0) : (carry.tdiv 10).natAbs < carry.natAbs := by
  rw [Int.natAbs_tdiv]
  exact Nat.div_lt_self (Int.natAbs_pos.mpr h) (by decide)

/-- `while (carry)`. -/
def carryLoop (res : Block) (res_size : Nat) (carry : Int) : Except Fault (Block × Nat) :=
  if carry = 0 then .ok (res, res_size)
  else
    match store res res_size (carry.tmod 10) with
    | .ok res => carryLoop res (res_size + 1) (carry.tdiv 10)
    | .error e => .error e
termination_by carry.natAbs
decreasing_by exact natAbs_tdiv_lt (by assumption)

/-- The array as `multiply` leaves it, and what it returns. -/
def multiply (x : Int) (res : Block) (res_size : Nat) : Except Fault (Block × Nat) := do
  let (carry, res) ← forTo INT_MAX .signedOverflow (digitRound x) 0 (res_size - 1 : Int) (0, res)
  carryLoop res res_size carry

/-! ## `big_factorial` -/

/-- What ends the loop of `big_factorial` early. -/
inductive Exit where
  | fault (f : Fault)
  /-- `return 0`. -/
  | noMemory (m : Memory)

/-- The locals of the loop, and the memory. -/
structure Growing where
  size : Nat
  res : Nat
  res_size : Nat
  memory : Memory

/-- A round of the loop over `x`. -/
def growRound (allocates : Nat → Bool) (x : Nat) (s : Growing) : Except Exit Growing := do
  let (res, block) ← (s.memory.deref (some s.res)).mapError .fault
  let (block, res_size) ← (multiply x block s.res_size).mapError .fault
  let m := s.memory.write res block
  if s.size ≤ res_size then
    let size := s.size * 2
    match m.realloc allocates res block size with
    | (none, m) => throw (.noMemory (m.free res))
    | (some new_res, m) => return ⟨size, new_res, res_size, m⟩
  else return ⟨s.size, res, res_size, m⟩

/-- From `res[0] = 1` on. -/
def factorialLoop (allocates : Nat → Bool) (n : Int) (size : Nat) (res : Option Nat) (m : Memory) :
    Except Exit Growing := do
  let (res, block) ← (m.deref res).mapError .fault
  let block ← (store block 0 1).mapError .fault
  forTo INT_MAX (.fault .signedOverflow) (growRound allocates) 2 n ⟨size, res, 1, m.write res block⟩

/-- `*result = res; return res_size;`, or the early return. -/
def returned : Except Exit Growing → Except Fault (Nat × Memory)
  | .ok s => .ok (s.res_size, { s.memory with result := some s.res })
  | .error (.noMemory m) => .ok (0, m)
  | .error (.fault f) => .error f

/-- What the call returns, and the memory it leaves. -/
def big_factorial (allocates : Nat → Bool) (n : Int) (size : Nat) (m : Memory) :
    Except Fault (Nat × Memory) :=
  if size = 0 then
    let size := 64
    match m.malloc allocates size with
    | (none, m) => .ok (0, m)
    | (some res, m) => returned (factorialLoop allocates n size (some res) m)
  else
    returned (factorialLoop allocates n size none m)

/-! ## The digits in a block -/

/-- Digits as cells. -/
def cells (digits : List Nat) : Block := digits.map fun d => some (d : Int)

@[simp] theorem length_cells (digits : List Nat) : (cells digits).length = digits.length := by
  simp [cells]

@[simp] theorem cells_nil : cells [] = [] := rfl

@[simp] theorem cells_cons (d : Nat) (digits : List Nat) :
    cells (d :: digits) = some (d : Int) :: cells digits := rfl

@[simp] theorem cells_append (l l' : List Nat) : cells (l ++ l') = cells l ++ cells l' := by
  simp [cells]

theorem int_ok {value : Int} (h0 : 0 ≤ value) (h : value ≤ INT_MAX) : int value = .ok value :=
  if_pos ⟨by omega, h⟩

theorem load_at (front rest : Block) (value : Int) :
    load (front ++ some value :: rest) front.length = .ok value := by
  simp [load]

theorem store_at (front rest : Block) (old : Option Int) (value : Int) :
    store (front ++ old :: rest) front.length value = .ok (front ++ some value :: rest) := by
  simp [store]

theorem store_end (front : Block) (value : Int) :
    store front front.length value = .error (.outOfBounds front.length front.length) :=
  if_neg (Nat.lt_irrefl _)

/-- The products of `multiply` with this factor stay in `int`. -/
def Small (x : Nat) : Prop := 10 * x ≤ INT_MAX

theorem digitRound_at {x d c : Nat} (front rest : Block) (hx : Small x) (hd : d < 10) (hc : c < x) :
    digitRound x front.length (c, front ++ some (d : Int) :: rest) =
      .ok (((d * x + c) / 10 : Nat), front ++ some (((d * x + c) % 10 : Nat) : Int) :: rest) := by
  have hlt := product_lt hd hc
  unfold Small at hx
  have hscaled : int ((d : Int) * x) = .ok ((d * x : Nat) : Int) := by
    rw [← Nat.cast_mul]
    exact int_ok (by omega) (by omega)
  have hprod : int ((d * x : Nat) + (c : Int)) = .ok ((d * x + c : Nat) : Int) := by
    rw [← Nat.cast_add]
    exact int_ok (by omega) (by omega)
  simp only [digitRound, load_at, ok_bind, hscaled, hprod, store_at, pure_eq_ok]
  rfl

/-- The first loop from behind `front` to the end of the digits `ds`. -/
theorem digitLoop_ok {x c : Nat} (front rest : Block) {ds : List Nat} (hx : Small x)
    (hlen : front.length + ds.length ≤ INT_MAX) (hds : ∀ d ∈ ds, d < 10) (hc : c < x) :
    rounds (counted INT_MAX .signedOverflow (digitRound x)) ds.length front.length
        (c, front ++ cells ds ++ rest) =
      .ok (((mulPass 10 x c ds).2 : Nat), front ++ cells (mulPass 10 x c ds).1 ++ rest) := by
  induction ds generalizing front c with
  | nil => rfl
  | cons d ds ih =>
    have hd := hds d List.mem_cons_self
    rw [List.length_cons] at hlen
    have hround := digitRound_at front (cells ds ++ rest) hx hd hc
    have hrest := ih (front ++ [some (((d * x + c) % 10 : Nat) : Int)])
      (c := (d * x + c) / 10) (by rw [List.length_append, List.length_singleton]; omega)
      (fun d' hd' => hds d' (List.mem_cons_of_mem d hd')) (carry_lt hd hc)
    rw [List.length_append, List.length_singleton] at hrest
    rw [cells_cons, List.append_assoc, List.cons_append, List.length_cons,
      rounds_of_ok (counted_of_ok (by omega) hround)]
    simpa [mulPass] using hrest

/-- The second loop writes the digits of the carry, up to the end of the block. -/
theorem carryLoop_eq (front rest : Block) (c : Nat) :
    carryLoop (front ++ rest) front.length c =
      if (Nat.digits 10 c).length ≤ rest.length then
        .ok (front ++ cells (Nat.digits 10 c) ++ rest.drop (Nat.digits 10 c).length,
          front.length + (Nat.digits 10 c).length)
      else
        .error (.outOfBounds (front.length + rest.length) (front.length + rest.length)) := by
  induction c using Nat.strongRecOn generalizing front rest with
  | _ c ih =>
    rcases Nat.eq_zero_or_pos c with rfl | hc
    · rw [carryLoop]
      simp
    · have hne : (c : Int) ≠ 0 := by omega
      have hmod : (c : Int).tmod 10 = (c % 10 : Nat) := rfl
      have hdiv : (c : Int).tdiv 10 = (c / 10 : Nat) := rfl
      rw [carryLoop, if_neg hne, Nat.digits_def' (by decide) hc, List.length_cons, hmod, hdiv]
      cases rest with
      | nil =>
        rw [List.append_nil, store_end, List.length_nil, if_neg (by omega)]
        rfl
      | cons old rest =>
        have hrest := ih (c / 10) (Nat.div_lt_self hc (by decide))
          (front ++ [some ((c % 10 : Nat) : Int)]) rest
        rw [List.append_assoc, List.length_append, List.length_singleton] at hrest
        rw [store_at]
        dsimp only
        rw [← List.singleton_append, hrest]
        simp [Nat.add_assoc, Nat.add_comm 1]

/-- **What `multiply` does** with the digits of `v`, in a block with `rest` behind them. -/
theorem multiply_eq {x v : Nat} (rest : Block) (hpos : 1 ≤ x) (hx : Small x)
    (hlen : (Nat.digits 10 v).length ≤ INT_MAX) :
    multiply x (cells (Nat.digits 10 v) ++ rest) (Nat.digits 10 v).length =
      let used := (Nat.digits 10 v).length
      let needed := (Nat.digits 10 (v * x)).length
      if needed ≤ used + rest.length then
        .ok (cells (Nat.digits 10 (v * x)) ++ rest.drop (needed - used), needed)
      else .error (.outOfBounds (used + rest.length) (used + rest.length)) := by
  have hfirst := digitLoop_ok [] rest (c := 0) hx
    (by rwa [List.length_nil, Nat.zero_add]) (fun d hd => Nat.digits_lt_base (by decide) hd) hpos
  have hdigits := mulPass_digits (by decide : 1 < 10) hpos 0 v
  have hlow := length_mulPass 10 x 0 (Nat.digits 10 v)
  generalize mulPass 10 x 0 (Nat.digits 10 v) = r at hfirst hdigits hlow
  have hneeded : (Nat.digits 10 (v * x)).length =
      (Nat.digits 10 v).length + (Nat.digits 10 r.2).length := by
    rw [← Nat.add_zero (v * x), ← hdigits, List.length_append, hlow]
  have hsecond := carryLoop_eq (cells r.1) rest r.2
  rw [length_cells, hlow] at hsecond
  have hk : ((Nat.digits 10 v).length - 1 + 1 - (0 : Nat) : Int).toNat =
      (Nat.digits 10 v).length := by
    omega
  have hloop : forTo INT_MAX .signedOverflow (digitRound x) 0 ((Nat.digits 10 v).length - 1 : Int)
      (0, cells (Nat.digits 10 v) ++ rest) = .ok ((r.2 : Int), cells r.1 ++ rest) := by
    rw [forTo, hk]
    exact hfirst
  unfold multiply
  rw [hloop, ok_bind]
  dsimp only
  rw [hsecond, hneeded, ← Nat.add_zero (v * x), ← hdigits, cells_append, Nat.add_sub_cancel_left]
  simp only [Nat.add_le_add_iff_left]

end LearnNotes.Factorial.C
