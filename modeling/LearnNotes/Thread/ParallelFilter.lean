import Mathlib
import LearnNotes.Lib.Blocks
import LearnNotes.Lib.Machine

/-!
# The parallel filter

`learn_tbb/src/vector.cpp`: the body of `tbb::parallel_for` on each of the ranges TBB makes of
`[0,N)`, one turn of a loop or one `fetch_add` at a time, in any order of the ranges. `val` and
`keep` stand for `std::sin(i)` and `val > 0`. `filter_correct`: the writes stay in the array and
never meet, and what is left after `a.resize(a_size)` is each range's values, kept together and
in order, range after range as they came to `fetch_add`.
-/

namespace LearnNotes.Thread

open Lib

/-- `tbb::blocked_range<size_t>`, not empty backwards. -/
structure Range where
  first : Nat
  last : Nat
  le : first ≤ last

namespace Range

def size (r : Range) : Nat := r.last - r.first

/-- The indices from `first` to `i`. -/
def upTo (r : Range) (i : Nat) : List Nat := List.range' r.first (i - r.first)

def indices (r : Range) : List Nat := r.upTo r.last

end Range

/-- The ranges `[0,N)` is split into, each index in one of them. -/
structure Partition (ι : Type) (N : UInt64) where
  range : ι → Range
  ids : List ι
  nodup : ids.Nodup
  complete : ∀ k, k ∈ ids
  covers : (ids.flatMap fun k => (range k).indices).Perm (List.range N.toNat)

/-- What the body does next on a range. -/
inductive Stage (V : Type) where
  /-- The loop over the range is at `i`; `a_local` holds what it has collected. -/
  | collecting (i : Nat) (a_local : List V)
  /-- The loop over `a_local` is at `i`. -/
  | writing (base : UInt64) (i : Nat) (a_local : List V)

/-- The cells of `a` (`none` where `resize` left them), `a_size`, the stages, and the cells
written so far. -/
structure Filter (ι V : Type) where
  a : Nat → Option V
  a_size : UInt64
  stage : ι → Stage V
  writes : List Nat

variable {ι V : Type} [DecidableEq ι] {N : UInt64}

namespace Filter

def setStage (k : ι) (stage : Stage V) (s : Filter ι V) : Filter ι V :=
  { s with stage := Function.update s.stage k stage }

/-- `a[cell] = v`. -/
def write (cell : Nat) (v : V) (s : Filter ι V) : Filter ι V :=
  { s with a := Function.update s.a cell (some v), writes := cell :: s.writes }

/-- `a.resize(a_size)`. -/
def resized (s : Filter ι V) : List (Option V) := (List.range s.a_size.toNat).map s.a

end Filter

section Body

variable (val : Nat → V) (keep : V → Bool)

/-- The next thing the body does on the range `k`; nothing once it is through. -/
def body (P : Partition ι N) (s : Filter ι V) (k : ι) : Filter ι V :=
  match s.stage k with
  | .collecting i a_local =>
    if i ≠ (P.range k).last then
      s.setStage k (.collecting (i + 1) (if keep (val i) then a_local ++ [val i] else a_local))
    else
      -- `size_t base = a_size.fetch_add(a_size_local)`
      { s.setStage k (.writing s.a_size 0 a_local) with
        a_size := s.a_size + UInt64.ofNat a_local.length }
  | .writing base i a_local =>
    match a_local[i]? with
    | none => s
    | some v =>
      (s.write (base + UInt64.ofNat i).toNat v).setStage k (.writing base (i + 1) a_local)

/-- The filter; an input is the range whose body moves. -/
def parallelFilter (P : Partition ι N) : Machine (Filter ι V) ι Unit where
  init := ⟨fun _ => none, 0, fun k => .collecting (P.range k).first [], []⟩
  step s k := ((), body val keep P s k)

/-- The values a range is to keep, in order. -/
def kept (P : Partition ι N) (k : ι) : List V := ((P.range k).indices.map val).filter keep

end Body

/-- The body is through. -/
def Stage.Finished : Stage V → Prop
  | .collecting _ _ => False
  | .writing _ i a_local => a_local.length ≤ i

instance : (stage : Stage V) → Decidable stage.Finished
  | .collecting _ _ => inferInstanceAs (Decidable False)
  | .writing _ i a_local => inferInstanceAs (Decidable (a_local.length ≤ i))

/-- No write is beyond the array, and none is where one was before. -/
def WritesOk (N : UInt64) (s : Filter ι V) : Prop :=
  (∀ cell ∈ s.writes, cell < N.toNat) ∧ s.writes.Nodup

/-! ## The invariant -/

/-- The cells a range has written. -/
def Stage.written : Stage V → Nat
  | .collecting _ _ => 0
  | .writing _ i _ => i

def Stage.Reserved : Stage V → Prop
  | .collecting _ _ => False
  | .writing _ _ _ => True

section Invariant

variable (val : Nat → V) (keep : V → Bool) (P : Partition ι N)

/-- A stage, given where its block begins. -/
def StageOk (start : Nat) (k : ι) : Stage V → Prop
  | .collecting i a_local =>
    (P.range k).first ≤ i ∧ i ≤ (P.range k).last ∧
      a_local = (((P.range k).upTo i).map val).filter keep
  | .writing base i a_local =>
    base.toNat = start ∧ a_local = kept val keep P k ∧ i ≤ a_local.length

/-- The ranges in `order` have come to `fetch_add`, and each writes its block of the layout. -/
structure Reserved (order : List ι) (s : Filter ι V) : Prop where
  nodup : order.Nodup
  mem : ∀ k, k ∈ order ↔ (s.stage k).Reserved
  size : s.a_size.toNat = (Blocks.layout (kept val keep P) order).length
  stage : ∀ k, StageOk val keep P (Blocks.start (kept val keep P) order k) k (s.stage k)
  writes : ∀ cell, cell ∈ s.writes ↔
    ∃ k ∈ order, ∃ i < (s.stage k).written, cell = Blocks.start (kept val keep P) order k + i
  cells : ∀ k ∈ order, ∀ i < (s.stage k).written,
    s.a (Blocks.start (kept val keep P) order k + i) = (kept val keep P k)[i]?
  once : s.writes.Nodup

variable {val keep P} {order : List ι} {s : Filter ι V} {k : ι}

omit [DecidableEq ι] in
/-- All the ranges together keep what a loop over `[0,N)` would. -/
theorem layout_ids_perm (val : Nat → V) (keep : V → Bool) (P : Partition ι N) :
    (Blocks.layout (kept val keep P) P.ids).Perm
      (((List.range N.toNat).map val).filter keep) := by
  have hflat : Blocks.layout (kept val keep P) P.ids =
      ((P.ids.flatMap fun k => (P.range k).indices).map val).filter keep := by
    rw [List.map_flatMap, List.filter_flatMap]
    rfl
  rw [hflat]
  exact (P.covers.map val).filter keep

omit [DecidableEq ι] in
/-- No set of ranges keeps more than the array holds. -/
theorem length_layout_le (hnd : order.Nodup) :
    (Blocks.layout (kept val keep P) order).length ≤ N.toNat :=
  calc (Blocks.layout (kept val keep P) order).length
    _ ≤ (Blocks.layout (kept val keep P) P.ids).length :=
      Blocks.length_layout_le hnd fun k _ => P.complete k
    _ = (((List.range N.toNat).map val).filter keep).length :=
      (layout_ids_perm val keep P).length_eq
    _ ≤ ((List.range N.toNat).map val).length := List.length_filter_le ..
    _ = N.toNat := by rw [List.length_map, List.length_range]

omit [DecidableEq ι] in
/-- Only a range with a block minds where it begins. -/
theorem StageOk.move {start start' : Nat} {stage : Stage V}
    (h : StageOk val keep P start k stage) (hmove : stage.Reserved → start' = start) :
    StageOk val keep P start' k stage := by
  cases stage with
  | collecting i a_local => exact h
  | writing base i a_local =>
    rw [hmove trivial]
    exact h

/-- A sum that does not wrap. -/
theorem toNat_add_ofNat {x : UInt64} {n : Nat} (h : x.toNat + n < 2 ^ 64) :
    (x + UInt64.ofNat n).toNat = x.toNat + n := by
  rw [UInt64.toNat_add, UInt64.toNat_ofNat_of_lt' (show n < 2 ^ 64 by omega), Nat.mod_eq_of_lt h]

omit [DecidableEq ι] in
theorem nodup_concat (hnd : order.Nodup) (hk : k ∉ order) : (order ++ [k]).Nodup := by
  rw [← List.concat_eq_append]
  exact hnd.concat hk

theorem stage_setStage_self (stage : Stage V) (s : Filter ι V) (k : ι) :
    (s.setStage k stage).stage k = stage := Function.update_self ..

theorem stage_setStage_of_ne {j : ι} (h : j ≠ k) (stage : Stage V) (s : Filter ι V) :
    (s.setStage k stage).stage j = s.stage j := Function.update_of_ne h ..

/-- A range that collects has no block yet. -/
theorem Reserved.notMem {i : Nat} {a_local : List V} (h : Reserved val keep P order s)
    (hk : s.stage k = .collecting i a_local) : k ∉ order := by
  rw [h.mem, hk]
  exact id

/-- What holds of the stage that is set and of the others holds of all. -/
theorem forall_setStage (R : ι → Stage V → Prop) {stage : Stage V} (hself : R k stage)
    (hother : ∀ j, j ≠ k → R j (s.stage j)) (j : ι) : R j ((s.setStage k stage).stage j) := by
  by_cases hj : j = k
  · subst hj
    rw [stage_setStage_self]
    exact hself
  · rw [stage_setStage_of_ne hj]
    exact hother j hj

/-- What is written stands while the ranges with a block keep their place and their stage, and
new ones have written nothing. -/
theorem Reserved.frame (h : Reserved val keep P order s) (order' : List ι) (stage : ι → Stage V)
    (hold : ∀ j ∈ order, j ∈ order' ∧ stage j = s.stage j ∧
      Blocks.start (kept val keep P) order' j = Blocks.start (kept val keep P) order j)
    (hnew : ∀ j ∈ order', j ∈ order ∨ (stage j).written = 0) :
    (∀ cell, cell ∈ s.writes ↔ ∃ j ∈ order', ∃ i < (stage j).written,
      cell = Blocks.start (kept val keep P) order' j + i) ∧
    ∀ j ∈ order', ∀ i < (stage j).written,
      s.a (Blocks.start (kept val keep P) order' j + i) = (kept val keep P j)[i]? := by
  constructor
  · intro cell
    rw [h.writes]
    constructor
    · rintro ⟨j, hj, hcell⟩
      obtain ⟨hj', hstage, hstart⟩ := hold j hj
      exact ⟨j, hj', by rwa [hstage, hstart]⟩
    · rintro ⟨j, hj, i, hi, hcell⟩
      rcases hnew j hj with hj | hzero
      · obtain ⟨-, hstage, hstart⟩ := hold j hj
        exact ⟨j, hj, i, by rwa [← hstage], by rwa [← hstart]⟩
      · omega
  · intro j hj i hi
    rcases hnew j hj with hj | hzero
    · obtain ⟨-, hstage, hstart⟩ := hold j hj
      rw [hstage] at hi
      rw [hstart]
      exact h.cells j hj i hi
    · omega

omit [DecidableEq ι] in
/-- One more index in what a range has collected. -/
theorem StageOk.collect {start i : Nat} {a_local : List V}
    (h : StageOk val keep P start k (.collecting i a_local)) (hi : i ≠ (P.range k).last) :
    StageOk val keep P start k
      (.collecting (i + 1) (if keep (val i) then a_local ++ [val i] else a_local)) := by
  obtain ⟨hfirst, hlast, hlocal⟩ := h
  refine ⟨Nat.le_succ_of_le hfirst, Nat.succ_le_of_lt (Nat.lt_of_le_of_ne hlast hi), ?_⟩
  have hupTo : (P.range k).upTo (i + 1) = (P.range k).upTo i ++ [i] := by
    unfold Range.upTo
    rw [Nat.succ_sub hfirst, List.range'_concat, Nat.one_mul, Nat.add_sub_cancel' hfirst]
  rw [hupTo, List.map_append, List.filter_append, ← hlocal, List.map_singleton,
    List.filter_singleton]
  cases keep (val i) <;> simp

/-- One more index of the range. -/
theorem Reserved.collect {i : Nat} {a_local : List V} (h : Reserved val keep P order s)
    (hk : s.stage k = .collecting i a_local) (hi : i ≠ (P.range k).last) :
    Reserved val keep P order (s.setStage k
      (.collecting (i + 1) (if keep (val i) then a_local ++ [val i] else a_local))) := by
  have hnot := h.notMem hk
  have hok : StageOk val keep P _ k (.collecting i a_local) := hk ▸ h.stage k
  have hframe := h.frame order (s.setStage k _).stage
    (fun j hj => ⟨hj, stage_setStage_of_ne (ne_of_mem_of_not_mem hj hnot)
      (.collecting (i + 1) (if keep (val i) then a_local ++ [val i] else a_local)) s, rfl⟩)
    fun j hj => .inl hj
  exact
    { nodup := h.nodup
      mem := forall_setStage (fun j stage => j ∈ order ↔ stage.Reserved) (iff_of_false hnot id)
        fun j _ => h.mem j
      size := h.size
      stage := forall_setStage (fun j => StageOk val keep P _ j) (hok.collect hi)
        fun j _ => h.stage j
      writes := hframe.1
      cells := hframe.2
      once := h.once }

/-- A range at its end has collected what it is to keep. -/
theorem Reserved.collected {i : Nat} {a_local : List V} (h : Reserved val keep P order s)
    (hk : s.stage k = .collecting i a_local) (hi : i = (P.range k).last) :
    a_local = kept val keep P k := by
  have hok : StageOk val keep P _ k (.collecting i a_local) := hk ▸ h.stage k
  rw [hok.2.2, hi]
  rfl

/-- `fetch_add` does not wrap: all the blocks fit in the array. -/
theorem Reserved.size_concat (h : Reserved val keep P order s) (hnot : k ∉ order) :
    (s.a_size + UInt64.ofNat (kept val keep P k).length).toNat =
      (Blocks.layout (kept val keep P) (order ++ [k])).length := by
  have hlen : (Blocks.layout (kept val keep P) (order ++ [k])).length =
      s.a_size.toNat + (kept val keep P k).length := by
    rw [Blocks.layout_concat, List.length_append, h.size]
  have hfit : (Blocks.layout (kept val keep P) (order ++ [k])).length ≤ N.toNat :=
    length_layout_le (nodup_concat h.nodup hnot)
  have hN := N.toNat_lt
  rw [hlen] at hfit ⊢
  exact toNat_add_ofNat (by omega)

/-- The range gets its block behind those there are. -/
theorem Reserved.reserve {i : Nat} {a_local : List V} (h : Reserved val keep P order s)
    (hk : s.stage k = .collecting i a_local) (hi : i = (P.range k).last) :
    Reserved val keep P (order ++ [k])
      { s.setStage k (.writing s.a_size 0 a_local) with
        a_size := s.a_size + UInt64.ofNat a_local.length } := by
  have hnot := h.notMem hk
  have hlocal := h.collected hk hi
  have hstart : ∀ j ∈ order, Blocks.start (kept val keep P) (order ++ [k]) j =
      Blocks.start (kept val keep P) order j := fun j hj => Blocks.start_concat_of_mem hj k
  have hframe := h.frame (order ++ [k]) (s.setStage k (.writing s.a_size 0 a_local)).stage
    (fun j hj => ⟨List.mem_append_left _ hj,
      stage_setStage_of_ne (ne_of_mem_of_not_mem hj hnot) _ s, hstart j hj⟩)
    fun j hj => (List.mem_append.mp hj).imp_right fun hj => by
      rw [List.mem_singleton.mp hj, stage_setStage_self]
      rfl
  refine
    { nodup := nodup_concat h.nodup hnot
      mem := forall_setStage (fun j stage => j ∈ order ++ [k] ↔ stage.Reserved)
        (iff_of_true (List.mem_append_right _ (List.mem_singleton_self k)) trivial)
        fun j hj => ?_
      size := hlocal ▸ h.size_concat hnot
      stage := forall_setStage (fun j => StageOk val keep P _ j) ?_ fun j _ => ?_
      writes := hframe.1
      cells := hframe.2
      once := h.once }
  · rw [List.mem_append, List.mem_singleton, or_iff_left hj]
    exact h.mem j
  · exact ⟨by rw [Blocks.start_concat_self hnot, h.size], hlocal, Nat.zero_le _⟩
  · exact (h.stage j).move fun hres => hstart j ((h.mem j).mpr hres)

theorem Reserved.written_le (h : Reserved val keep P order s) (k : ι) :
    (s.stage k).written ≤ (kept val keep P k).length := by
  have hstage := h.stage k
  cases hk : s.stage k with
  | collecting i a_local => exact Nat.zero_le _
  | writing base i a_local =>
    rw [hk] at hstage
    rw [← hstage.2.1]
    exact hstage.2.2

/-- The next cell of a block is in the array, and nobody has written it. -/
theorem Reserved.next_cell {i : Nat} {base : UInt64} {a_local : List V}
    (h : Reserved val keep P order s) (hk : s.stage k = .writing base i a_local)
    (hi : i < a_local.length) :
    (base + UInt64.ofNat i).toNat = Blocks.start (kept val keep P) order k + i ∧
      Blocks.start (kept val keep P) order k + i < N.toNat ∧
      Blocks.start (kept val keep P) order k + i ∉ s.writes := by
  obtain ⟨hbase, hlocal, -⟩ : StageOk val keep P _ k (.writing base i a_local) := hk ▸ h.stage k
  rw [hlocal] at hi
  have hmem : k ∈ order := (h.mem k).mpr (by rw [hk]; trivial)
  have hfit : Blocks.start (kept val keep P) order k + i < N.toNat :=
    Nat.lt_of_lt_of_le (Blocks.start_add_lt hmem hi) (length_layout_le h.nodup)
  have hN := N.toNat_lt
  refine ⟨?_, hfit, fun hwritten => ?_⟩
  · rw [← hbase] at hfit ⊢
    exact toNat_add_ofNat (by omega)
  · obtain ⟨j, hj, i', hi', heq⟩ := (h.writes _).mp hwritten
    obtain ⟨rfl, rfl⟩ :=
      Blocks.start_inj hmem hj hi (Nat.lt_of_lt_of_le hi' (h.written_le j)) heq
    rw [hk] at hi'
    exact Nat.lt_irrefl _ hi'

/-- A write adds one to the cells its range has written. -/
theorem written_write {i : Nat} {base : UInt64} {a_local : List V} (v : V) (cell : Nat)
    (hk : s.stage k = .writing base i a_local) (j : ι) (i' : Nat) :
    i' < (((s.write cell v).setStage k (.writing base (i + 1) a_local)).stage j).written ↔
      (j = k ∧ i' = i) ∨ i' < (s.stage j).written := by
  by_cases hj : j = k
  · subst hj
    rw [stage_setStage_self, hk]
    show i' < i + 1 ↔ (j = j ∧ i' = i) ∨ i' < i
    rw [and_iff_right rfl]
    omega
  · rw [stage_setStage_of_ne hj]
    exact (or_iff_right fun hjk => hj hjk.1).symm

/-- One more value in its place. -/
theorem Reserved.write {i : Nat} {base : UInt64} {a_local : List V} {v : V}
    (h : Reserved val keep P order s) (hk : s.stage k = .writing base i a_local)
    (hv : a_local[i]? = some v) :
    Reserved val keep P order
      ((s.write (base + UInt64.ofNat i).toNat v).setStage k (.writing base (i + 1) a_local)) := by
  obtain ⟨hi, -⟩ := List.getElem?_eq_some_iff.mp hv
  obtain ⟨hcell, -, hfresh⟩ := h.next_cell hk hi
  obtain ⟨hbase, hlocal, -⟩ : StageOk val keep P _ k (.writing base i a_local) := hk ▸ h.stage k
  have hmem : k ∈ order := (h.mem k).mpr (by rw [hk]; trivial)
  rw [hcell]
  set cell := Blocks.start (kept val keep P) order k + i with hdef
  have hmore := written_write (s := s) v cell hk
  refine
    { nodup := h.nodup
      mem := forall_setStage (fun j stage => j ∈ order ↔ stage.Reserved)
        (iff_of_true hmem trivial) fun j _ => h.mem j
      size := h.size
      stage := forall_setStage (fun j => StageOk val keep P _ j) ⟨hbase, hlocal, hi⟩
        fun j _ => h.stage j
      writes := fun c => ?_
      cells := fun j hj i' hi' => ?_
      once := List.nodup_cons.mpr ⟨hfresh, h.once⟩ }
  · have hcons : c ∈ ((s.write cell v).setStage k (.writing base (i + 1) a_local)).writes ↔
        c = cell ∨ c ∈ s.writes := List.mem_cons
    rw [hcons, h.writes]
    simp only [hmore]
    constructor
    · rintro (rfl | ⟨j, hj, i', hi', hc⟩)
      · exact ⟨k, hmem, i, .inl ⟨rfl, rfl⟩, rfl⟩
      · exact ⟨j, hj, i', .inr hi', hc⟩
    · rintro ⟨j, hj, i', ⟨rfl, rfl⟩ | hi', hc⟩
      · exact .inl hc
      · exact .inr ⟨j, hj, i', hi', hc⟩
  · have ha : ((s.write cell v).setStage k (.writing base (i + 1) a_local)).a =
        Function.update s.a cell (some v) := rfl
    rw [ha]
    rcases (hmore j i').mp hi' with ⟨rfl, rfl⟩ | hold
    · rw [← hdef, Function.update_self, ← hlocal, hv]
    · have hne : Blocks.start (kept val keep P) order j + i' ≠ cell := fun heq =>
        hfresh ((h.writes cell).mpr ⟨j, hj, i', hold, heq.symm⟩)
      rw [Function.update_of_ne hne]
      exact h.cells j hj i' hold

/-- What the body does keeps the blocks. -/
theorem Reserved.body (h : Reserved val keep P order s) (k : ι) :
    ∃ order', Reserved val keep P order' (body val keep P s k) := by
  unfold Thread.body
  cases hk : s.stage k with
  | collecting i a_local =>
    dsimp only
    by_cases hi : i = (P.range k).last
    · rw [if_neg (not_not.mpr hi)]
      exact ⟨order ++ [k], h.reserve hk hi⟩
    · rw [if_pos hi]
      exact ⟨order, h.collect hk hi⟩
  | writing base i a_local =>
    dsimp only
    cases hv : a_local[i]? with
    | none => exact ⟨order, h⟩
    | some v => exact ⟨order, h.write hk hv⟩

/-- The ranges have their blocks in every state. -/
theorem reserved_after (val : Nat → V) (keep : V → Bool) (P : Partition ι N) (is : List ι) :
    (parallelFilter val keep P).EveryState is fun s =>
      ∃ order, Reserved val keep P order s := by
  refine Machine.everyState_of_step ⟨[], ?_⟩ fun s k ⟨order, h⟩ => h.body k
  exact
    { nodup := List.nodup_nil
      mem := fun k => iff_of_false List.not_mem_nil id
      size := rfl
      stage := fun k => ⟨Nat.le_refl _, (P.range k).le, by simp [Range.upTo]⟩
      writes := fun cell => by simp [parallelFilter]
      cells := fun k hk => absurd hk List.not_mem_nil
      once := List.nodup_nil }

theorem Reserved.writesOk (h : Reserved val keep P order s) : WritesOk N s := by
  refine ⟨fun cell hcell => ?_, h.once⟩
  obtain ⟨k, hk, i, hi, rfl⟩ := (h.writes cell).mp hcell
  exact Nat.lt_of_lt_of_le (Blocks.start_add_lt hk (Nat.lt_of_lt_of_le hi (h.written_le k)))
    (length_layout_le h.nodup)

/-- When every body is through, the array holds the blocks. -/
theorem Reserved.resized_eq (h : Reserved val keep P order s)
    (hdone : ∀ k, (s.stage k).Finished) :
    order.Perm P.ids ∧ s.resized = (Blocks.layout (kept val keep P) order).map some := by
  have hmem : ∀ k, k ∈ order := fun k => by
    have hk := hdone k
    rw [h.mem]
    cases hstage : s.stage k with
    | collecting i a_local => rw [hstage] at hk; exact hk
    | writing base i a_local => trivial
  have hwritten : ∀ k, (kept val keep P k).length ≤ (s.stage k).written := fun k => by
    have hk := hdone k
    have hok := h.stage k
    cases hstage : s.stage k with
    | collecting i a_local => rw [hstage] at hk; exact absurd hk id
    | writing base i a_local =>
      rw [hstage] at hk hok
      rw [← hok.2.1]
      exact hk
  refine ⟨(List.perm_ext_iff_of_nodup h.nodup P.nodup).mpr fun k =>
    iff_of_true (hmem k) (P.complete k), ?_⟩
  unfold Filter.resized
  rw [h.size]
  refine List.ext_getElem (by simp) fun c hc _ => ?_
  rw [List.length_map, List.length_range] at hc
  obtain ⟨k, hk, i, hi, rfl⟩ := Blocks.exists_start h.nodup hc
  rw [List.getElem_map, List.getElem_range, List.getElem_map,
    h.cells k hk i (Nat.lt_of_lt_of_le hi (hwritten k)), ← Blocks.getElem?_layout hk hi]
  exact List.getElem?_eq_getElem hc

/-! ## The bodies come to an end -/

/-- The turns a body has still to make, at most. -/
def left (P : Partition ι N) (k : ι) : Stage V → Nat
  | .collecting i a_local => 2 * ((P.range k).last - i) + a_local.length + 1
  | .writing _ i a_local => a_local.length - i

omit [DecidableEq ι] in
theorem left_collecting (i : Nat) (a_local : List V) :
    left P k (.collecting i a_local) =
      2 * ((P.range k).last - i) + a_local.length + 1 := rfl

omit [DecidableEq ι] in
theorem left_writing (base : UInt64) (i : Nat) (a_local : List V) :
    left P k (.writing base i a_local) = a_local.length - i := rfl

theorem stage_body_of_ne {j : ι} (h : j ≠ k) (s : Filter ι V) :
    (Thread.body val keep P s k).stage j = s.stage j := by
  unfold Thread.body
  cases s.stage k with
  | collecting i a_local =>
    dsimp only
    split <;> exact stage_setStage_of_ne h ..
  | writing base i a_local =>
    dsimp only
    split
    · rfl
    · exact stage_setStage_of_ne h ..

theorem left_body (h : Reserved val keep P order s) (k : ι) :
    left P k ((Thread.body val keep P s k).stage k) ≤ left P k (s.stage k) - 1 := by
  have hok := h.stage k
  unfold Thread.body
  cases hk : s.stage k with
  | collecting i a_local =>
    rw [hk] at hok
    obtain ⟨-, hlast, -⟩ := hok
    dsimp only
    by_cases hi : i = (P.range k).last
    · rw [if_neg (not_not.mpr hi)]
      have hself : ({ s.setStage k (.writing s.a_size 0 a_local) with
          a_size := s.a_size + UInt64.ofNat a_local.length } : Filter ι V).stage k =
          .writing s.a_size 0 a_local := stage_setStage_self ..
      rw [hself, left_writing, left_collecting]
      omega
    · rw [if_pos hi, stage_setStage_self]
      have hlen : (if keep (val i) then a_local ++ [val i] else a_local).length ≤
          a_local.length + 1 := by
        split <;> simp
      rw [left_collecting, left_collecting]
      omega
  | writing base i a_local =>
    dsimp only
    cases hv : a_local[i]? with
    | none =>
      have := List.getElem?_eq_none_iff.mp hv
      dsimp only
      rw [hk, left_writing]
      omega
    | some v =>
      dsimp only
      rw [stage_setStage_self, left_writing, left_writing]
      omega

/-- Each turn of a body brings it nearer to its end, whatever the others do. -/
theorem left_after (val : Nat → V) (keep : V → Bool) (P : Partition ι N) (is : List ι) (k : ι) :
    left P k (((parallelFilter val keep P).after is).stage k) ≤
      2 * (P.range k).size + 1 - is.count k := by
  induction is using List.reverseRecOn with
  | nil => exact Nat.le_of_eq rfl
  | append_singleton is j ih =>
    have hnext : (parallelFilter val keep P).after (is ++ [j]) =
        Thread.body val keep P ((parallelFilter val keep P).after is) j := Machine.after_snoc
    rw [hnext, List.count_append]
    by_cases hj : j = k
    · subst hj
      obtain ⟨order, h⟩ := (reserved_after val keep P is).last
      have := left_body h j
      rw [List.count_singleton_self]
      omega
    · have hzero : [j].count k = 0 := List.count_eq_zero.mpr (by simpa using Ne.symm hj)
      rw [stage_body_of_ne (Ne.symm hj), hzero]
      exact ih

/-- A schedule that gives every range its turns ends the loop. -/
theorem finished_of_count (val : Nat → V) (keep : V → Bool) (P : Partition ι N) {is : List ι}
    (h : ∀ k, 2 * (P.range k).size < is.count k) (k : ι) :
    (((parallelFilter val keep P).after is).stage k).Finished := by
  have hleft := left_after val keep P is k
  have hcount := h k
  cases hk : ((parallelFilter val keep P).after is).stage k with
  | collecting i a_local =>
    rw [hk, left_collecting] at hleft
    omega
  | writing base i a_local =>
    rw [hk, left_writing] at hleft
    show a_local.length ≤ i
    omega

end Invariant

/-- **The filter.** Along every run the writes stay in the array and no cell is written twice.
When every body is through, the array, cut to `a_size`, holds the kept values of
`val 0, …, val (N-1)`, those of each range together and in order. -/
theorem filter_correct (val : Nat → V) (keep : V → Bool) (P : Partition ι N) (is : List ι) :
    (parallelFilter val keep P).EveryState is (WritesOk N) ∧
      ((∀ k, (((parallelFilter val keep P).after is).stage k).Finished) →
        ∃ (order : List ι) (values : List V), order.Perm P.ids ∧
          values = order.flatMap (kept val keep P) ∧
          values.Perm (((List.range N.toNat).map val).filter keep) ∧
          ((parallelFilter val keep P).after is).resized = values.map some) := by
  have hres := reserved_after val keep P is
  refine ⟨fun pre hpre => (hres pre hpre).elim fun _ h => h.writesOk, fun hdone => ?_⟩
  obtain ⟨order, h⟩ := hres.last
  obtain ⟨hperm, hcells⟩ := h.resized_eq hdone
  exact ⟨order, _, hperm, rfl, (Blocks.layout_perm hperm).trans (layout_ids_perm val keep P),
    hcells⟩

/-- Three indices in two ranges. -/
def twoRanges : Partition (Fin 2) 3 where
  range k := if k = 0 then ⟨0, 2, by decide⟩ else ⟨2, 3, by decide⟩
  ids := [0, 1]
  nodup := by decide
  complete := by decide
  covers := by decide

/-- The second range comes to `fetch_add` first. -/
theorem filter_correct_twoRanges :
    ∃ (order : List (Fin 2)) (values : List Nat), order.Perm [0, 1] ∧
      values = order.flatMap (kept id (· != 1) twoRanges) ∧
      values.Perm (((List.range 3).map id).filter (· != 1)) ∧
      ((parallelFilter id (· != 1) twoRanges).after [1, 0, 0, 1, 0, 0, 1]).resized =
        values.map some :=
  (filter_correct id (· != 1) twoRanges [1, 0, 0, 1, 0, 0, 1]).2 (by decide)

end LearnNotes.Thread
