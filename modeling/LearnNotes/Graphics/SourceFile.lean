import LearnNotes.Graphics.Shader
import LearnNotes.Lib.Arena

/-!
# Reading a source

`fsize` and `ReadFileToBuffer` of `shader.cpp`, down to the stream and the bytes of the buffers;
`sourceRead` is the `Read` that the model of `build` works with (`sourceRead_rc`, `sourceRead_src`).
A buffer that `ReadFileToBuffer` hands out holds the file and a NUL behind it, and nothing is ever
written outside a buffer. What it gets wrong is the size 0, by which `fsize` says that the file is
empty and also that it failed: the answer to it, `GL_FALSE`, is `EXIT_SUCCESS` to the caller.
`faithful_iff`: reading a file is faithful exactly when its size is known and is not 0.
-/

namespace LearnNotes.Graphics

open Lib

/-! ## Streams -/

/-- A stream on a file of bytes. -/
structure FILE where
  content : List UInt8
  pos : Nat := 0

/-- The largest `long`. -/
def LONG_MAX : Nat := 9223372036854775807

/-- What the C library answers: the calls on the stream in the order in which they are made,
whether they succeed, how many bytes `fread` can get, the address `malloc` gives and what is in
memory it gives. -/
structure ReadEnv where
  seekStart : Bool := true
  tell : Bool := true
  seekEnd : Bool := true
  tellEnd : Bool := true
  seekBack : Bool := true
  seekAgain : Bool := true
  limit : Nat
  malloc : Option Nat := none
  junk : Nat → UInt8 := fun _ => 0

namespace FILE

def fseek (ok : Bool) (off : Nat) (fp : FILE) : Bool × FILE :=
  if ok then (true, { fp with pos := off }) else (false, fp)

/-- `ftell`, with none for -1; a position that is no `long` is an error. -/
def ftell (ok : Bool) (fp : FILE) : Option Nat :=
  if ok ∧ fp.pos ≤ LONG_MAX then some fp.pos else none

def fread (limit n : Nat) (fp : FILE) : List UInt8 × FILE :=
  let bytes := ((fp.content.drop fp.pos).take n).take limit
  (bytes, { fp with pos := fp.pos + bytes.length })

end FILE

/-- `fsize` of an open stream. -/
def fsize (env : ReadEnv) (fp : FILE) : Nat × FILE :=
  match fp.ftell env.tell with
  | none => (0, fp)
  | some current_pos =>
    let (ok, fp) := fp.fseek env.seekEnd fp.content.length
    if !ok then (0, (fp.fseek env.seekBack current_pos).2)
    else
      let file_size := fp.ftell env.tellEnd
      (file_size.getD 0, (fp.fseek env.seekBack current_pos).2)

/-! ## Buffers -/

def SRC_BUFF_SIZE : Nat := 4096

/-- What a `char *` may point to: `srcbuff`, or what `malloc` gave. -/
inductive Src where
  | static
  | heap (p : Nat)
  deriving DecidableEq

/-- The memory the sources are read into. -/
structure SrcMem where
  cells : Arena Src UInt8
  srcbuff : cells.HasSize .static SRC_BUFF_SIZE

namespace SrcMem

/-- No heap buffer, and `srcbuff` as it is before the first read. -/
def init : SrcMem where
  cells
    | .static => some (List.replicate SRC_BUFF_SIZE 0)
    | .heap _ => none
  srcbuff := ⟨_, rfl, List.length_replicate⟩

def store (m : SrcMem) (k : Src) (off : Nat) (bytes : List UInt8) : Option SrcMem :=
  match h : m.cells.write k off bytes with
  | none => none
  | some cells => some ⟨cells, m.srcbuff.write h⟩

def setHeap (m : SrcMem) (p : Nat) (block : Option (List UInt8)) : SrcMem :=
  ⟨Function.update m.cells (.heap p) block, m.srcbuff.update_of_ne (by simp) block⟩

/-- A null answer, or one that is in use and so cannot be given, allocates nothing. -/
def malloc (env : ReadEnv) (n : Nat) (m : SrcMem) : Option Nat × SrcMem :=
  match env.malloc with
  | none => (none, m)
  | some p =>
    if (m.cells (.heap p)).isSome then (none, m)
    else (some p, m.setHeap p (some ((List.range n).map env.junk)))

def free (p : Nat) (m : SrcMem) : SrcMem := m.setHeap p none

end SrcMem

/-! ## `ReadFileToBuffer` -/

/-- The variables the caller gives the addresses of; none for a null pointer. -/
structure Outs where
  out_src : Option (Option Src)
  out_len : Option Nat
  out_isStatic : Option Bool
  deriving DecidableEq

/-- No pointer is null. -/
def Outs.Given (outs : Outs) : Prop :=
  outs.out_src.isSome ∧ outs.out_len.isSome ∧ outs.out_isStatic.isSome

/-- The variables of `BuildShader`. -/
def Outs.init : Outs := ⟨some none, some 0, some false⟩

theorem Outs.given_init : Outs.init.Given := ⟨rfl, rfl, rfl⟩

instance (outs : Outs) : Decidable outs.Given := by unfold Outs.Given; infer_instance

/-- The `std::errc` values that are returned. -/
def invalid_argument : SKLErr := 22
def io_error : SKLErr := 5
def not_enough_memory : SKLErr := 12

theorem invalid_argument_ne : invalid_argument ≠ EXIT_SUCCESS := by decide
theorem io_error_ne : io_error ≠ EXIT_SUCCESS := by decide
theorem not_enough_memory_ne : not_enough_memory ≠ EXIT_SUCCESS := by decide

/-- How a call ends. -/
structure ReadResult where
  rc : SKLErr
  fp : Option FILE
  outs : Outs
  mem : SrcMem

/-- `n` bytes to the buffer and, if they all came, the NUL behind them. -/
def fill (env : ReadEnv) (k : Src) (n : Nat) (fp : FILE) (m : SrcMem) :
    Option (Bool × FILE × SrcMem) := do
  let (bytes, fp) := fp.fread env.limit n
  let m ← m.store k 0 bytes
  if bytes.length ≠ n then
    return (false, fp, m)
  let m ← m.store k n [0]
  return (true, fp, m)

def readStatic (env : ReadEnv) (n : Nat) (fp : FILE) (outs : Outs) (m : SrcMem) :
    Option ReadResult := do
  let (whole, fp, m) ← fill env .static n fp m
  if !whole then
    return ⟨io_error, fp, outs, m⟩
  return ⟨EXIT_SUCCESS, fp, ⟨some (some .static), some n, some true⟩, m⟩

def readHeap (env : ReadEnv) (n : Nat) (fp : FILE) (outs : Outs) (m : SrcMem) :
    Option ReadResult :=
  match m.malloc env (n + 1) with
  | (none, m) => some ⟨not_enough_memory, fp, outs, m⟩
  | (some heap_buf, m) => do
    let (whole, fp, m) ← fill env (.heap heap_buf) n fp m
    if !whole then
      return ⟨io_error, fp, outs, m.free heap_buf⟩
    return ⟨EXIT_SUCCESS, fp, ⟨some (some (.heap heap_buf)), some n, some false⟩, m⟩

/-- There is no result when something is written outside a buffer. -/
def ReadFileToBuffer (env : ReadEnv) (fp : Option FILE) (outs : Outs) (m : SrcMem) :
    Option ReadResult :=
  match fp with
  | none => some ⟨invalid_argument, none, outs, m⟩
  | some fp =>
    if ¬ outs.Given then some ⟨invalid_argument, fp, outs, m⟩
    else
      let (ok, fp) := fp.fseek env.seekStart 0
      if !ok then some ⟨io_error, fp, outs, m⟩
      else
        let (n, fp) := fsize env fp
        if n = 0 then some ⟨(GL_FALSE : Nat), fp, outs, m⟩
        else
          let (ok, fp) := fp.fseek env.seekAgain 0
          if !ok then some ⟨io_error, fp, outs, m⟩
          else if n < SRC_BUFF_SIZE then readStatic env n fp outs m
          else readHeap env n fp outs m

/-! ## What a call should do -/

/-- The buffer begins with the file, and a NUL is behind it. -/
def SrcMem.Holds (m : SrcMem) (k : Src) (content : List UInt8) : Prop :=
  ∃ block, m.cells k = some block ∧ block.take content.length = content ∧
    block[content.length]? = some 0

/-- Success comes with the file in a buffer and the outputs set for it, a failure leaves the
outputs and the heap as they were. -/
structure Delivers (content : List UInt8) (outs : Outs) (m : SrcMem) (r : ReadResult) : Prop where
  success : r.rc = EXIT_SUCCESS → ∃ k, r.mem.Holds k content ∧
    r.outs = ⟨some (some k), some content.length, some (decide (k = .static))⟩
  failure : r.rc ≠ EXIT_SUCCESS → r.outs = outs ∧ ∀ p, r.mem.cells (.heap p) = m.cells (.heap p)

/-- Wherever the stream stands and whatever the outputs and the memory hold. -/
def Faithful (content : List UInt8) (env : ReadEnv) : Prop :=
  ∀ pos outs m, ∃ r, ReadFileToBuffer env (some ⟨content, pos⟩) outs m = some r ∧
    Delivers content outs m r

/-- `fsize` gets the length of the file. -/
structure Sized (content : List UInt8) (env : ReadEnv) : Prop where
  tell : env.tell
  seekEnd : env.seekEnd
  tellEnd : env.tellEnd
  le : content.length ≤ LONG_MAX

/-! ## The parts -/

variable {env : ReadEnv} {content : List UInt8} {outs : Outs} {m m' : SrcMem}
  {k : Src} {block : List UInt8}

theorem fsize_sized (h : Sized content env) :
    (fsize env ⟨content, 0⟩).1 = content.length := by
  unfold fsize FILE.ftell FILE.fseek
  rw [if_pos ⟨h.tell, Nat.zero_le _⟩]
  simp [h.seekEnd, h.tellEnd, h.le]

theorem fsize_not_sized (h : ¬ Sized content env) : (fsize env ⟨content, 0⟩).1 = 0 := by
  unfold fsize FILE.ftell FILE.fseek
  by_cases ht : env.tell
  · rw [if_pos ⟨ht, Nat.zero_le _⟩]
    by_cases hs : env.seekEnd
    · have hend : ¬ (env.tellEnd ∧ content.length ≤ LONG_MAX) := fun hend =>
        h ⟨ht, hs, hend.1, hend.2⟩
      simp [hs, hend]
    · simp [hs]
  · simp [ht]

@[simp] theorem fsize_content (fp : FILE) : (fsize env fp).2.content = fp.content := by
  unfold fsize FILE.fseek
  dsimp only
  split
  · rfl
  · split_ifs <;> rfl

namespace SrcMem

theorem store_eq_some (off : Nat) (bytes : List UInt8) (hb : m.cells k = some block)
    (h : off + bytes.length ≤ block.length) :
    ∃ m', m.store k off bytes = some m' ∧
      m'.cells = Function.update m.cells k (some (Arena.overwrite block off bytes)) := by
  have hw := Arena.write_eq_some hb h
  unfold store
  split
  · next hnone => cases hw.symm.trans hnone
  · next cells hsome => exact ⟨_, rfl, Option.some.inj (hsome.symm.trans hw)⟩

end SrcMem

theorem fread_start (content : List UInt8) (limit : Nat) :
    (FILE.fread limit content.length ⟨content, 0⟩).1 = content.take limit := by
  unfold FILE.fread
  rw [List.drop_zero, List.take_length]

/-- A block that a file and then a NUL were written to. -/
theorem take_terminated (hfit : content.length < block.length) :
    (Arena.overwrite (Arena.overwrite block 0 content) content.length [0]).take content.length =
      content := by
  have hsize : (Arena.overwrite block 0 content).length = block.length :=
    Arena.length_overwrite (by omega)
  have htake : (Arena.overwrite block 0 content).take (0 + content.length) =
      block.take 0 ++ content := Arena.overwrite_take (Nat.zero_le _)
  rw [Arena.overwrite_take_of_le le_rfl (by omega)]
  rwa [Nat.zero_add, List.take_zero, List.nil_append] at htake

theorem nul_terminated (hfit : content.length < block.length) :
    (Arena.overwrite (Arena.overwrite block 0 content) content.length [0])[content.length]? =
      some 0 := by
  have hsize : (Arena.overwrite block 0 content).length = block.length :=
    Arena.length_overwrite (by omega)
  exact Arena.overwrite_getElem? (i := 0) Nat.one_pos (by omega)

/-- `fill` of a file into a buffer with room for the NUL: nothing else is written to, and if the
whole file came the buffer holds it. -/
theorem fill_spec (env : ReadEnv) (content : List UInt8) (hb : m.cells k = some block)
    (hfit : content.length < block.length) :
    ∃ fp m', fill env k content.length ⟨content, 0⟩ m =
        some (decide (content.length ≤ env.limit), fp, m') ∧
      (∀ j, j ≠ k → m'.cells j = m.cells j) ∧
      (content.length ≤ env.limit → m'.Holds k content) := by
  have hread : FILE.fread env.limit content.length ⟨content, 0⟩ =
      (content.take env.limit, (FILE.fread env.limit content.length ⟨content, 0⟩).2) :=
    Prod.ext (fread_start content env.limit) rfl
  have hlen : (content.take env.limit).length ≤ content.length := List.length_take_le' ..
  obtain ⟨m₁, h₁, hm₁⟩ := SrcMem.store_eq_some 0 (content.take env.limit) hb (by omega)
  unfold fill
  rw [hread]
  simp only [h₁, Option.bind_eq_bind, Option.bind_some]
  by_cases hlim : content.length ≤ env.limit
  · have hall : content.take env.limit = content := List.take_of_length_le hlim
    rw [hall] at hm₁
    have hb₁ : m₁.cells k = some (Arena.overwrite block 0 content) := by
      rw [hm₁, Function.update_self]
    obtain ⟨m₂, h₂, hm₂⟩ := SrcMem.store_eq_some content.length [0] hb₁ (by
      rw [Arena.length_overwrite (by omega)]
      exact hfit)
    refine ⟨_, m₂, by rw [if_neg (by simp [hall]), h₂, decide_eq_true hlim]; rfl, fun j hj => ?_,
      fun _ => ⟨_, by rw [hm₂, Function.update_self], take_terminated hfit, nul_terminated hfit⟩⟩
    rw [hm₂, Function.update_of_ne hj, hm₁, Function.update_of_ne hj]
  · have hshort : (content.take env.limit).length ≠ content.length := by
      rw [List.length_take]
      omega
    refine ⟨_, m₁, by rw [if_pos hshort, decide_eq_false hlim]; rfl, fun j hj => ?_,
      fun h => absurd h hlim⟩
    rw [hm₁, Function.update_of_ne hj]

/-- An error that leaves the outputs and the heap alone is a failure as it should be. -/
theorem delivers_error {rc : SKLErr} {fp : Option FILE} {m' : SrcMem} (hrc : rc ≠ EXIT_SUCCESS)
    (hm : ∀ p, m'.cells (.heap p) = m.cells (.heap p)) :
    Delivers content outs m ⟨rc, fp, outs, m'⟩ :=
  ⟨fun h => absurd h hrc, fun _ => ⟨rfl, hm⟩⟩

theorem delivers_success {fp : Option FILE} (hk : m'.Holds k content) {isStatic : Bool}
    (hs : isStatic = decide (k = .static)) :
    Delivers content outs m
      ⟨EXIT_SUCCESS, fp, ⟨some (some k), some content.length, some isStatic⟩, m'⟩ :=
  ⟨fun _ => ⟨k, hk, by rw [hs]⟩, fun h => absurd rfl h⟩

/-- What `BuildShader` makes of a call. -/
def ReadResult.read (r : ReadResult) : Read :=
  if r.rc ≠ EXIT_SUCCESS then .error r.rc
  else
    match r.outs.out_src with
    | some (some .static) => .static
    | some (some (.heap p)) => .heap p
    | _ => .empty

theorem ReadResult.read_rc (r : ReadResult) : r.read.rc = r.rc := by
  unfold ReadResult.read
  by_cases h : r.rc = EXIT_SUCCESS
  · rw [if_neg (not_not.mpr h), h]
    split <;> rfl
  · rw [if_pos h]
    rfl

theorem ReadResult.read_of_error {r : ReadResult} (h : r.rc ≠ EXIT_SUCCESS) :
    r.read = .error r.rc := if_pos h

/-- The heap buffer a call leaves is the one the caller frees. -/
def Allots (m : SrcMem) (r : ReadResult) : Prop :=
  ∀ p, r.read.src = some p ↔ m.cells (.heap p) = none ∧ r.mem.cells (.heap p) ≠ none

theorem allots_of_same {r : ReadResult} (hsrc : r.read.src = none)
    (hm : ∀ p, r.mem.cells (.heap p) = m.cells (.heap p)) : Allots m r := by
  intro p
  rw [hsrc, hm]
  exact iff_of_false (fun h => by cases h) fun h => h.2 h.1

theorem allots_error {rc : SKLErr} {fp : Option FILE} (hrc : rc ≠ EXIT_SUCCESS)
    (hm : ∀ p, m'.cells (.heap p) = m.cells (.heap p)) : Allots m ⟨rc, fp, outs, m'⟩ :=
  allots_of_same (by rw [ReadResult.read_of_error hrc]; rfl) hm

theorem readStatic_spec (env : ReadEnv) (outs : Outs) (m : SrcMem)
    (hfit : content.length < SRC_BUFF_SIZE) :
    ∃ r, readStatic env content.length ⟨content, 0⟩ outs m = some r ∧ Delivers content outs m r ∧
      Allots m r ∧ (r.rc = EXIT_SUCCESS ↔ content.length ≤ env.limit) := by
  obtain ⟨block, hb, hlen⟩ := m.srcbuff
  obtain ⟨fp, m', hfill, hframe, hholds⟩ := fill_spec env content hb (hlen ▸ hfit)
  have hheap : ∀ p, m'.cells (.heap p) = m.cells (.heap p) := fun p => hframe _ (by simp)
  unfold readStatic
  rw [hfill]
  by_cases hlim : content.length ≤ env.limit
  · rw [decide_eq_true hlim]
    exact ⟨_, rfl, delivers_success (hholds hlim) rfl, allots_of_same rfl hheap,
      iff_of_true rfl hlim⟩
  · rw [decide_eq_false hlim]
    exact ⟨_, rfl, delivers_error io_error_ne hheap, allots_error io_error_ne hheap,
      iff_of_false io_error_ne hlim⟩

/-- `malloc` gives a block that is not in use. -/
def Allocates (env : ReadEnv) (m : SrcMem) : Prop :=
  ∃ p, env.malloc = some p ∧ m.cells (.heap p) = none

theorem malloc_of_allocates (n : Nat) (h : Allocates env m) :
    ∃ p, m.cells (.heap p) = none ∧
      m.malloc env n = (some p, m.setHeap p (some ((List.range n).map env.junk))) := by
  obtain ⟨p, hp, hfree⟩ := h
  refine ⟨p, hfree, ?_⟩
  unfold SrcMem.malloc
  simp [hp, hfree]

theorem malloc_of_not_allocates (n : Nat) (h : ¬ Allocates env m) : m.malloc env n = (none, m) := by
  unfold SrcMem.malloc
  cases hp : env.malloc with
  | none => rfl
  | some p =>
    have hused : (m.cells (.heap p)).isSome := Option.isSome_iff_ne_none.mpr fun hfree =>
      h ⟨p, hp, hfree⟩
    exact if_pos hused

theorem readHeap_spec (env : ReadEnv) (content : List UInt8) (outs : Outs) (m : SrcMem) :
    ∃ r, readHeap env content.length ⟨content, 0⟩ outs m = some r ∧ Delivers content outs m r ∧
      Allots m r ∧ (r.rc = EXIT_SUCCESS ↔ Allocates env m ∧ content.length ≤ env.limit) := by
  unfold readHeap
  by_cases ha : Allocates env m
  · obtain ⟨p, hfree, hm⟩ := malloc_of_allocates (content.length + 1) ha
    obtain ⟨fp, m', hfill, hframe, hholds⟩ := fill_spec env content
      (m := m.setHeap p (some ((List.range (content.length + 1)).map env.junk)))
      (k := .heap p) (Function.update_self ..) (by simp)
    have hother : ∀ q, q ≠ p → m'.cells (.heap q) = m.cells (.heap q) := fun q hq => by
      have hne : Src.heap q ≠ .heap p := fun h => hq (Src.heap.inj h)
      exact (hframe _ hne).trans (Function.update_of_ne hne ..)
    rw [hm]
    dsimp only
    rw [hfill]
    by_cases hlim : content.length ≤ env.limit
    · rw [decide_eq_true hlim]
      refine ⟨_, rfl, delivers_success (hholds hlim) rfl, fun q => ?_, iff_of_true rfl ⟨ha, hlim⟩⟩
      show some p = some q ↔ m.cells (.heap q) = none ∧ m'.cells (.heap q) ≠ none
      by_cases hq : q = p
      · subst hq
        obtain ⟨b, hb, -⟩ := hholds hlim
        exact iff_of_true rfl ⟨hfree, by rw [hb]; exact Option.some_ne_none b⟩
      · rw [hother q hq]
        exact iff_of_false (fun h => hq (Option.some.inj h).symm) fun h => h.2 h.1
    · rw [decide_eq_false hlim]
      -- the block is given back, and there was none before
      have hback : ∀ q, (m'.free p).cells (.heap q) = m.cells (.heap q) := fun q => by
        by_cases hq : q = p
        · subst hq
          exact (Function.update_self ..).trans hfree.symm
        · have hne : Src.heap q ≠ .heap p := fun h => hq (Src.heap.inj h)
          exact (Function.update_of_ne hne ..).trans (hother q hq)
      exact ⟨_, rfl, delivers_error io_error_ne hback, allots_error io_error_ne hback,
        iff_of_false io_error_ne fun h => hlim h.2⟩
  · rw [malloc_of_not_allocates _ ha]
    exact ⟨_, rfl, delivers_error not_enough_memory_ne fun _ => rfl,
      allots_error not_enough_memory_ne fun _ => rfl,
      iff_of_false not_enough_memory_ne fun h => ha h.1⟩

/-! ## A whole call -/

variable {pos : Nat}

/-- The call does not get as far as the size. -/
theorem read_stops (content : List UInt8) (pos : Nat) (m : SrcMem)
    (h : ¬ (outs.Given ∧ env.seekStart)) :
    ∃ rc fp, rc ≠ EXIT_SUCCESS ∧
      ReadFileToBuffer env (some ⟨content, pos⟩) outs m = some ⟨rc, fp, outs, m⟩ := by
  unfold ReadFileToBuffer
  dsimp only
  by_cases hg : outs.Given
  · have hs : env.seekStart = false := Bool.eq_false_iff.mpr fun hs => h ⟨hg, hs⟩
    rw [if_neg (not_not.mpr hg)]
    unfold FILE.fseek
    rw [hs]
    exact ⟨io_error, _, io_error_ne, rfl⟩
  · rw [if_pos hg]
    exact ⟨invalid_argument, _, invalid_argument_ne, rfl⟩

/-- The start of the file is found, and its size. -/
theorem read_started (hg : outs.Given) (hs : env.seekStart) :
    ReadFileToBuffer env (some ⟨content, pos⟩) outs m =
      let (n, fp) := fsize env ⟨content, 0⟩
      if n = 0 then some ⟨(GL_FALSE : Nat), fp, outs, m⟩
      else
        let (ok, fp) := fp.fseek env.seekAgain 0
        if !ok then some ⟨io_error, fp, outs, m⟩
        else if n < SRC_BUFF_SIZE then readStatic env n fp outs m
        else readHeap env n fp outs m := by
  have hseek : FILE.fseek env.seekStart 0 ⟨content, pos⟩ = (true, ⟨content, 0⟩) := by
    unfold FILE.fseek
    rw [if_pos hs]
  unfold ReadFileToBuffer
  dsimp only
  rw [if_neg (not_not.mpr hg), hseek]
  rfl

theorem fsize_eq_zero (h : ¬ (Sized content env ∧ content ≠ [])) :
    (fsize env ⟨content, 0⟩).1 = 0 := by
  by_cases hsize : Sized content env
  · obtain rfl : content = [] := not_not.mp fun hne => h ⟨hsize, hne⟩
    exact fsize_sized hsize
  · exact fsize_not_sized hsize

theorem read_zero (pos : Nat) (m : SrcMem) (hg : outs.Given) (hs : env.seekStart)
    (h : ¬ (Sized content env ∧ content ≠ [])) :
    ∃ fp, ReadFileToBuffer env (some ⟨content, pos⟩) outs m =
      some ⟨(GL_FALSE : Nat), some fp, outs, m⟩ :=
  ⟨_, (read_started hg hs).trans (if_pos (fsize_eq_zero h))⟩

theorem read_sized (pos : Nat) (m : SrcMem) (hg : outs.Given) (hs : env.seekStart)
    (h : Sized content env) (hne : content ≠ []) :
    ∃ r, ReadFileToBuffer env (some ⟨content, pos⟩) outs m = some r ∧
      Delivers content outs m r ∧ Allots m r ∧
      (r.rc = EXIT_SUCCESS ↔ env.seekAgain ∧ content.length ≤ env.limit ∧
        (SRC_BUFF_SIZE ≤ content.length → Allocates env m)) := by
  have hsize : fsize env ⟨content, 0⟩ = (content.length, (fsize env ⟨content, 0⟩).2) :=
    Prod.ext (fsize_sized h) rfl
  have h0 : content.length ≠ 0 := fun h0 => hne (List.eq_nil_of_length_eq_zero h0)
  rw [read_started hg hs, hsize]
  dsimp only
  rw [if_neg h0]
  unfold FILE.fseek
  cases ha : env.seekAgain with
  | false =>
    exact ⟨_, rfl, delivers_error io_error_ne fun _ => rfl, allots_error io_error_ne fun _ => rfl,
      iff_of_false io_error_ne fun h => Bool.false_ne_true h.1⟩
  | true =>
    have hback : { (fsize env ⟨content, 0⟩).2 with pos := 0 } = (⟨content, 0⟩ : FILE) :=
      congrArg (fun c => FILE.mk c 0) (fsize_content _)
    rw [if_pos rfl, hback]
    by_cases hfit : content.length < SRC_BUFF_SIZE
    · obtain ⟨r, hr, hd, hallot, hrc⟩ := readStatic_spec env outs m hfit
      refine ⟨r, (if_pos hfit).trans hr, hd, hallot, hrc.trans ⟨fun hl => ⟨rfl, hl, fun hbig => ?_⟩,
        fun h => h.2.1⟩⟩
      exact absurd hfit (Nat.not_lt.mpr hbig)
    · obtain ⟨r, hr, hd, hallot, hrc⟩ := readHeap_spec env content outs m
      exact ⟨r, (if_neg hfit).trans hr, hd, hallot, hrc.trans ⟨fun h => ⟨rfl, h.2, fun _ => h.1⟩,
        fun h => ⟨h.2.2 (Nat.not_lt.mp hfit), h.2.1⟩⟩⟩

/-- **When a file is read faithfully.** -/
theorem faithful_iff (content : List UInt8) (env : ReadEnv) :
    Faithful content env ↔ (env.seekStart → content ≠ [] ∧ Sized content env) := by
  refine ⟨fun h hs => ?_, fun h pos outs m => ?_⟩
  · by_contra hne
    obtain ⟨r, hr, hd⟩ := h 0 .init .init
    obtain ⟨fp, hzero⟩ := read_zero 0 .init Outs.given_init hs (mt And.symm hne)
    obtain rfl := Option.some.inj (hr.symm.trans hzero)
    obtain ⟨k, -, hout⟩ := hd.success rfl
    cases congrArg Outs.out_src hout
  · by_cases hgo : outs.Given ∧ env.seekStart
    · obtain ⟨hne, hsize⟩ := h hgo.2
      obtain ⟨r, hr, hd, -⟩ := read_sized pos m hgo.1 hgo.2 hsize hne
      exact ⟨r, hr, hd⟩
    · obtain ⟨rc, fp, hrc, hr⟩ := read_stops content pos m hgo
      exact ⟨_, hr, delivers_error hrc fun _ => rfl⟩

/-- An empty file is read with success, and the outputs are not set. -/
theorem read_empty : ¬ Faithful [] { limit := 0 } := by
  intro h
  obtain ⟨r, hr, hd⟩ := h 0 .init .init
  obtain rfl := Option.some.inj hr
  obtain ⟨k, -, hout⟩ := hd.success rfl
  cases congrArg Outs.out_src hout

/-! ## What `BuildShader` sees of it -/

theorem isSome_ReadFileToBuffer (env : ReadEnv) (fp : Option FILE) (outs : Outs) (m : SrcMem) :
    (ReadFileToBuffer env fp outs m).isSome := by
  cases fp with
  | none => rfl
  | some fp =>
    by_cases hgo : outs.Given ∧ env.seekStart
    · by_cases hsize : Sized fp.content env ∧ fp.content ≠ []
      · obtain ⟨r, hr, -⟩ := read_sized fp.pos m hgo.1 hgo.2 hsize.1 hsize.2
        exact Option.isSome_of_mem hr
      · obtain ⟨_, hr⟩ := read_zero fp.pos m hgo.1 hgo.2 hsize
        exact Option.isSome_of_mem hr
    · obtain ⟨_, _, -, hr⟩ := read_stops fp.content fp.pos m hgo
      exact Option.isSome_of_mem hr

/-- The read of a stream just opened. -/
def sourceRead (content : List UInt8) (env : ReadEnv) (m : SrcMem) : Read :=
  ((ReadFileToBuffer env (some ⟨content, 0⟩) .init m).get
    (isSome_ReadFileToBuffer env _ .init m)).read

/-- A source is loaded: its size is 0 to `fsize` and nothing is read, or all of it is. -/
structure Loads (content : List UInt8) (env : ReadEnv) (m : SrcMem) : Prop where
  seekStart : env.seekStart
  whole : Sized content env → content ≠ [] →
    env.seekAgain ∧ content.length ≤ env.limit ∧
      (SRC_BUFF_SIZE ≤ content.length → Allocates env m)

theorem sourceRead_eq {r : ReadResult}
    (h : ReadFileToBuffer env (some ⟨content, 0⟩) .init m = some r) :
    sourceRead content env m = r.read := by
  unfold sourceRead
  congr 1
  exact Option.get_of_eq_some _ h

theorem sourceRead_rc (content : List UInt8) (env : ReadEnv) (m : SrcMem) :
    (sourceRead content env m).rc = EXIT_SUCCESS ↔ Loads content env m := by
  by_cases hs : env.seekStart
  · by_cases hsize : Sized content env ∧ content ≠ []
    · obtain ⟨r, hr, -, -, hrc⟩ := read_sized 0 m Outs.given_init hs hsize.1 hsize.2
      rw [sourceRead_eq hr, ReadResult.read_rc, hrc]
      exact ⟨fun h => ⟨hs, fun _ _ => h⟩, fun h => h.whole hsize.1 hsize.2⟩
    · obtain ⟨fp, hr⟩ := read_zero 0 m Outs.given_init hs hsize
      rw [sourceRead_eq hr]
      exact iff_of_true rfl ⟨hs, fun h hne => absurd ⟨h, hne⟩ hsize⟩
  · obtain ⟨rc, fp, hrc, hr⟩ := read_stops content 0 m fun h => hs h.2
    rw [sourceRead_eq hr, ReadResult.read_rc]
    exact iff_of_false hrc fun h => hs h.seekStart

/-- **The buffer in the ledger of `build` is the one on the heap.** -/
theorem sourceRead_src {r : ReadResult}
    (h : ReadFileToBuffer env (some ⟨content, 0⟩) .init m = some r) (p : Nat) :
    (sourceRead content env m).src = some p ↔
      m.cells (.heap p) = none ∧ r.mem.cells (.heap p) ≠ none := by
  rw [sourceRead_eq h]
  suffices hallot : Allots m r from hallot p
  by_cases hs : env.seekStart
  · by_cases hsize : Sized content env ∧ content ≠ []
    · obtain ⟨r', hr, -, hallot, -⟩ := read_sized 0 m Outs.given_init hs hsize.1 hsize.2
      obtain rfl := Option.some.inj (h.symm.trans hr)
      exact hallot
    · obtain ⟨fp, hr⟩ := read_zero 0 m Outs.given_init hs hsize
      obtain rfl := Option.some.inj (h.symm.trans hr)
      exact allots_of_same rfl fun _ => rfl
  · obtain ⟨rc, fp, hrc, hr⟩ := read_stops content 0 m fun h => hs h.2
    obtain rfl := Option.some.inj (h.symm.trans hr)
    exact allots_error hrc fun _ => rfl

end LearnNotes.Graphics
