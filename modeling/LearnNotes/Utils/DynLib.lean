import LearnNotes.Lib.Machine
import LearnNotes.Lib.Objects
import LearnNotes.Utils.Lang
import Mathlib

/-!
# `utils::DynLib`

A `DynLib` holds a handle of the operating system, whose `dlopen` hands the same handle out
again for a library that is open and counts how often; `dlclose` counts down. `process`
serves any sequence of constructions, `open`s, `close`s, moves and destructions over any
number of objects, `dlopen` answering as it likes. Results:

* `balanced_next`: each operation keeps the count of every handle equal to the number of
  objects that hold it;
* `dynLib_balance`: so it is along every run, no `dlclose` is ever one too many, and `open`
  leaves an error exactly where it leaves the object closed.
-/

namespace LearnNotes.Utils

open Lib

/-- The `utils::errc` values `DynLib::open` reports. -/
inductive errc where
  | invalid_argument
  | dl_open_failed
  deriving DecidableEq, Repr

def errc.code : errc → UInt16
  | .invalid_argument => 0x0016
  | .dl_open_failed => 0x0301

/-! ## The operating system -/

/-- The reference counts of the loaded libraries. -/
structure Loader (H : Type) where
  count : H → Nat
  /-- Handles `dlclose` was called on with count 0. -/
  overClosed : List H

namespace Loader

variable {H : Type} [DecidableEq H]

/-- `dlopen` where the system finds `h`. -/
def dlopen (h : Option H) (os : Loader H) : Loader H :=
  match h with
  | none => os
  | some h => { os with count := Function.update os.count h (os.count h + 1) }

def dlclose (h : H) (os : Loader H) : Loader H :=
  if os.count h = 0 then { os with overClosed := h :: os.overClosed }
  else { os with count := Function.update os.count h (os.count h - 1) }

end Loader

/-! ## `DynLib` -/

/-- `none` is the null handle. -/
structure DynLib (H : Type) where
  _handle : Option H := none
  deriving DecidableEq

namespace DynLib

variable {H : Type} [DecidableEq H]

/-- The C string of a path: it ends at the first NUL. -/
def c_str (path : List Char) : List Char := path.takeWhile (· ≠ '\x00')

/-- The static `open`, where the place for the handle is not null: the code it returns and
the handle it stores. -/
def open_static (path : Option (List Char)) (sys : List Char → Option H) (os : Loader H) :
    SKLErr × Option H × Loader H :=
  match path with
  | none => (errc.invalid_argument.code.toNat, none, os)
  | some path =>
    match sys path with
    | none => (errc.dl_open_failed.code.toNat, none, os.dlopen none)
    | some h => (EXIT_SUCCESS, some h, os.dlopen (some h))

/-- The static `close`. -/
def close_static (handle : Option H) (os : Loader H) : Loader H :=
  match handle with
  | none => os
  | some h => os.dlclose h

def close (t : DynLib H) (os : Loader H) : DynLib H × Loader H :=
  match t._handle with
  | none => (t, os)
  | some h => ({ _handle := none }, close_static (some h) os)

def open_path (path : List Char) (sys : List Char → Option H) (t : DynLib H) (os : Loader H) :
    error_code × DynLib H × Loader H :=
  let (t, os) := t.close os
  let ec : error_code := {}
  if path.isEmpty then (make_error_code errc.invalid_argument.code, t, os)
  else
    let (rc, h, os) := open_static (some (c_str path)) sys os
    if rc ≠ EXIT_SUCCESS then (make_error_code (toErrc rc), t, os)
    else (ec, { _handle := h }, os)

def is_open (t : DynLib H) : Bool := t._handle.isSome

/-- The move constructor: the new object and what is left of `other`. -/
def movedFrom (other : DynLib H) : DynLib H × DynLib H :=
  ({ _handle := other._handle }, { _handle := none })

/-- `operator=` from another object. -/
def assignFrom (t other : DynLib H) (os : Loader H) : DynLib H × DynLib H × Loader H :=
  let (_, os) := t.close os
  ({ _handle := other._handle }, { _handle := none }, os)

/-- The handle the object holds. -/
def holds (h : H) (t : DynLib H) : Bool := t._handle = some h

end DynLib

/-! ## A process -/

structure Process (H : Type) where
  libs : Objects (DynLib H)
  os : Loader H

/-- Operations on the objects; `sys` is what the system finds for each path at the call. -/
inductive Op (H : Type) where
  | construct
  | constructOpen (path : List Char) (sys : List Char → Option H)
  | openAt (i : Nat) (path : List Char) (sys : List Char → Option H)
  | closeAt (i : Nat)
  | moveConstruct (src : Nat)
  | moveAssign (dst src : Nat)
  | destroy (i : Nat)

namespace Process

variable {H : Type} [DecidableEq H]

def construct (p : Process H) : Process H := { p with libs := p.libs.push {} }

def constructOpen (path : List Char) (sys : List Char → Option H) (p : Process H) :
    error_code × Process H :=
  let (ec, t, os) := DynLib.open_path path sys {} p.os
  (ec, ⟨p.libs.push t, os⟩)

def openAt (i : Nat) (path : List Char) (sys : List Char → Option H) (p : Process H) :
    Option error_code × Process H :=
  match p.libs.live i with
  | none => (none, p)
  | some t =>
    let (ec, t, os) := t.open_path path sys p.os
    (some ec, ⟨p.libs.put i (some t), os⟩)

def closeAt (i : Nat) (p : Process H) : Process H :=
  match p.libs.live i with
  | none => p
  | some t =>
    let (t, os) := t.close p.os
    ⟨p.libs.put i (some t), os⟩

def moveConstruct (src : Nat) (p : Process H) : Process H :=
  match p.libs.live src with
  | none => p
  | some other =>
    let (t, other) := other.movedFrom
    { p with libs := (p.libs.put src (some other)).push t }

def moveAssign (dst src : Nat) (p : Process H) : Process H :=
  match p.libs.live dst, p.libs.live src with
  | some t, some other =>
    if dst = src then p
    else
      let (t, other, os) := t.assignFrom other p.os
      ⟨(p.libs.put dst (some t)).put src (some other), os⟩
  | _, _ => p

def destroy (i : Nat) (p : Process H) : Process H :=
  match p.libs.live i with
  | none => p
  | some t => ⟨p.libs.put i none, (t.close p.os).2⟩

end Process

/-- All the `DynLib` objects of a process; the answer is the code `open` leaves. -/
def process (H : Type) [DecidableEq H] : Machine (Process H) (Op H) (Option error_code) where
  init := ⟨⟨[]⟩, ⟨fun _ => 0, []⟩⟩
  step p
    | .construct => (none, p.construct)
    | .constructOpen path sys => ((p.constructOpen path sys).map some id)
    | .openAt i path sys => p.openAt i path sys
    | .closeAt i => (none, p.closeAt i)
    | .moveConstruct src => (none, p.moveConstruct src)
    | .moveAssign dst src => (none, p.moveAssign dst src)
    | .destroy i => (none, p.destroy i)

/-! ## Counting -/

/-- The system has counted `n h` for every handle, and no `dlclose` was one too many. -/
structure Loader.Counts {H : Type} (os : Loader H) (n : H → Nat) : Prop where
  count : ∀ h, os.count h = n h
  overClosed : os.overClosed = []

theorem Loader.Counts.congr {H : Type} {os : Loader H} {n m : H → Nat} (hc : os.Counts n)
    (h : ∀ k, n k = m k) : os.Counts m :=
  ⟨fun k => (hc.count k).trans (h k), hc.overClosed⟩

namespace DynLib

variable {H : Type} [DecidableEq H] {t : DynLib H} {os : Loader H} {n : H → Nat}

/-- What an object adds to the count of `h`. -/
def units (t : DynLib H) (h : H) : Nat := if t.holds h then 1 else 0

theorem units_null (h : H) : units { _handle := none } h = 0 := by simp [units, holds]

theorem close_fst : (t.close os).1 = { _handle := none } := by
  obtain ⟨_ | h⟩ := t <;> rfl

/-- `close` gives back what the object added. -/
theorem counts_close (hc : os.Counts fun h => n h + t.units h) : (t.close os).2.Counts n := by
  obtain ⟨_ | h⟩ := t
  · refine ⟨fun h => ?_, hc.overClosed⟩
    show os.count h = n h
    rw [hc.count h, units_null]
    rfl
  · have hpos : os.count h = n h + 1 := by simpa [units, holds] using hc.count h
    show (os.dlclose h).Counts n
    unfold Loader.dlclose
    rw [if_neg (by omega)]
    refine ⟨fun k => ?_, hc.overClosed⟩
    by_cases hk : k = h
    · subst hk
      show Function.update os.count k _ k = n k
      rw [Function.update_self]
      omega
    · show Function.update os.count h _ k = n k
      rw [Function.update_of_ne hk, hc.count k]
      simp [units, holds, Ne.symm hk]

theorem counts_dlopen (hc : os.Counts n) (h : H) :
    (os.dlopen (some h)).Counts fun k => n k + units { _handle := some h } k := by
  refine ⟨fun k => ?_, hc.overClosed⟩
  show Function.update os.count h _ k = _
  by_cases hk : k = h
  · subst hk
    rw [Function.update_self, hc.count k]
    simp [units, holds]
  · rw [Function.update_of_ne hk, hc.count k]
    simp [units, holds, Ne.symm hk]

/-- `open` closes the object, then fails with an error and stays there or takes a handle the
system counted. -/
theorem open_path_cases (path : List Char) (sys : List Char → Option H) (t : DynLib H)
    (os : Loader H) :
    (∃ ec, ec.isSet ∧ t.open_path path sys os = (ec, { _handle := none }, (t.close os).2)) ∨
      ∃ h, t.open_path path sys os =
        ({}, { _handle := some h }, (t.close os).2.dlopen (some h)) := by
  unfold open_path
  simp only [close_fst]
  split
  · exact .inl ⟨make_error_code errc.invalid_argument.code, by decide, rfl⟩
  · unfold open_static
    cases hs : sys (c_str path) with
    | none =>
      refine .inl ⟨make_error_code errc.dl_open_failed.code, by decide, ?_⟩
      simp only [hs]
      rfl
    | some h =>
      refine .inr ⟨h, ?_⟩
      simp only [hs]
      rfl

theorem counts_open (path : List Char) (sys : List Char → Option H)
    (hc : os.Counts fun h => n h + t.units h) :
    (t.open_path path sys os).2.2.Counts fun h =>
      n h + (t.open_path path sys os).2.1.units h := by
  have hclosed := counts_close hc
  rcases open_path_cases path sys t os with ⟨ec, -, he⟩ | ⟨h, he⟩
  · rw [he]
    exact ⟨fun k => by rw [hclosed.count k, units_null]; rfl, hclosed.overClosed⟩
  · rw [he]
    exact counts_dlopen hclosed h

/-- An error is left exactly where the object is. -/
theorem isSet_open (path : List Char) (sys : List Char → Option H) (t : DynLib H)
    (os : Loader H) :
    (t.open_path path sys os).1.isSet ↔ ¬ (t.open_path path sys os).2.1.is_open := by
  rcases open_path_cases path sys t os with ⟨ec, hec, he⟩ | ⟨h, he⟩
  · rw [he]
    exact iff_of_true hec Bool.false_ne_true
  · rw [he]
    have hclear : ¬ ({} : error_code).isSet := by decide
    exact iff_of_false hclear (not_not.mpr rfl)

end DynLib

/-! ## Whole runs -/

namespace Process

variable {H : Type} [DecidableEq H] {p : Process H}

/-- How many objects hold `h`. -/
def holders (libs : Objects (DynLib H)) (h : H) : Nat := libs.count (DynLib.holds h)

def Balanced (p : Process H) : Prop := p.os.Counts (holders p.libs)

variable {libs : Objects (DynLib H)} {i : Nat} {t : DynLib H}

theorem holders_push (t : DynLib H) (h : H) :
    holders (libs.push t) h = holders libs h + t.units h := by
  simp [holders, DynLib.units]

/-- Replacing an object replaces what it adds. -/
theorem holders_put (ht : libs.live i = some t) (t' : DynLib H) (h : H) :
    holders (libs.put i (some t')) h + t.units h = holders libs h + t'.units h :=
  Objects.count_put ht (some t')

theorem holders_kill (ht : libs.live i = some t) (h : H) :
    holders (libs.put i none) h + t.units h = holders libs h :=
  Objects.count_put ht none

theorem balanced_construct (hb : p.Balanced) : p.construct.Balanced :=
  hb.congr fun h => by
    show _ = holders (p.libs.push {}) h
    rw [holders_push, DynLib.units_null]
    rfl

theorem balanced_constructOpen (hb : p.Balanced) (path : List Char) (sys : List Char → Option H) :
    (p.constructOpen path sys).2.Balanced := by
  have hnull : p.os.Counts fun h => holders p.libs h + DynLib.units {} h :=
    hb.congr fun h => by
      rw [DynLib.units_null]
      rfl
  exact (DynLib.counts_open path sys hnull).congr fun h => (holders_push ..).symm

/-- `close` and `open` at a place: the object adds what it holds in the end. -/
theorem balanced_put {t' : DynLib H} {os : Loader H} (ht : p.libs.live i = some t)
    (hb : p.Balanced)
    (hop : ∀ n : H → Nat, (p.os.Counts fun h => n h + t.units h) →
      os.Counts fun h => n h + t'.units h) :
    Balanced ⟨p.libs.put i (some t'), os⟩ := by
  -- what the objects at the other places add
  have hrest : p.os.Counts fun h => holders (p.libs.put i none) h + t.units h :=
    hb.congr fun h => (holders_kill ht h).symm
  refine (hop _ hrest).congr fun h => ?_
  have h1 := holders_kill ht h
  have h2 := holders_put ht t' h
  show _ = holders (p.libs.put i (some t')) h
  omega

theorem balanced_openAt (hb : p.Balanced) (i : Nat) (path : List Char)
    (sys : List Char → Option H) : (p.openAt i path sys).2.Balanced := by
  unfold openAt
  cases ht : p.libs.live i with
  | none => exact hb
  | some t => exact balanced_put ht hb fun _ => DynLib.counts_open path sys

theorem balanced_closeAt (hb : p.Balanced) (i : Nat) : (p.closeAt i).Balanced := by
  unfold closeAt
  cases ht : p.libs.live i with
  | none => exact hb
  | some t =>
    refine balanced_put ht hb fun n hn => ?_
    show (t.close p.os).2.Counts fun h => n h + (t.close p.os).1.units h
    rw [DynLib.close_fst]
    exact (DynLib.counts_close hn).congr fun h => by rw [DynLib.units_null]; rfl

theorem balanced_moveConstruct (hb : p.Balanced) (src : Nat) :
    (p.moveConstruct src).Balanced := by
  unfold moveConstruct
  cases ht : p.libs.live src with
  | none => exact hb
  | some other =>
    refine hb.congr fun h => ?_
    have hput := holders_put ht { _handle := none } h
    rw [DynLib.units_null] at hput
    show _ = holders ((p.libs.put src (some { _handle := none })).push other) h
    rw [holders_push]
    omega

theorem balanced_moveAssign (hb : p.Balanced) (dst src : Nat) :
    (p.moveAssign dst src).Balanced := by
  unfold moveAssign
  cases hd : p.libs.live dst with
  | none => exact hb
  | some t =>
    cases hs : p.libs.live src with
    | none => exact hb
    | some other =>
      by_cases hne : dst = src
      · simp only [hne, if_true]
        exact hb
      · simp only [hne, if_false]
        have hs' : (p.libs.put dst (some other)).live src = some other := by
          rw [Objects.live_put hd, Function.update_of_ne (Ne.symm hne), hs]
        refine DynLib.counts_close (hb.congr fun h => ?_)
        -- `dst` gives up its handle for that of `src`, `src` for none
        have hput := holders_put hd other h
        have hmoved := holders_put hs' { _handle := none } h
        rw [DynLib.units_null] at hmoved
        show _ = holders ((p.libs.put dst (some other)).put src (some { _handle := none })) h + _
        omega

theorem balanced_destroy (hb : p.Balanced) (i : Nat) : (p.destroy i).Balanced := by
  unfold destroy
  cases ht : p.libs.live i with
  | none => exact hb
  | some t => exact DynLib.counts_close (hb.congr fun h => (holders_kill ht h).symm)

end Process

open Process

variable {H : Type} [DecidableEq H] {p : Process H}

/-- **One operation.** -/
theorem balanced_next (hb : p.Balanced) (op : Op H) : ((process H).next p op).Balanced := by
  cases op with
  | construct => exact balanced_construct hb
  | constructOpen path sys => exact balanced_constructOpen hb path sys
  | openAt i path sys => exact balanced_openAt hb i path sys
  | closeAt i => exact balanced_closeAt hb i
  | moveConstruct src => exact balanced_moveConstruct hb src
  | moveAssign dst src => exact balanced_moveAssign hb dst src
  | destroy i => exact balanced_destroy hb i

theorem balanced_init : (process H).init.Balanced := ⟨fun _ => rfl, rfl⟩

/-- The place of the object an operation opens. -/
def Op.opened (p : Process H) : Op H → Option Nat
  | .constructOpen .. => some p.libs.size
  | .openAt i .. => (p.libs.live i).map fun _ => i
  | _ => none

/-- An `open` leaves an error code that is set iff it leaves its object closed. -/
def ReportsClosed (p : Process H) (op : Op H) : Prop :=
  ∀ i, op.opened p = some i → ∃ ec t, (process H).out p op = some ec ∧
    ((process H).next p op).libs.live i = some t ∧ (ec.isSet ↔ ¬ t.is_open)

theorem reportsClosed (p : Process H) (op : Op H) : ReportsClosed p op := by
  intro i hi
  cases op with
  | constructOpen path sys =>
    obtain rfl : p.libs.size = i := Option.some.inj hi
    refine ⟨(DynLib.open_path path sys {} p.os).1, (DynLib.open_path path sys {} p.os).2.1, rfl,
      ?_, DynLib.isSet_open ..⟩
    show (p.libs.push (DynLib.open_path path sys {} p.os).2.1).live _ = _
    rw [Objects.live_push, Function.update_self]
  | openAt j path sys =>
    obtain ⟨t, ht, rfl⟩ := Option.map_eq_some_iff.mp hi
    have hop : p.openAt j path sys = (some (t.open_path path sys p.os).1,
        ⟨p.libs.put j (some (t.open_path path sys p.os).2.1),
          (t.open_path path sys p.os).2.2⟩) := by
      unfold openAt
      rw [ht]
    refine ⟨(t.open_path path sys p.os).1, (t.open_path path sys p.os).2.1, ?_, ?_,
      DynLib.isSet_open ..⟩
    · show (p.openAt j path sys).1 = _
      rw [hop]
    · show (p.openAt j path sys).2.libs.live j = _
      rw [hop, Objects.live_put ht, Function.update_self]
  | _ => cases hi

/-- **Main.** -/
theorem dynLib_balance (ops : List (Op H)) :
    ((process H).EveryState ops fun p =>
      (∀ h, p.os.count h = p.libs.count fun t => t._handle = some h) ∧
        p.os.overClosed = [] ∧
        ∀ i t, p.libs.live i = some t → (t.is_open ↔ ∃ h, t._handle = some h)) ∧
      (process H).EveryStep ops ReportsClosed := by
  have hb : (process H).EveryState ops Balanced :=
    Machine.everyState_of_step balanced_init fun _ op hb => balanced_next hb op
  refine ⟨fun pre hpre => ?_, fun s _ => reportsClosed s.1 s.2⟩
  obtain ⟨hcount, hover⟩ := hb pre hpre
  exact ⟨hcount, hover, fun i t _ => Option.isSome_iff_exists⟩

end LearnNotes.Utils
