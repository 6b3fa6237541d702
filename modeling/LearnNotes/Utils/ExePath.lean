import Mathlib.Data.UInt
import LearnNotes.Lib.CString

/-!
# The path of the executable

`exepath` of `learn_gl/src/fs.cpp`, the branch for Linux. It asks `/proc/self/exe`, cuts the name
off at the last separator and puts the file name in its place, in the caller's buffer. The room it
asks for is that of directory, separator, name and NUL whether or not a separator is written, and
of a directory at the root nothing is left to write one behind: `exepath_iff` says for which
sizes the result is right all the same.
-/

namespace LearnNotes.Utils

open Lib CString

def PATH_MAX : Nat := 4096

/-- `'/'`. -/
def separator : UInt8 := 47

/-- What `readlink("/proc/self/exe", ...)` and `getcwd` have to say, if anything. -/
structure System where
  link : Option (List UInt8)
  cwd : Option (List UInt8)

/-- `exe_path` as it is filled in; a `char [PATH_MAX]` the default name does not fit behind the
directory in is written past its end. -/
inductive Found where
  | path (exe_path : List UInt8)
  | null
  | overflow

/-- `"/a.out"`. -/
def defaultName : List UInt8 := [47, 97, 46, 111, 117, 116]

/-- The fallback: the working directory, which `getcwd` only gives where it fits. -/
def workingDirectory (sys : System) : Found :=
  match sys.cwd with
  | none => .null
  | some cwd =>
    if PATH_MAX < cwd.length + 1 then .null
    else if PATH_MAX < cwd.length + defaultName.length + 1 then .overflow
    else .path (cwd ++ defaultName)

/-- `readlink` gives at most `PATH_MAX - 1` bytes, without a NUL. -/
def findExecutable (sys : System) : Found :=
  match sys.link with
  | none => workingDirectory sys
  | some target =>
    let len := (target.take (PATH_MAX - 1)).length
    if len = 0 then workingDirectory sys else .path (target.take (PATH_MAX - 1))

/-- `exe_dir`. -/
def directory (exe_path : List UInt8) : List UInt8 :=
  match strrchr exe_path separator with
  | some last_slash =>
    let dir_len := if last_slash ≥ PATH_MAX then PATH_MAX - 1 else last_slash
    exe_path.take dir_len
  | none => [46]

/-- What a call does: whether it returns `buffer` or NULL, and what is in the buffer then. -/
structure Answer where
  returned : Bool
  buffer : List UInt8
  deriving DecidableEq

/-- The null file name: the path itself. -/
def copyPath (exe_path buffer : List UInt8) : Option Answer :=
  let buffer_size := buffer.length
  if exe_path.length ≥ buffer_size then some ⟨false, buffer⟩
  else do
    let buffer ← strncpy buffer exe_path (buffer_size - 1)
    let buffer ← put buffer (buffer_size - 1) [0]
    return ⟨true, buffer⟩

/-- `dir_len + 1 + file_len + 1`, a `size_t`. -/
def room (dir_len file_len : Nat) : Nat := (dir_len + 1 + file_len + 1) % 2 ^ 64

/-- The separator behind a directory that does not end in one. -/
def addSeparator (dir_len : Nat) (buffer : List UInt8) : Option (List UInt8) :=
  if dir_len > 0 ∧ buffer[dir_len - 1]? ≠ some separator then strcat buffer [separator]
  else some buffer

/-- Directory and file name. -/
def joinPath (exe_dir filename buffer : List UInt8) : Option Answer :=
  let dir_len := exe_dir.length
  let file_len := filename.length
  if room dir_len file_len > buffer.length then some ⟨false, buffer⟩
  else do
    let buffer ← strcpy buffer exe_dir
    if file_len = 0 then return ⟨true, buffer⟩
    let buffer ← addSeparator dir_len buffer
    let buffer ← strcat buffer filename
    return ⟨true, buffer⟩

/-- `buffer` has `buffer_size` bytes, none for a null pointer. A write outside of it has no
result. -/
def exepath (sys : System) (buffer : List UInt8) (filename : Option (List UInt8)) :
    Option Answer :=
  if buffer.length = 0 then some ⟨false, buffer⟩
  else
    match findExecutable sys with
    | .null => some ⟨false, buffer⟩
    | .overflow => none
    | .path exe_path =>
      match filename with
      | none => copyPath exe_path buffer
      | some filename => joinPath (directory exe_path) filename buffer

def exedir (sys : System) (buffer : List UInt8) : Option Answer := exepath sys buffer (some [])

/-! ## What is asked for -/

/-- The path of an executable, as directory and name: `dir` is empty at the root. -/
structure Executable where
  dir : List UInt8
  name : List UInt8
  absolute : dir = [] ∨ dir.head? = some separator
  name_slash : separator ∉ name
  no_nul : 0 ∉ dir ++ separator :: name
  short : (dir ++ separator :: name).length < PATH_MAX - 1

/-- A file name in the directory; no object is larger than `PTRDIFF_MAX`. -/
structure RelativeName where
  chars : List UInt8
  relative : chars.head? ≠ some separator
  no_nul : 0 ∉ chars
  fits : chars.length < 2 ^ 63

namespace Executable

variable (E : Executable)

def path : List UInt8 := E.dir ++ separator :: E.name

/-- The directory, `/` at the root. -/
def folder : List UInt8 := if E.dir = [] then [separator] else E.dir

/-- The directory, one separator and the name. -/
def beside (file : List UInt8) : List UInt8 :=
  if E.folder.getLast? = some separator then E.folder ++ file
  else E.folder ++ separator :: file

/-- The path a call is to give. -/
def wanted : Option RelativeName → List UInt8
  | none => E.path
  | some file => if file.chars = [] then E.folder else E.beside file.chars

/-- The system on which it runs. -/
def system (cwd : Option (List UInt8)) : System where
  link := some E.path
  cwd := cwd

end Executable

/-- Every absolute path is one. -/
theorem exists_executable {path : List UInt8} (habs : path.head? = some separator)
    (hnul : 0 ∉ path) (hshort : path.length < PATH_MAX - 1) :
    ∃ E : Executable, E.path = path := by
  have hmem : separator ∈ path.reverse := List.mem_reverse.mpr (List.mem_of_head? habs)
  obtain ⟨name, dir, hrev, hname⟩ := List.eq_append_cons_of_mem hmem
  have hpath : path = dir.reverse ++ separator :: name.reverse := by
    rw [← List.reverse_reverse path, hrev]
    simp
  have hdir : dir.reverse = [] ∨ dir.reverse.head? = some separator := by
    cases hd : dir.reverse with
    | nil => exact .inl rfl
    | cons c dir' =>
      rw [hpath, hd] at habs
      exact .inr habs
  rw [hpath] at hnul hshort
  exact ⟨⟨dir.reverse, name.reverse, hdir, mt List.mem_reverse.mp hname, hnul, hshort⟩, hpath.symm⟩

/-- The path is in the buffer, terminated, where it fits, and NULL is returned and the buffer left
alone where it does not. -/
def Right (wanted buffer : List UInt8) (answer : Option Answer) : Prop :=
  if wanted.length + 1 ≤ buffer.length then
    ∃ after, answer = some ⟨true, after⟩ ∧ after.length = buffer.length ∧ Holds after wanted
  else answer = some ⟨false, buffer⟩

variable {E : Executable} {wanted buffer after s : List UInt8}

theorem right_of_refused :
    Right wanted buffer (some ⟨false, buffer⟩) ↔ buffer.length ≤ wanted.length := by
  unfold Right
  split
  · next hfit =>
    refine iff_of_false ?_ (by omega)
    rintro ⟨after, hanswer, -⟩
    cases hanswer
  · next hfit => exact iff_of_true rfl (by omega)

theorem right_of_held (hlen : after.length = buffer.length) (hs : Holds after s) :
    Right wanted buffer (some ⟨true, after⟩) ↔ wanted.length + 1 ≤ buffer.length ∧ s = wanted := by
  unfold Right
  split
  · next hfit =>
    constructor
    · rintro ⟨after', hanswer, -, hwanted⟩
      cases hanswer
      exact ⟨hfit, hs.unique hwanted⟩
    · rintro ⟨-, rfl⟩
      exact ⟨after, rfl, hlen, hs⟩
  · next hfit =>
    refine iff_of_false ?_ fun h => hfit h.1
    intro hanswer
    cases hanswer

/-! ## The path itself -/

theorem findExecutable_system (E : Executable) (cwd : Option (List UInt8)) :
    findExecutable (E.system cwd) = .path E.path := by
  have htake : E.path.take (PATH_MAX - 1) = E.path :=
    List.take_of_length_le (Nat.le_of_lt E.short)
  have hlen : E.path.length ≠ 0 := by
    rw [Executable.path, List.length_append, List.length_cons]
    omega
  simp only [findExecutable, Executable.system, htake, if_neg hlen]

theorem directory_path (E : Executable) : directory E.path = E.dir := by
  have hshort : E.dir.length < PATH_MAX := by
    have h := E.short
    rw [List.length_append, List.length_cons] at h
    omega
  have hlt : ¬ E.dir.length ≥ PATH_MAX := Nat.not_le.mpr hshort
  simp only [directory, Executable.path, strrchr_last E.name_slash, if_neg hlt, List.take_left]

theorem copyPath_right (hs : 0 ∉ s) :
    Right s buffer (copyPath s buffer) := by
  by_cases hlong : s.length ≥ buffer.length
  · have hrun : copyPath s buffer = some ⟨false, buffer⟩ := if_pos hlong
    rw [hrun]
    exact right_of_refused.mpr hlong
  · have hrun : copyPath s buffer =
        some ⟨true, s ++ List.replicate (buffer.length - s.length) 0⟩ := by
      have hcopy := strncpy_put_nul (Nat.lt_of_not_le hlong)
      obtain ⟨copied, hcopied, hput⟩ := Option.bind_eq_some_iff.mp hcopy
      simp [copyPath, hlong, hcopied, hput]
    have hlen : (s ++ List.replicate (buffer.length - s.length) (0 : UInt8)).length =
        buffer.length := by
      rw [List.length_append, List.length_replicate]
      omega
    have hholds := (holds_padded_iff (n := buffer.length - s.length) hs).mpr (by omega)
    rw [hrun, right_of_held hlen hholds]
    exact ⟨by omega, rfl⟩

/-! ## The path of a file -/

/-- A directory that ends in a separator, unless it is empty. -/
def separated (dir : List UInt8) : List UInt8 :=
  if dir.length > 0 ∧ dir.getLast? ≠ some separator then dir ++ [separator] else dir

/-- The string `joinPath` puts together where it has the room it asks for. -/
def joined (dir file : List UInt8) : List UInt8 :=
  if file = [] then dir else separated dir ++ file

theorem length_separated (dir : List UInt8) : (separated dir).length ≤ dir.length + 1 := by
  unfold separated
  split
  · exact Nat.le_of_eq List.length_append
  · exact Nat.le_succ _

variable {dir file : List UInt8}

theorem addSeparator_holds (h : Holds buffer dir) (hroom : dir.length + 2 ≤ buffer.length) :
    ∃ after, addSeparator dir.length buffer = some after ∧ after.length = buffer.length ∧
      Holds after (separated dir) := by
  have hiff : dir.length > 0 ∧ buffer[dir.length - 1]? ≠ some separator ↔
      dir.length > 0 ∧ dir.getLast? ≠ some separator := by
    apply and_congr_right
    intro hpos
    rw [h.getElem? (by omega), List.getLast?_eq_getElem?]
  unfold addSeparator separated
  by_cases hsep : dir.length > 0 ∧ dir.getLast? ≠ some separator
  · rw [if_pos (hiff.mpr hsep), if_pos hsep]
    exact h.strcat (by decide) hroom
  · rw [if_neg (mt hiff.mp hsep), if_neg hsep]
    exact ⟨buffer, rfl, rfl, h⟩

theorem joinPath_holds (hdir : 0 ∉ dir) (hfile : 0 ∉ file)
    (hroom : room dir.length file.length = dir.length + file.length + 2)
    (h : dir.length + file.length + 2 ≤ buffer.length) :
    ∃ after, joinPath dir file buffer = some ⟨true, after⟩ ∧ after.length = buffer.length ∧
      Holds after (joined dir file) := by
  have hgt : ¬ room dir.length file.length > buffer.length := by omega
  have hcopyroom : dir.length + 1 ≤ buffer.length := by omega
  obtain ⟨copied, hcopy, hcopylen, hcopied⟩ := strcpy_holds hdir hcopyroom
  unfold joinPath joined
  simp only [if_neg hgt, hcopy, Option.bind_eq_bind, Option.bind_some]
  by_cases hempty : file = []
  · rw [if_pos (by rw [hempty, List.length_nil]), if_pos hempty]
    exact ⟨copied, rfl, hcopylen, hcopied⟩
  · obtain ⟨sep, hsep, hseplen, hsepholds⟩ := addSeparator_holds hcopied (by omega)
    have hlen := length_separated dir
    obtain ⟨after, hcat, hcatlen, hholds⟩ := hsepholds.strcat hfile (by omega)
    rw [if_neg (mt List.length_eq_zero_iff.mp hempty), if_neg hempty, hsep, Option.bind_some, hcat]
    exact ⟨after, rfl, by omega, hholds⟩

/-- **A joined path is right** where it has the room it asks for and is the one wanted, or is
refused the room and would not fit. -/
theorem right_joinPath_iff (hdir : 0 ∉ dir) (hfile : 0 ∉ file)
    (hroom : room dir.length file.length = dir.length + file.length + 2) :
    Right wanted buffer (joinPath dir file buffer) ↔
      if dir.length + file.length + 2 ≤ buffer.length then
        wanted.length + 1 ≤ buffer.length ∧ joined dir file = wanted
      else buffer.length ≤ wanted.length := by
  split
  · next h =>
    obtain ⟨after, hrun, hlen, hholds⟩ := joinPath_holds hdir hfile hroom h
    rw [hrun, right_of_held hlen hholds]
  · next h =>
    have hrun : joinPath dir file buffer = some ⟨false, buffer⟩ := if_pos (by omega)
    rw [hrun, right_of_refused]

/-! ## The sizes -/

/-- The buffer sizes for which a call is right. -/
def Suits (E : Executable) (filename : Option RelativeName) (buffer_size : Nat) : Prop :=
  match filename with
  | none => True
  | some file =>
    if file.chars = [] then
      if E.dir = [] then buffer_size = 1 else buffer_size ≠ E.dir.length + 1
    else if E.dir = [] then buffer_size < file.chars.length + 2
    else if E.dir.getLast? = some separator then
      buffer_size ≠ E.dir.length + file.chars.length + 1
    else True

theorem room_eq (E : Executable) (file : RelativeName) :
    room E.dir.length file.chars.length = E.dir.length + file.chars.length + 2 := by
  have hshort := E.short
  have hfits := file.fits
  rw [List.length_append, List.length_cons] at hshort
  unfold room
  unfold PATH_MAX at hshort
  omega

theorem Executable.no_nul_dir (E : Executable) : 0 ∉ E.dir :=
  fun h => E.no_nul (List.mem_append_left _ h)

/-- The directory alone. -/
theorem folder_right_iff (E : Executable) (file : RelativeName) (hempty : file.chars = [])
    (hsize : 0 < buffer.length) :
    Right E.folder buffer (joinPath E.dir file.chars buffer) ↔
      if E.dir = [] then buffer.length = 1 else buffer.length ≠ E.dir.length + 1 := by
  rw [right_joinPath_iff E.no_nul_dir file.no_nul (room_eq E file), joined, if_pos hempty, hempty,
    List.length_nil, Executable.folder]
  by_cases hroot : E.dir = []
  · simp only [hroot, if_true, List.length_nil, List.length_singleton]
    split
    · next h => exact iff_of_false (fun hright => absurd hright.2 (by decide)) (by omega)
    · next h => omega
  · simp only [if_neg hroot, and_true]
    split <;> omega

/-- A file at the root, whose separator is lost. -/
theorem root_right_iff (E : Executable) (file : RelativeName) (hne : file.chars ≠ [])
    (hroot : E.dir = []) :
    Right (E.beside file.chars) buffer (joinPath E.dir file.chars buffer) ↔
      buffer.length < file.chars.length + 2 := by
  have hbeside : E.beside file.chars = separator :: file.chars := by
    rw [Executable.beside, Executable.folder, if_pos hroot]
    rfl
  have hjoined : joined E.dir file.chars = file.chars := by
    rw [joined, if_neg hne, hroot]
    rfl
  rw [right_joinPath_iff E.no_nul_dir file.no_nul (room_eq E file), hbeside, hjoined, hroot,
    List.length_cons, List.length_nil]
  split
  · next h =>
    refine iff_of_false (fun hright => ?_) (by omega)
    have hlen := congrArg List.length hright.2
    rw [List.length_cons] at hlen
    omega
  · next h => omega

/-- A file in a directory, which may end in a separator itself. -/
theorem beside_right_iff (E : Executable) (file : RelativeName) (hne : file.chars ≠ [])
    (hroot : E.dir ≠ []) :
    Right (E.beside file.chars) buffer (joinPath E.dir file.chars buffer) ↔
      (E.dir.getLast? = some separator →
        buffer.length ≠ E.dir.length + file.chars.length + 1) := by
  have hpos : E.dir.length > 0 := List.length_pos_iff.mpr hroot
  rw [right_joinPath_iff E.no_nul_dir file.no_nul (room_eq E file), joined, if_neg hne,
    Executable.beside, Executable.folder, if_neg hroot]
  by_cases hlast : E.dir.getLast? = some separator
  · have hsep : separated E.dir = E.dir := if_neg fun h => h.2 hlast
    rw [if_pos hlast, hsep, List.length_append]
    simp only [hlast, true_imp_iff, and_true]
    split <;> omega
  · have hsep : separated E.dir = E.dir ++ [separator] := if_pos ⟨hpos, hlast⟩
    rw [if_neg hlast, hsep, List.length_append, List.length_cons, List.append_assoc,
      List.singleton_append]
    refine iff_of_true ?_ fun h => absurd h hlast
    split
    · next h => exact ⟨by omega, rfl⟩
    · next h => omega

/-- A call on the system that runs `E`. -/
theorem exepath_system (E : Executable) (cwd : Option (List UInt8))
    (filename : Option (List UInt8)) (hsize : 0 < buffer.length) :
    exepath (E.system cwd) buffer filename =
      match filename with
      | none => copyPath E.path buffer
      | some filename => joinPath E.dir filename buffer := by
  rw [exepath, if_neg (Nat.ne_of_gt hsize), findExecutable_system]
  cases filename with
  | none => rfl
  | some filename => simp only [directory_path]

/-- **`exepath` is right for exactly these sizes**: any for the path itself, and for a file in a
directory that does not end in a separator; all but one for the directory, or behind a separator;
and at the root only those that are too small. -/
theorem exepath_iff (E : Executable) (cwd : Option (List UInt8)) (filename : Option RelativeName)
    (buffer : List UInt8) (hsize : 0 < buffer.length) :
    Right (E.wanted filename) buffer
        (exepath (E.system cwd) buffer (filename.map RelativeName.chars)) ↔
      Suits E filename buffer.length := by
  rw [exepath_system E cwd _ hsize]
  cases filename with
  | none => exact iff_of_true (copyPath_right E.no_nul) trivial
  | some file =>
    simp only [Option.map_some, Executable.wanted, Suits]
    by_cases hempty : file.chars = []
    · rw [if_pos hempty, if_pos hempty]
      exact folder_right_iff E file hempty hsize
    rw [if_neg hempty, if_neg hempty]
    by_cases hroot : E.dir = []
    · rw [if_pos hroot]
      exact root_right_iff E file hempty hroot
    · rw [if_neg hroot, beside_right_iff E file hempty hroot]
      split <;> simp [*]

/-- No name: the directory itself is asked for. -/
def noName : RelativeName where
  chars := []
  relative := by decide
  no_nul := List.not_mem_nil
  fits := by decide

/-- `exedir` is one byte too strict, and has nothing to say of the root. -/
theorem exedir_right_iff (E : Executable) (cwd : Option (List UInt8))
    (hsize : 0 < buffer.length) :
    Right E.folder buffer (exedir (E.system cwd) buffer) ↔
      if E.dir = [] then buffer.length = 1 else buffer.length ≠ E.dir.length + 1 := by
  rw [exedir, exepath_system E cwd _ hsize]
  exact folder_right_iff E noName rfl hsize

/-- `/a/b`. -/
def sampleExecutable : Executable where
  dir := [47, 97]
  name := [98]
  absolute := by decide
  name_slash := by decide
  no_nul := by decide
  short := by decide

theorem exepath_iff_three :
    Right (sampleExecutable.wanted (some noName)) [1, 1, 1]
        (exepath (sampleExecutable.system none) [1, 1, 1] (some [])) ↔
      Suits sampleExecutable (some noName) 3 :=
  exepath_iff sampleExecutable none (some noName) [1, 1, 1] (by decide)

/-- The directory `/a` fits three bytes, and is refused. -/
theorem exedir_refuses_three :
    ¬ Right (sampleExecutable.wanted (some noName)) [1, 1, 1]
      (exedir (sampleExecutable.system none) [1, 1, 1]) := by
  have hrefused : exedir (sampleExecutable.system none) [1, 1, 1] = some ⟨false, [1, 1, 1]⟩ := by
    decide
  rw [hrefused, right_of_refused]
  decide

end LearnNotes.Utils
