import LearnNotes.Lib.Keyed

/-!
# `utils::I18NLoader`

`utils/lang.hpp` and `utils/lang.cpp`: a language package is a JSON document, an object of
modules, each an object from codes in hexadecimal to messages. The constructor indexes it,
`find` looks a message up. simdjson is a parameter: what `parser.load` makes of a file.
`find_loaded`: in a loader that is loaded, `find` gives the last message the document has for
the code under the module's name. `g_last_i18n_error` and the C functions are left out.

What all of `skl` shares stands first: functions inside the library return a `SKLErr`, 0 for
success; what callers see is a `std::error_code`, made from the 16-bit enumerators of a module's
`errc` and clear where its value is 0.
-/

namespace LearnNotes

/-! ## Error codes -/

abbrev SKLErr := Int

def EXIT_SUCCESS : SKLErr := 0

/-- `std::error_code`, its category left out. -/
structure error_code where
  value : Int := 0
  deriving DecidableEq, Repr

/-- `operator bool`. -/
def error_code.isSet (ec : error_code) : Bool := ec.value ≠ 0

/-- `make_error_code` of an enumerator, given by its code. -/
def make_error_code (ec : UInt16) : error_code := ⟨ec.toNat⟩

/-- `(errc)rc`: the cast keeps the low 16 bits. -/
def toErrc (rc : SKLErr) : UInt16 := UInt16.ofInt rc

namespace Utils

open Lib

/-- `simdjson::dom::element`; the kinds the loader does not look into are one. -/
inductive Json where
  | object (fields : List (String × Json))
  | string (s : String)
  | other

/-- The files of the process, and what `parser.load(file_path)` gives: simdjson's error or the
root of the document. -/
structure Files where
  is_there : String → Bool
  load : String → Except UInt16 Json

/-- The files before it is known of a path that `std::filesystem::exists` answers for it. It throws
(`none`) where a name is too long or a directory may not be searched. -/
structure FileSystem where
  is_there : String → Option Bool
  load : String → Except UInt16 Json

/-- What a constructor finds. `global_i18n_loader` calls it on a file that is there, or on none. -/
def FileSystem.files (disk : FileSystem) : Files where
  is_there path := disk.is_there path == some true
  load := disk.load

/-! ## Codes -/

def hexDigit (c : Char) : Option UInt32 :=
  if '0' ≤ c ∧ c ≤ '9' then some (UInt32.ofNat (c.toNat - '0'.toNat))
  else if 'a' ≤ c ∧ c ≤ 'f' then some (UInt32.ofNat (c.toNat - 'a'.toNat + 10))
  else if 'A' ≤ c ∧ c ≤ 'F' then some (UInt32.ofNat (c.toNat - 'A'.toNat + 10))
  else none

/-- The loop of `parse_hex_code`. -/
def hexValue : UInt32 → List Char → Option UInt32
  | value, [] => some value
  | value, c :: cs =>
    match hexDigit c with
    | none => none
    | some nibble => hexValue ((value <<< 4) ||| nibble) cs

/-- `parse_hex_code`: `0x` or `0X`, and at least one digit. -/
def parse_hex_code (key : String) : Option UInt32 :=
  match key.toList with
  | '0' :: x :: c :: cs => if x = 'x' ∨ x = 'X' then hexValue 0 (c :: cs) else none
  | _ => none

/-! ## The loader -/

/-- `std::unordered_map<uint32_t, std::string>`. -/
abbrev ModuleIndex := List (UInt32 × String)

structure I18NLoader where
  /-- `impl` is not null: the loader has not been moved from. -/
  impl : Bool
  loaded : Bool := false
  index_map : List (String × ModuleIndex) := []

/-- An item of a module: a code with a string. -/
def codeItem : String × Json → Option (UInt32 × String)
  | (key, .string msg) => (parse_hex_code key).map (·, msg)
  | _ => none

/-- The loop over `module_obj`. -/
def indexItem (module_index : ModuleIndex) (item : String × Json) : ModuleIndex :=
  match codeItem item with
  | none => module_index
  | some entry => Keyed.assign Prod.fst module_index entry

/-- `index_map[name]`, which makes the entry where there is none. -/
def moduleIndex (index_map : List (String × ModuleIndex)) (name : String) : ModuleIndex :=
  ((Keyed.find Prod.fst index_map name).map Prod.snd).getD []

/-- The loop over `doc`. -/
def indexField (index_map : List (String × ModuleIndex)) (field : String × Json) :
    List (String × ModuleIndex) :=
  match field with
  | (name, .object items) =>
    if name = "meta" ∨ name = "submodules" then index_map
    else Keyed.assign Prod.fst index_map
      (name, items.foldl indexItem (moduleIndex index_map name))
  | _ => index_map

def lang_no_such_file : UInt16 := 0x0101
def invalid_argument : UInt16 := 0x0016

namespace I18NLoader

/-- The constructor. -/
def new (fs : Files) (file_path : String) : error_code × I18NLoader :=
  if file_path.isEmpty || !fs.is_there file_path then
    (make_error_code lang_no_such_file, { impl := true })
  else
    match fs.load file_path with
    | .error error => (make_error_code (error ||| 0x0200), { impl := true })
    | .ok (.object doc) =>
      let index_map := doc.foldl indexField []
      if index_map.isEmpty then (make_error_code invalid_argument, { impl := true })
      else ({}, { impl := true, loaded := true, index_map := index_map })
    | .ok _ => (make_error_code invalid_argument, { impl := true })

/-- `find(ec, submodule, code)`: the empty text where there is no message. -/
def find (submodule : String) (code : UInt32) (loader : I18NLoader) : error_code × String :=
  if !loader.loaded || !loader.impl then ({}, "")
  else
    match Keyed.find Prod.fst loader.index_map submodule with
    | none => ({}, "")
    | some (_, module_map) =>
      match Keyed.find Prod.fst module_map code with
      | none => ({}, "")
      | some (_, message) => ({}, message)

/-- `find` clears its error code, and nothing sets it again. -/
theorem find_fst (submodule : String) (code : UInt32) (loader : I18NLoader) :
    (loader.find submodule code).1 = {} := by
  unfold find
  split
  · rfl
  · split
    · rfl
    · split <;> rfl

end I18NLoader

/-- The loop of `global_i18n_loader`: the first of the candidate files that loads. The function is
`noexcept`, so what `exists` throws ends the process: `none`. -/
def global_i18n_loader (disk : FileSystem) : List String → Option I18NLoader
  | [] => some (I18NLoader.new disk.files "").2
  | candidate :: candidates =>
    match disk.is_there candidate with
    | none => none
    | some false => global_i18n_loader disk candidates
    | some true =>
      let try_loader := (I18NLoader.new disk.files candidate).2
      if try_loader.loaded then some try_loader else global_i18n_loader disk candidates

/-! ## What a package says -/

/-- The codes and messages under the module's name, in the order of the document. -/
def moduleEntries (doc : List (String × Json)) (name : String) : List (UInt32 × String) :=
  doc.flatMap fun
    | (field, .object items) =>
      if field = name ∧ name ≠ "meta" ∧ name ≠ "submodules" then items.filterMap codeItem else []
    | _ => []

/-- The package's message: the last one for the code. -/
def packageMessage (doc : List (String × Json)) (name : String) (code : UInt32) :
    Option String :=
  (Keyed.findLast Prod.fst (moduleEntries doc name) code).map Prod.snd

variable {name : String} {code : UInt32} {doc : List (String × Json)}

theorem find_indexItem (items : List (String × Json)) (module_index : ModuleIndex) :
    Keyed.find Prod.fst (items.foldl indexItem module_index) code =
      (Keyed.findLast Prod.fst (items.filterMap codeItem) code).or
        (Keyed.find Prod.fst module_index code) := by
  induction items generalizing module_index with
  | nil => rfl
  | cons item items ih =>
    rw [List.foldl_cons, ih]
    unfold indexItem
    cases hitem : codeItem item with
    | none => rw [List.filterMap_cons_none hitem]
    | some entry =>
      rw [List.filterMap_cons_some hitem, Keyed.find_assign, Keyed.findLast_cons, Option.or_assoc]
      by_cases hk : entry.1 = code
      · rw [if_pos hk.symm, if_pos hk]
        rfl
      · rw [if_neg (Ne.symm hk), if_neg hk]
        rfl

theorem moduleEntries_append (doc doc' : List (String × Json)) :
    moduleEntries (doc ++ doc') name = moduleEntries doc name ++ moduleEntries doc' name := by
  unfold moduleEntries
  rw [List.flatMap_append]

theorem moduleIndex_assign (index_map : List (String × ModuleIndex)) (n : String)
    (m : ModuleIndex) :
    moduleIndex (Keyed.assign Prod.fst index_map (n, m)) name =
      if name = n then m else moduleIndex index_map name := by
  unfold moduleIndex
  rw [Keyed.find_assign]
  split <;> rfl

/-- One field of the document. -/
theorem find_indexField (index_map : List (String × ModuleIndex)) (field : String × Json) :
    Keyed.find Prod.fst (moduleIndex (indexField index_map field) name) code =
      (Keyed.findLast Prod.fst (moduleEntries [field] name) code).or
        (Keyed.find Prod.fst (moduleIndex index_map name) code) := by
  obtain ⟨n, value⟩ := field
  cases value with
  | string => rfl
  | other => rfl
  | object items =>
    have hentries : moduleEntries [(n, .object items)] name =
        if n = name ∧ name ≠ "meta" ∧ name ≠ "submodules" then items.filterMap codeItem
        else [] := List.append_nil _
    have hfield : indexField index_map (n, .object items) =
        if n = "meta" ∨ n = "submodules" then index_map
        else Keyed.assign Prod.fst index_map
          (n, items.foldl indexItem (moduleIndex index_map n)) := rfl
    rw [hentries, hfield]
    by_cases hskip : n = "meta" ∨ n = "submodules"
    · rw [if_pos hskip, if_neg (by rintro ⟨rfl, hm, hs⟩; exact hskip.elim hm hs)]
      rfl
    · obtain ⟨hm, hs⟩ := not_or.mp hskip
      rw [if_neg hskip, moduleIndex_assign]
      by_cases hn : name = n
      · subst hn
        rw [if_pos rfl, if_pos ⟨rfl, hm, hs⟩]
        exact find_indexItem items _
      · rw [if_neg hn, if_neg fun h => hn h.1.symm]
        rfl

/-- The loop over the document, and with it the index the constructor makes. -/
theorem find_index (doc : List (String × Json)) :
    Keyed.find Prod.fst (moduleIndex (doc.foldl indexField []) name) code =
      Keyed.findLast Prod.fst (moduleEntries doc name) code := by
  induction doc using List.reverseRecOn with
  | nil => rfl
  | append_singleton doc field ih =>
    rw [List.foldl_append, moduleEntries_append, Keyed.findLast_append, ← ih]
    exact find_indexField _ field

namespace I18NLoader

variable {fs : Files} {file_path : String} {loader : I18NLoader}

/-- What a loaded loader holds: `new` has read a document with an index. -/
theorem index_of_loaded (h : (new fs file_path).2.loaded = true) :
    ∃ doc, fs.load file_path = .ok (.object doc) ∧
      (new fs file_path).2 =
        { impl := true, loaded := true, index_map := doc.foldl indexField [] } := by
  unfold new at h ⊢
  by_cases hfile : (file_path.isEmpty || !fs.is_there file_path) = true
  · rw [if_pos hfile] at h
    cases h
  · rw [if_neg hfile] at h ⊢
    cases hload : fs.load file_path with
    | error e => rw [hload] at h; cases h
    | ok root =>
      cases root with
      | string | other => rw [hload] at h; cases h
      | object doc =>
        rw [hload] at h
        refine ⟨doc, rfl, ?_⟩
        by_cases hempty : (doc.foldl indexField []).isEmpty = true
        · simp only [hempty, if_true] at h
          cases h
        · simp only [hempty]
          rfl

/-- `find` in a loader that is loaded is a lookup under the module's name. -/
theorem find_snd (submodule : String) (code : UInt32) (hl : loader.loaded = true)
    (hi : loader.impl = true) :
    (loader.find submodule code).2 =
      ((Keyed.find Prod.fst (moduleIndex loader.index_map submodule) code).map Prod.snd).getD ""
    := by
  unfold find moduleIndex
  rw [hl, hi]
  cases Keyed.find Prod.fst loader.index_map submodule with
  | none => rfl
  | some entry =>
    cases hm : Keyed.find Prod.fst entry.2 code with
    | none => simp [hm]
    | some found => simp [hm]

/-- In a loader that is loaded, `find` gives the package's messages. -/
theorem find_loaded (h : (new fs file_path).2.loaded = true) :
    ∃ doc, fs.load file_path = .ok (.object doc) ∧ ∀ submodule code,
      ((new fs file_path).2.find submodule code).2 =
        (packageMessage doc submodule code).getD "" := by
  obtain ⟨doc, hdoc, hnew⟩ := index_of_loaded h
  refine ⟨doc, hdoc, fun submodule code => ?_⟩
  rw [hnew, find_snd submodule code rfl rfl, find_index]
  rfl

end I18NLoader

end Utils

end LearnNotes
