import LearnNotes.Utils.Lang

/-!
# What a language package says

The constructor of `I18NLoader` and `find` on a whole document. `packageMessage_eq_some_iff`: the
message of a code is what the last field, in document order, gives for it under the module's name.
`foldl_wellTyped`: fields of the wrong kind leave no trace in the index. `find_new`: what `find`
returns, and when the loader is loaded.
-/

namespace LearnNotes.Utils

open Lib

/-- The name of a module. -/
def IsModule (name : String) : Prop := name ≠ "meta" ∧ name ≠ "submodules"

instance (name : String) : Decidable (IsModule name) :=
  inferInstanceAs (Decidable (name ≠ "meta" ∧ name ≠ "submodules"))

/-- The fields inside the document's objects, in its order: the object's name, the key and the
value. -/
def moduleFields (doc : List (String × Json)) : List (String × String × Json) :=
  doc.flatMap fun
    | (field, .object items) => items.map (field, ·)
    | _ => []

/-- The field gives `msg` for the code under the module's name. -/
structure Gives (name : String) (code : UInt32) (msg : String) (f : String × String × Json) :
    Prop where
  field : f.1 = name
  isModule : IsModule name
  code : parse_hex_code f.2.1 = some code
  msg : f.2.2 = .string msg

/-- The last field that gives a message for the code gives `msg`. -/
def LastGives (doc : List (String × Json)) (name : String) (code : UInt32) (msg : String) : Prop :=
  ∃ pre f post, moduleFields doc = pre ++ f :: post ∧ Gives name code msg f ∧
    ∀ g ∈ post, ∀ msg', ¬ Gives name code msg' g

/-- A field of the document without what is not a code with a string. -/
def wellTypedField : String × Json → Option (String × Json)
  | (field, .object items) =>
    some (field, .object (items.filter fun item => (codeItem item).isSome))
  | _ => none

/-- The document without its fields of the wrong kind. -/
def wellTyped (doc : List (String × Json)) : List (String × Json) := doc.filterMap wellTypedField

/-- The file is there, and is the document. -/
structure Loads (fs : Files) (file_path : String) (doc : List (String × Json)) : Prop where
  ne_empty : file_path ≠ ""
  is_there : fs.is_there file_path = true
  load : fs.load file_path = .ok (.object doc)

variable {name : String} {code : UInt32} {msg : String} {doc doc' : List (String × Json)}

/-! ## Fields -/

/-- The entry a field makes under the module's name. -/
def entryOf (name : String) (f : String × String × Json) : Option (UInt32 × String) :=
  if f.1 = name ∧ IsModule name then codeItem f.2 else none

theorem codeItem_eq_some_iff {item : String × Json} :
    codeItem item = some (code, msg) ↔
      parse_hex_code item.1 = some code ∧ item.2 = .string msg := by
  obtain ⟨key, value⟩ := item
  cases value with
  | object | other => simp [codeItem]
  | string s =>
    simp only [codeItem, Option.map_eq_some_iff, Prod.mk.injEq, Json.string.injEq]
    constructor
    · rintro ⟨c, hc, rfl, rfl⟩
      exact ⟨hc, rfl⟩
    · rintro ⟨hc, rfl⟩
      exact ⟨code, hc, rfl, rfl⟩

theorem gives_iff {f : String × String × Json} :
    Gives name code msg f ↔ entryOf name f = some (code, msg) := by
  unfold entryOf
  constructor
  · intro h
    rw [if_pos ⟨h.field, h.isModule⟩, codeItem_eq_some_iff]
    exact ⟨h.code, h.msg⟩
  · intro h
    split at h
    · next hf =>
      obtain ⟨hcode, hmsg⟩ := codeItem_eq_some_iff.mp h
      exact ⟨hf.1, hf.2, hcode, hmsg⟩
    · cases h

theorem moduleEntries_eq (doc : List (String × Json)) (name : String) :
    moduleEntries doc name = (moduleFields doc).filterMap (entryOf name) := by
  unfold moduleEntries moduleFields
  rw [List.filterMap_flatMap]
  congr 1
  funext field
  obtain ⟨n, value⟩ := field
  cases value with
  | string | other => rfl
  | object items =>
    simp only [List.filterMap_map]
    by_cases hn : n = name ∧ IsModule name
    · refine (if_pos hn).trans ?_
      exact congrArg (items.filterMap ·) (funext fun item => (if_pos hn).symm)
    · refine (if_neg hn).trans ?_
      exact (List.filterMap_eq_nil_iff.mpr fun item _ => if_neg hn).symm

theorem any_entryOf_iff {f : String × String × Json} :
    (entryOf name f).any (·.1 == code) = true ↔ ∃ msg, Gives name code msg f := by
  simp only [gives_iff]
  cases entryOf name f with
  | none => simp
  | some entry =>
    obtain ⟨c, m⟩ := entry
    simp

/-- **The package's message is what the last field gives.** -/
theorem packageMessage_eq_some_iff :
    packageMessage doc name code = some msg ↔ LastGives doc name code msg := by
  unfold packageMessage Keyed.findLast
  rw [moduleEntries_eq, ← List.filterMap_reverse, List.find?_filterMap, Option.map_eq_some_iff]
  constructor
  · rintro ⟨⟨c, m⟩, hbind, rfl⟩
    obtain ⟨f, hfind, hf⟩ := Option.bind_eq_some_iff.mp hbind
    obtain ⟨hany, post, pre, hsplit, hpost⟩ := List.find?_eq_some_iff_append.mp hfind
    obtain ⟨m', hgives⟩ := any_entryOf_iff.mp hany
    obtain ⟨rfl, rfl⟩ : code = c ∧ m' = m := by
      rw [gives_iff.mp hgives] at hf
      simpa using hf
    refine ⟨pre.reverse, f, post.reverse, ?_, hgives, fun g hg msg' hg' => ?_⟩
    · rw [← List.reverse_reverse (moduleFields doc), hsplit]
      simp
    · have := hpost g (List.mem_reverse.mp hg)
      rw [any_entryOf_iff.mpr ⟨msg', hg'⟩] at this
      cases this
  · rintro ⟨pre, f, post, hsplit, hgives, hpost⟩
    refine ⟨(code, msg), Option.bind_eq_some_iff.mpr ⟨f, ?_, gives_iff.mp hgives⟩, rfl⟩
    refine List.find?_eq_some_iff_append.mpr ⟨any_entryOf_iff.mpr ⟨msg, hgives⟩, post.reverse,
      pre.reverse, by simp [hsplit], fun g hg => ?_⟩
    rw [Bool.not_eq_true', Bool.eq_false_iff]
    intro hany
    obtain ⟨msg', hg'⟩ := any_entryOf_iff.mp hany
    exact hpost g (List.mem_reverse.mp hg) msg' hg'

theorem packageMessage_eq_none (h : ∀ f ∈ moduleFields doc, ∀ msg, ¬ Gives name code msg f) :
    packageMessage doc name code = none := by
  refine Option.eq_none_iff_forall_ne_some.mpr fun msg hmsg => ?_
  obtain ⟨pre, f, post, hsplit, hgives, -⟩ := packageMessage_eq_some_iff.mp hmsg
  exact h f (by simp [hsplit]) msg hgives

/-! ## The constructor -/

/-- A document's field makes an entry iff it is a module. -/
theorem indexField_eq_nil_iff {index_map : List (String × ModuleIndex)} {field : String × Json} :
    indexField index_map field = [] ↔
      index_map = [] ∧ ¬ (IsModule field.1 ∧ ∃ items, field.2 = .object items) := by
  obtain ⟨n, value⟩ := field
  cases value with
  | string | other => simp [indexField]
  | object items =>
    by_cases hskip : n = "meta" ∨ n = "submodules"
    · have hm : ¬ IsModule n := fun h => hskip.elim h.1 h.2
      have hfield : indexField index_map (n, .object items) = index_map := if_pos hskip
      simp [hfield, hm]
    · have hm : IsModule n := not_or.mp hskip
      have hfield : indexField index_map (n, .object items) =
          Keyed.assign Prod.fst index_map
            (n, items.foldl indexItem (moduleIndex index_map n)) := if_neg hskip
      simp [hfield, hm, Keyed.assign_ne_nil]

/-- The index is empty where the document has no module. -/
theorem index_eq_nil_iff (doc : List (String × Json)) :
    doc.foldl indexField [] = [] ↔
      ¬ ∃ field ∈ doc, IsModule field.1 ∧ ∃ items, field.2 = .object items := by
  induction doc using List.reverseRecOn with
  | nil => simp
  | append_singleton doc field ih =>
    rw [List.foldl_append, List.foldl_cons, List.foldl_nil, indexField_eq_nil_iff, ih]
    simp only [List.mem_append, List.mem_singleton, or_and_right, exists_or, exists_eq_left, not_or]

theorem foldl_indexItem_filter (items : List (String × Json)) (module_index : ModuleIndex) :
    (items.filter fun item => (codeItem item).isSome).foldl indexItem module_index =
      items.foldl indexItem module_index := by
  rw [List.foldl_filter]
  congr 1
  funext module_index item
  unfold indexItem
  cases codeItem item <;> rfl

/-- Fields of the wrong kind leave the index as it is. -/
theorem foldl_wellTyped (doc : List (String × Json)) (index_map : List (String × ModuleIndex)) :
    (wellTyped doc).foldl indexField index_map = doc.foldl indexField index_map := by
  unfold wellTyped
  rw [List.foldl_filterMap]
  congr 1
  funext index_map field
  obtain ⟨n, value⟩ := field
  cases value with
  | string | other => rfl
  | object items =>
    simp only [wellTypedField, indexField, foldl_indexItem_filter]

namespace I18NLoader

variable {fs fs' : Files} {file_path file_path' : String}

/-- What the constructor makes of a document. -/
def ofIndex (index_map : List (String × ModuleIndex)) : error_code × I18NLoader :=
  if index_map.isEmpty then (make_error_code invalid_argument, { impl := true })
  else ({}, { impl := true, loaded := true, index_map := index_map })

theorem new_of_loads (h : Loads fs file_path doc) :
    new fs file_path = ofIndex (doc.foldl indexField []) := by
  have hempty : file_path.isEmpty = false := by
    rw [Bool.eq_false_iff, ne_eq, String.isEmpty_iff]
    exact h.ne_empty
  unfold new ofIndex
  rw [hempty, h.is_there, h.load]
  rfl

theorem loaded_ofIndex (index_map : List (String × ModuleIndex)) :
    (ofIndex index_map).2.loaded = true ↔ index_map ≠ [] := by
  unfold ofIndex
  cases index_map with
  | nil => simp
  | cons entry index_map => simp

/-- A loader is loaded iff its document has a module. -/
theorem loaded_of_loads (h : Loads fs file_path doc) :
    (new fs file_path).2.loaded = true ↔
      ∃ field ∈ doc, IsModule field.1 ∧ ∃ items, field.2 = .object items := by
  rw [new_of_loads h, loaded_ofIndex, ne_eq, index_eq_nil_iff, not_not]

theorem find_ofIndex (index_map : List (String × ModuleIndex)) (name : String) (code : UInt32) :
    ((ofIndex index_map).2.find name code).2 =
      ((Keyed.find Prod.fst (moduleIndex index_map name) code).map Prod.snd).getD "" := by
  cases index_map with
  | nil => rfl
  | cons entry index_map => exact find_snd name code rfl rfl

/-- `find` is the package's message, whether the loader is loaded or not. -/
theorem find_of_loads (h : Loads fs file_path doc) (name : String) (code : UInt32) :
    (new fs file_path).2.find name code = ({}, (packageMessage doc name code).getD "") := by
  refine Prod.ext (find_fst _ _ _) ?_
  rw [new_of_loads h, find_ofIndex, find_index]
  rfl

/-- **The lookup in a language package.** -/
theorem find_new (h : Loads fs file_path doc) :
    let loader := (new fs file_path).2
    (∀ name code msg, LastGives doc name code msg → loader.find name code = ({}, msg)) ∧
      (∀ name code, (∀ f ∈ moduleFields doc, ∀ msg, ¬ Gives name code msg f) →
        loader.find name code = ({}, "")) ∧
      (loader.loaded = true ↔
        ∃ field ∈ doc, IsModule field.1 ∧ ∃ items, field.2 = .object items) ∧
      (∀ fs' file_path' doc', Loads fs' file_path' doc' → wellTyped doc' = wellTyped doc →
        new fs' file_path' = new fs file_path) := by
  intro loader
  refine ⟨fun name code msg hlast => ?_, fun name code hno => ?_, ?_, ?_⟩
  · rw [find_of_loads h, packageMessage_eq_some_iff.mpr hlast]
    rfl
  · rw [find_of_loads h, packageMessage_eq_none hno]
    rfl
  · exact loaded_of_loads h
  · intro fs' file_path' doc' h' hwell
    rw [new_of_loads h, new_of_loads h', ← foldl_wellTyped doc, ← foldl_wellTyped doc', hwell]

/-- Two spellings of one code in a module that comes twice, between fields of the wrong kind. -/
theorem find_new_respelled :
    let doc : List (String × Json) :=
      [("meta", .object [("0x1", .string "meta")]), ("gl", .object [("0x1", .string "first")]),
        ("al", .other), ("gl", .object [("0X01", .string "second"), ("1", .string "no code"),
          ("0x1", .other)])]
    (new ⟨fun _ => true, fun _ => .ok (.object doc)⟩ "error.json").2.find "gl" 1 =
      ({}, "second") := by
  intro doc
  have hloads : Loads ⟨fun _ => true, fun _ => .ok (.object doc)⟩ "error.json" doc :=
    ⟨by decide, rfl, rfl⟩
  have h := find_new hloads
  refine h.1 "gl" 1 "second" ⟨[("meta", "0x1", .string "meta"), ("gl", "0x1", .string "first")],
    ("gl", "0X01", .string "second"), [("gl", "1", .string "no code"), ("gl", "0x1", .other)], rfl,
    ⟨rfl, by decide, by decide, rfl⟩, fun g hg msg' hgives => ?_⟩
  rcases List.mem_cons.mp hg with rfl | hg
  · have := hgives.code
    revert this
    decide
  · rw [List.mem_singleton.mp hg] at hgives
    cases hgives.msg

end I18NLoader

end LearnNotes.Utils
