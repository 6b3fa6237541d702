import LearnNotes.Utils.Lang

/-!
# `error_category::message`

`utils/error_category.cpp` and `graphics/error_category.cpp`, with the tables of `errec.hpp`.
Both categories look a code up in the language package and fall back to their own table.
`message_followsRule_iff`: the graphics category does so; the utils category returns the
localised text only where `find` has set its error code, and so never does. The build is the
one without `SKL_MODULE_LANG`; `default_error_condition` is left out.
-/

namespace LearnNotes.Utils

open Lib

inductive Category where
  | utils
  | graphics
  deriving DecidableEq, Repr

namespace Category

/-- `moduleId()`. -/
def moduleId : Category → String
  | .utils => "utils"
  | .graphics => "graphics"

/-- `SKL_UTILS_ERROR_CODES`. -/
def utils_error_codes : List (UInt16 × String) :=
  [(0x0016, "Invalid argument"),
   (0x00FF, "Unknown utils error."),
   (0x0101, "The language package file does not exist."),
   (0x0301, "Failed to open dynamic library."),
   (0x0302, "Failed to resolve symbol from dynamic library."),
   (0x0303, "Failed to load dynamic library API."),
   (0x0201, "This parser can't support a document that big."),
   (0x0202, "Error allocating memory, most likely out of memory."),
   (0x0203, "Something went wrong, this is a generic error. Fatal/unrecoverable error."),
   (0x0204, "Your document exceeds the user-specified depth limitation."),
   (0x0205, "Problem while parsing a string."),
   (0x0206, "Problem while parsing an atom starting with the letter 't', expected: true"),
   (0x0207, "Problem while parsing an atom starting with the letter 'f', expected: false"),
   (0x0208, "Problem while parsing an atom starting with the letter 'n', expected: null"),
   (0x0209, "Problem while parsing a number."),
   (0x020A, "The integer value exceeds 64 bits."),
   (0x020B, "The input is not valid UTF-8."),
   (0x020C, "Unknown error, or uninitialized document."),
   (0x020D, "No structural element found."),
   (0x020E, "Found unescaped characters in a string."),
   (0x020F, "Missing quote at the end."),
   (0x0210, "Unsupported architecture."),
   (0x0211, "JSON element has a different type than user expected."),
   (0x0212, "JSON number does not fit in 64 bits."),
   (0x0213, "JSON array index too large."),
   (0x0214, "JSON field not found in object."),
   (0x0215, "Error reading a file."),
   (0x0216, "Invalid JSON pointer syntax."),
   (0x0217, "Invalid URI fragment."),
   (0x0218, "Indicative of a bug in simdjson."),
   (0x0219, "Parser is already in use."),
   (0x021A, "Tried to iterate an array or object out of order."),
   (0x021B, "The JSON doesn't have enough padding for simdjson to safely parse it."),
   (0x021C, "The document ends early. Fatal/unrecoverable error."),
   (0x021D, "A scalar document is treated as a value."),
   (0x021E, "Attempted to access location outside of document."),
   (0x021F, "Unexpected trailing content in the JSON input."),
   (0x0220, "The capacity was exceeded, we cannot allocate enough memory."),
   (0x0221, "Internal Sentinel (NUM_ERROR_CODES).")]

/-- `SKL_GRAPHICS_ERROR_CODES`. -/
def graphics_error_codes : List (UInt16 × String) :=
  [(0x0016, "Graphics Invalid argument"),
   (0x00FF, "Unknown graphics error"),
   (0x0101, "GPU device lost"),
   (0x0102, "GPU operation timed out"),
   (0x0103, "Out of GPU memory"),
   (0x0104, "Device initialization failed"),
   (0x0105, "Required GPU feature not supported"),
   (0x0106, "Rendering context lost"),
   (0x0201, "Shader compilation failed"),
   (0x0202, "Shader linking failed"),
   (0x0203, "Shader validation failed"),
   (0x0204, "Shader entry point not found"),
   (0x0205, "Failed to load shader source file"),
   (0x0206, "Invalid shader binary format"),
   (0x0207, "Shader resource limit exceeded"),
   (0x0301, "Texture creation failed"),
   (0x0302, "Texture format not supported"),
   (0x0303, "Texture data upload failed"),
   (0x0304, "Mipmap generation failed"),
   (0x0305, "Invalid texture boundary mode"),
   (0x0306, "Texture size exceeds hardware limit"),
   (0x0307, "Texture array layers exceeded"),
   (0x0308, "No available texture image units"),
   (0x0309, "Texture unit not bound to valid texture"),
   (0x030A, "Texture unit bound to unexpected texture ID"),
   (0x0401, "Buffer allocation failed"),
   (0x0402, "Buffer memory mapping failed"),
   (0x0403, "Buffer binding failed"),
   (0x0404, "Buffer write overflow"),
   (0x0405, "Invalid buffer access range"),
   (0x0501, "Pipeline state object creation failed"),
   (0x0502, "Invalid pipeline state configuration"),
   (0x0503, "Invalid blend state"),
   (0x0504, "Invalid depth/stencil state"),
   (0x0505, "Invalid vertex input layout"),
   (0x0601, "Framebuffer incomplete"),
   (0x0602, "Invalid framebuffer attachment"),
   (0x0603, "MRT not supported"),
   (0x0604, "Framebuffer sample count mismatch"),
   (0x0701, "Sync object creation failed"),
   (0x0702, "Sync wait timeout"),
   (0x0703, "Query object creation failed"),
   (0x0704, "Query result not ready"),
   (0x0801, "Resource still in use by GPU"),
   (0x0802, "Resource binding conflict"),
   (0x0803, "Invalid resource state transition"),
   (0x0901, "Driver internal error"),
   (0x0902, "Driver version too old"),
   (0x0903, "Required extension not supported"),
   (0x0A01, "Model load failed")]

def error_codes : Category → List (UInt16 × String)
  | .utils => utils_error_codes
  | .graphics => graphics_error_codes

/-- The `case` labels of a `switch` are distinct. -/
theorem error_codes_nodup (c : Category) : (c.error_codes.map Prod.fst).Nodup := by
  cases c <;> decide

end Category

/-- `(errc)ev`: the enumeration has 16 bits. -/
def errcOf (ev : Int32) : UInt16 := ev.toUInt32.toUInt16

/-- The `switch` of `message`. -/
def fallback (c : Category) (ev : Int32) : String :=
  ((Keyed.find Prod.fst c.error_codes (errcOf ev)).map Prod.snd).getD
    "Invalid error, illegal out-of-bounds"

/-- `utils::error_category::message`; `global_i18n_loader()` is `loader`. -/
def utils_message (loader : I18NLoader) (ev : Int32) : String :=
  let (i18n_ec, localized) := loader.find (Category.moduleId .utils) ev.toUInt32
  if !localized.isEmpty && i18n_ec.isSet then localized else fallback .utils ev

/-- `graphics::error_category::message`. -/
def graphics_message (loader : I18NLoader) (ev : Int32) : String :=
  let (_, localized) := loader.find (Category.moduleId .graphics) ev.toUInt32
  if !localized.isEmpty then localized else fallback .graphics ev

def message : Category → I18NLoader → Int32 → String
  | .utils => utils_message
  | .graphics => graphics_message

/-! ## Lookup, then fallback -/

/-- What `find` has for a code of the category. -/
def localized (c : Category) (loader : I18NLoader) (ev : Int32) : String :=
  (loader.find c.moduleId ev.toUInt32).2

/-- `message` is the text `find` gives, and the fallback where that is empty. -/
def FollowsRule (c : Category) (loader : I18NLoader) (ev : Int32) : Prop :=
  message c loader ev =
    if (localized c loader ev).isEmpty then fallback c ev else localized c loader ev

variable {c : Category} {loader : I18NLoader} {ev : Int32}

/-- `find` leaves `i18n_ec` clear, so the localised branch is dead. -/
theorem utils_message_eq (loader : I18NLoader) (ev : Int32) :
    utils_message loader ev = fallback .utils ev := by
  have hec : (loader.find (Category.moduleId .utils) ev.toUInt32).1.isSet = false := by
    rw [I18NLoader.find_fst]
    rfl
  unfold utils_message
  simp only [hec, Bool.and_false]
  rfl

theorem graphics_message_eq (loader : I18NLoader) (ev : Int32) :
    graphics_message loader ev =
      if (localized .graphics loader ev).isEmpty then fallback .graphics ev
      else localized .graphics loader ev := by
  unfold graphics_message localized
  obtain ⟨_, text⟩ := loader.find (Category.moduleId .graphics) ev.toUInt32
  cases htext : text.isEmpty <;> simp [htext]

/-- With a package loaded, `graphics` gives the package's message where that is not empty. -/
theorem graphics_message_loaded {fs : Files} {file_path : String}
    (h : (I18NLoader.new fs file_path).2.loaded = true) :
    ∃ doc, fs.load file_path = .ok (.object doc) ∧ ∀ ev,
      graphics_message (I18NLoader.new fs file_path).2 ev =
        let text := (packageMessage doc "graphics" ev.toUInt32).getD ""
        if text.isEmpty then fallback .graphics ev else text := by
  obtain ⟨doc, hdoc, hfind⟩ := I18NLoader.find_loaded h
  refine ⟨doc, hdoc, fun ev => ?_⟩
  have htext : localized .graphics (I18NLoader.new fs file_path).2 ev =
      (packageMessage doc "graphics" ev.toUInt32).getD "" := hfind "graphics" ev.toUInt32
  rw [graphics_message_eq, htext]

/-- A category localises its messages unless it is `utils` and the package has one that is
not the fallback. -/
theorem message_followsRule_iff (c : Category) (loader : I18NLoader) (ev : Int32) :
    FollowsRule c loader ev ↔
      c = .graphics ∨ localized c loader ev = "" ∨ localized c loader ev = fallback c ev := by
  cases c with
  | graphics => exact iff_of_true (graphics_message_eq loader ev) (.inl rfl)
  | utils =>
    have hu : message .utils loader ev = fallback .utils ev := utils_message_eq loader ev
    unfold FollowsRule
    rw [hu]
    by_cases hempty : localized .utils loader ev = ""
    · rw [hempty]
      exact iff_of_true rfl (.inr (.inl rfl))
    · rw [if_neg (by simpa using hempty)]
      constructor
      · intro h
        exact .inr (.inr h.symm)
      · rintro (h | h | h)
        · cases h
        · exact absurd h hempty
        · exact h.symm

/-- A language package in a file of its own. -/
def onePackage : FileSystem where
  is_there path := some (path == "error.json")
  load _ := .ok (.object [("submodules", .object [("utils", .string "实用工具模块")]),
    ("utils", .object [("0x0016", .string "参数错误"), ("0x00FF", .string "未知错误")])])

/-- `errc::invalid_argument` keeps its English text. -/
theorem invalid_argument_not_localised :
    ∃ loader, global_i18n_loader onePackage ["error.json"] = some loader ∧
      loader.loaded = true ∧ localized .utils loader 0x0016 = "参数错误" ∧
      message .utils loader 0x0016 = "Invalid argument" ∧ ¬FollowsRule .utils loader 0x0016 := by
  refine ⟨(I18NLoader.new onePackage.files "error.json").2, rfl, ?_⟩
  unfold FollowsRule
  decide

end LearnNotes.Utils
