import LearnNotes.Graphics.Config

/-!
# `Texture2D`, `TextureUnit` and the GL state they drive

`texture.hpp` and `texture.cpp`. GL is an active texture unit, a `GL_TEXTURE_2D`
binding for every unit, the texture names in use, and what each texture holds. A
`Texture2D` method reads and writes its own fields, the unit table and the bind
cache (`Statics`), and GL. `texture_t::data` is left out: it is null outside `load`.
`Texture2D::release` is declared and never defined.
-/

namespace LearnNotes.Graphics

def SIZE_T_MAX : Nat := 2 ^ 64 - 1

def GL_FALSE : GLenum := 0
def GL_UNSIGNED_BYTE : GLenum := 0x1401
def GL_FLOAT : GLenum := 0x1406
def GL_RED : GLint := 0x1903
def GL_RG : GLint := 0x8227
def GL_RGB : GLint := 0x1907
def GL_RGBA : GLint := 0x1908
def GL_R8 : GLint := 0x8229
def GL_RG8 : GLint := 0x822B
def GL_RGB8 : GLint := 0x8051
def GL_RGBA8 : GLint := 0x8058
def GL_TEXTURE_MAG_FILTER : GLenum := 0x2800
def GL_TEXTURE_MIN_FILTER : GLenum := 0x2801
def GL_TEXTURE_WRAP_S : GLenum := 0x2802
def GL_TEXTURE_WRAP_T : GLenum := 0x2803
def GL_LINEAR : GLint := 0x2601
def GL_NEAREST_MIPMAP_LINEAR : GLint := 0x2702
def GL_LINEAR_MIPMAP_LINEAR : GLint := 0x2703
def GL_REPEAT : GLint := 0x2901
def GL_CLAMP_TO_EDGE : GLint := 0x812F

/-- The `graphics::errc` values these functions report. -/
inductive errc where
  | invalid_argument
  | texture_creation_failed
  | texture_unit_exhausted
  | texture_unit_mismatch
  deriving DecidableEq, Repr

/-! ## GL -/

/-- What `stbi_load` and `stbi_loadf` return: the size, the channels and the pixels. -/
structure Image where
  width : GLint
  height : GLint
  nrChannels : GLint
  pixels : List Nat
  deriving DecidableEq

structure GLState (F : Type) where
  /-- Names `glGenTextures` returned that are not deleted. -/
  names : List GLuint
  /-- Names passed to `glDeleteTextures`, newest first. -/
  deleted : List GLuint
  /-- `glActiveTexture` selects unit `GL_TEXTURE0 + active`. -/
  active : Nat
  /-- The `GL_TEXTURE_2D` binding of each unit. -/
  binding : Nat → GLuint
  /-- What `glTexSubImage2D` last uploaded to each texture. -/
  image : GLuint → Option Image
  params : GLuint → Params F

namespace GLState

variable {F : Type}

/-- The texture the active unit's binding selects. -/
def bound (gl : GLState F) : GLuint := gl.binding gl.active

def glGenTextures (n : GLuint) (gl : GLState F) : GLState F := { gl with names := n :: gl.names }

/-- A deleted name is free again, and its bindings revert to 0. -/
def glDeleteTextures (n : GLuint) (gl : GLState F) : GLState F :=
  { gl with
    names := gl.names.filter (· != n)
    deleted := n :: gl.deleted
    binding := fun u => if gl.binding u = n then 0 else gl.binding u }

def glActiveTexture (pos : Nat) (gl : GLState F) : GLState F := { gl with active := pos }

def glBindTexture (n : GLuint) (gl : GLState F) : GLState F :=
  { gl with binding := Function.update gl.binding gl.active n }

/-- The upload; `glTexStorage2D` and `glGenerateMipmap` around it select the same texture. -/
def glTexSubImage2D (img : Image) (gl : GLState F) : GLState F :=
  { gl with image := Function.update gl.image gl.bound (some img) }

end GLState

/-! ## `TextureUnit` -/

structure TextureUnit where
  maxUnits : Nat
  activePos : Nat
  units : List GLuint

namespace TextureUnit

/-- The constructor, with what `glGetIntegerv` stored. -/
def new (maxUnits : Nat) : TextureUnit := ⟨maxUnits, SIZE_T_MAX, List.replicate maxUnits 0⟩

def unit (u : TextureUnit) (pos : Nat) : GLuint := u.units.getD pos 0

/-- `acquire(ec, TexID, pos)`: the error, the position returned and the table. -/
def acquire (TexID : GLuint) (pos : Nat) (u : TextureUnit) : Option errc × Nat × TextureUnit :=
  if pos ≠ SIZE_T_MAX then
    if pos ≥ u.maxUnits then (some .invalid_argument, pos, u)
    else if u.unit pos ≠ TexID ∨ u.unit pos ≠ 0 then (some .texture_unit_mismatch, pos, u)
    else (none, pos, { u with units := u.units.set pos TexID })
  else
    match u.units.findIdx? (· == 0) with
    | none => (some .texture_unit_exhausted, SIZE_T_MAX, u)
    | some it => (none, it, { u with units := u.units.set it TexID })

def release (pos : Nat) (u : TextureUnit) : Option errc × TextureUnit :=
  if pos ≥ u.maxUnits then (some .invalid_argument, u)
  else
    (none,
      { u with
        units := u.units.set pos 0
        activePos := if u.activePos = pos then SIZE_T_MAX else u.activePos })

def activate {F : Type} (pos : Nat) (u : TextureUnit) (gl : GLState F) :
    Option errc × TextureUnit × GLState F :=
  if pos ≥ u.maxUnits then (some .invalid_argument, u, gl)
  else if u.activePos = pos ∨ u.unit pos = 0 then (none, u, gl)
  else (none, { u with activePos := pos }, gl.glActiveTexture pos)

end TextureUnit

/-! ## `Texture2D` -/

structure texture_t where
  ID : GLuint := 0
  width : GLint := 0
  height : GLint := 0
  nrChannels : GLint := 0
  mipLevels : GLint := 1
  type : GLenum := GL_FALSE
  intformat : GLint := GL_FALSE
  path : String := ""
  name : String := ""
  deriving DecidableEq

structure Texture2D (F : Type) where
  tex : texture_t
  cfgs : List (TexConfig F)
  dirty : Bool
  unitPos : Nat
  deriving DecidableEq

/-- The arguments of the path constructor. -/
structure PathArgs where
  texpath : String
  intformat : GLint := GL_FALSE
  type : GLenum := GL_UNSIGNED_BYTE
  mipLevels : GLint := 1

/-- The state `Texture2D` objects share: `TextureUnit::instance()`, `_bind_id` and GL. -/
structure Statics (F : Type) where
  unitMgr : TextureUnit
  bind_id : GLuint
  gl : GLState F

namespace Texture2D

variable {F : Type}

/-- Both constructors, with the name `n` from `glGenTextures`. -/
def new (args : Option PathArgs) (n : GLuint) (s : Statics F) : Texture2D F × Statics F :=
  let tex : texture_t :=
    match args with
    | none => {}
    | some a => { path := a.texpath, intformat := a.intformat, type := a.type,
                  mipLevels := a.mipLevels }
  (⟨{ tex with ID := n }, [], false, SIZE_T_MAX⟩, { s with gl := s.gl.glGenTextures n })

/-- What a move leaves behind: `std::exchange(other._tex, {})` and the cleared fields. -/
def movedFrom : Texture2D F := ⟨{}, [], false, SIZE_T_MAX⟩

/-- The destructor. -/
def destroy (t : Texture2D F) (s : Statics F) : Statics F :=
  let s :=
    if t.unitPos ≠ SIZE_T_MAX then
      { s with unitMgr := (s.unitMgr.release t.unitPos).2, gl := s.gl.glDeleteTextures t.tex.ID }
    else s
  if s.bind_id = t.tex.ID then { s with bind_id := 0 } else s

def getGLformat (channels : GLint) : GLint :=
  if channels = 1 then GL_RED else if channels = 2 then GL_RG
  else if channels = 3 then GL_RGB else GL_RGBA

def bind (t : Texture2D F) (s : Statics F) : Statics F :=
  if s.bind_id ≠ t.tex.ID then
    { s with gl := s.gl.glBindTexture t.tex.ID, bind_id := t.tex.ID }
  else s

/-- The `switch` that picks a sized format where the caller gave none. -/
def sizedFormat (intformat dataFormat : GLint) : GLint :=
  if intformat = GL_FALSE then
    if dataFormat = GL_RED then GL_R8 else if dataFormat = GL_RG then GL_RG8
    else if dataFormat = GL_RGB then GL_RGB8 else GL_RGBA8
  else intformat

/-- `load(ec, tex, …)`, with the image the decoder returned, if any. -/
def load (args : PathArgs) (img : Option Image) (t : Texture2D F) (s : Statics F) :
    Option errc × Texture2D F × Statics F :=
  let t := { t with tex := { t.tex with
    path := args.texpath, type := args.type, mipLevels := args.mipLevels } }
  if args.type ≠ GL_UNSIGNED_BYTE ∧ args.type ≠ GL_FLOAT then (some .invalid_argument, t, s)
  else
    match img with
    | none => (some .texture_creation_failed, t, s)
    | some img =>
      let t := { t with tex := { t.tex with
        width := img.width, height := img.height, nrChannels := img.nrChannels,
        intformat := sizedFormat args.intformat (getGLformat img.nrChannels) } }
      let s := t.bind s
      (none, t, { s with gl := s.gl.glTexSubImage2D img })

/-- `set_config(pname, value)`; `value` is the parameter its overload of `set` stores. -/
def set_config1 (pname : GLenum) (value : TexParam F) (t : Texture2D F) : Texture2D F :=
  { t with cfgs := t.cfgs ++ [⟨value, pname, false⟩] }

/-- `set_config(vector, policy)`; the `initializer_list` overload calls it. -/
def set_config [BEq F] (cfgs : List (TexConfig F)) (policy : UpdateMode)
    (t : Texture2D F) : Texture2D F :=
  if cfgs = [] then t
  else { t with cfgs := (switch_cfgs policy t.cfgs cfgs t.dirty).1, dirty := true }

/-- `update()` has something to send. -/
def needsUpdate (t : Texture2D F) : Prop := t.cfgs ≠ [] ∧ t.dirty = true

instance (t : Texture2D F) : Decidable t.needsUpdate :=
  decidable_of_iff (t.cfgs.isEmpty = false ∧ t.dirty = true) (by simp [needsUpdate])

/-- `update()` past its `bind()`: `params` are the values of the texture it sends to. -/
def sendConfig (t : Texture2D F) (params : Params F) : Texture2D F × Params F :=
  ({ t with cfgs := (flush t.cfgs params).1, dirty := false }, (flush t.cfgs params).2)

def update (t : Texture2D F) (s : Statics F) : Texture2D F × Statics F :=
  if t.needsUpdate then
    let s := t.bind s
    let (t, params) := t.sendConfig (s.gl.params s.gl.bound)
    (t, { s with gl := { s.gl with params := Function.update s.gl.params s.gl.bound params } })
  else (t, s)

def acquire (pos : Nat) (t : Texture2D F) (s : Statics F) :
    Option errc × Texture2D F × Statics F :=
  if t.unitPos = SIZE_T_MAX then
    match s.unitMgr.acquire t.tex.ID pos with
    | (some e, _, unitMgr) => (some e, t, { s with unitMgr := unitMgr })
    | (none, unitPos, unitMgr) =>
      (none, { t with unitPos := unitPos }, { s with unitMgr := unitMgr })
  else (none, t, s)

def activate (t : Texture2D F) (s : Statics F) : Option errc × Statics F :=
  match s.unitMgr.activate t.unitPos s.gl with
  | (some e, unitMgr, gl) => (some e, { s with unitMgr := unitMgr, gl := gl })
  | (none, unitMgr, gl) => (none, { s with unitMgr := unitMgr, gl := gl.glBindTexture t.tex.ID })

end Texture2D

end LearnNotes.Graphics
