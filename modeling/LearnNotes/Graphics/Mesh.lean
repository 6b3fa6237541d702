import LearnNotes.Graphics.Texture
import LearnNotes.Memory.Manager

/-!
# `Mesh2D::Draw`

`mesh.cpp`: the textures of a mesh are activated in list order, the diffuse and the
specular ones numbered from 1 into the shader's uniforms, and the elements are drawn.
The vertices and the two buffer names play no part in `Draw`.
-/

namespace LearnNotes.Graphics

open Memory

/-- `Mesh2D::impl`. -/
structure MeshImpl where
  indices : List UInt32
  textures : List Handle
  VAO : GLuint

structure Mesh2D where
  res : Option MeshImpl

/-- The values `set1I` wrote. -/
abbrev Uniforms := String → Option Nat

/-- A `glDrawElements`, with the texture bindings and the uniforms it draws with. -/
structure DrawCall where
  VAO : GLuint
  count : Nat
  binding : Nat → GLuint
  uniforms : Uniforms

/-- The locals of the loop, and what it has written. -/
structure Drawing (F : Type) where
  diffuseNr : UInt32
  specularNr : UInt32
  uniforms : Uniforms
  statics : Statics F

namespace Mesh2D

variable {F : Type}

def diffuseName (k : Nat) : String := "material.diffuse" ++ toString k

def specularName (k : Nat) : String := "material.specular" ++ toString k

/-- The `set1I` of one texture. -/
def setUnit (t : Texture2D F) (d : Drawing F) : Drawing F :=
  if t.tex.name = "texture_diffuse" then
    { d with
      uniforms := Function.update d.uniforms (diffuseName d.diffuseNr.toNat) (some t.unitPos)
      diffuseNr := d.diffuseNr + 1 }
  else if t.tex.name = "texture_specular" then
    { d with
      uniforms := Function.update d.uniforms (specularName d.specularNr.toNat) (some t.unitPos)
      specularNr := d.specularNr + 1 }
  else d

@[simp] theorem setUnit_statics (t : Texture2D F) (d : Drawing F) :
    (setUnit t d).statics = d.statics := by
  unfold setUnit
  split_ifs <;> rfl

/-- The loop over the handles; `get` is `TextureMgr().get`. -/
def drawTextures (get : Handle → Option (Texture2D F)) :
    List Handle → Drawing F → Option errc × Drawing F
  | [], d => (none, d)
  | h :: hs, d =>
    match get h with
    | none => (some .invalid_argument, d)
    | some sp =>
      match sp.activate d.statics with
      | (some e, s) => (some e, { d with statics := s })
      | (none, s) => drawTextures get hs (setUnit sp { d with statics := s })

/-- `Draw(ec, shader)`: the error, the elements drawn and the shared state. The last
`glActiveTexture` goes to GL and not through `TextureUnit`. -/
def Draw (get : Handle → Option (Texture2D F)) (m : Mesh2D) (s : Statics F) :
    Option errc × Option DrawCall × Statics F :=
  match m.res with
  | none => (none, none, s)
  | some res =>
    match drawTextures get res.textures ⟨1, 1, fun _ => none, s⟩ with
    | (some e, d) => (some e, none, d.statics)
    | (none, d) =>
      (none, some ⟨res.VAO, res.indices.length, d.statics.gl.binding, d.uniforms⟩,
        { d.statics with gl := d.statics.gl.glActiveTexture 0 })

end Mesh2D

end LearnNotes.Graphics
