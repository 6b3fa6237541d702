import LearnNotes.Graphics.MeshWorld
import LearnNotes.Utils.Path

/-!
# `Model`

`model.hpp` and `model.cpp`. `load` reads a scene and walks its nodes, making a mesh of every
mesh reference; `_loadedTex` caches the handle of every texture it acquires from
`TextureMgr()` under its normal path. The destructor releases the cached handles that nobody
else has a pointer of. What Assimp, the image decoder and GL answer is the input of a load
(`LoadEnv`), and so is the order in which an `unordered_map` is gone through (`Iteration`).
A mesh stands for what its resource holds, the GL objects left out: copies share the resource,
and nothing here writes to it. `R` stands for `float`.
-/

namespace LearnNotes.Graphics

open Lib Memory ResourceManager Utils

/-! ## Scenes -/

def aiProcess_CalcTangentSpace : UInt32 := 0x1
def aiProcess_Triangulate : UInt32 := 0x8
def aiProcess_GenSmoothNormals : UInt32 := 0x40
def aiProcess_FlipUVs : UInt32 := 0x800000

/-- The texture types `Model` asks for. -/
inductive aiTextureType where
  | DIFFUSE
  | SPECULAR
  deriving DecidableEq

structure aiVector3D (R : Type) where
  x : R
  y : R
  z : R

/-- The textures of each type; `none` where `GetTexture` fails. -/
structure aiMaterial where
  textures : aiTextureType → List (Option String)

structure aiMesh (R : Type) (materials : Nat) where
  mVertices : List (aiVector3D R)
  /-- Set where `HasNormals()`. -/
  mNormals : Option (List (aiVector3D R))
  /-- Set where `HasTextureCoords(0)`. -/
  mTextureCoords0 : Option (List (aiVector3D R))
  mFaces : List (List UInt32)
  mMaterialIndex : Fin materials

/-- A node, with the indices of its meshes. -/
inductive aiNode (meshes : Nat) where
  | node (mMeshes : List (Fin meshes)) (mChildren : List (aiNode meshes))

/-- What `ReadFile` returns: every index in it is one of the scene's. -/
structure aiScene (R : Type) where
  incomplete : Bool
  {materials : Nat}
  {meshes : Nat}
  mMaterials : Vector aiMaterial materials
  mMeshes : Vector (aiMesh R materials) meshes
  mRootNode : Option (aiNode meshes)

/-! ## Meshes and models -/

/-- `glm::vec3`; a component nothing was assigned to is `none`. -/
structure vec3 (R : Type) where
  x : Option R := none
  y : Option R := none
  z : Option R := none

structure Vertex (R : Type) where
  position : vec3 R := {}
  normal : vec3 R := {}
  texcoords : vec3 R := {}

/-- What a `Mesh2D` of a model holds. -/
structure MeshData (R : Type) where
  _vertices : List (Vertex R)
  _indices : List UInt32
  _textures : List Handle

structure Model (R : Type) where
  _meshes : List (MeshData R) := []
  _path : String := ""
  _loadedTex : List (String × Handle) := []

/-- The `graphics::errc` values of `Model`. -/
inductive ModelErr where
  | model_load_failed
  | texture_creation_failed
  deriving DecidableEq, Repr

/-- `TextureMgr()` and what its textures share. -/
structure TexStore (F : Type) where
  mgr : TextureMgr F
  statics : Statics F

/-- The answers a load gets. -/
structure LoadEnv (R : Type) where
  ReadFile : String → UInt32 → Option (aiScene R)
  /-- What `stbi_load` decodes. -/
  image : String → Option Image
  /-- The name `glGenTextures` returns to the object at `p`. -/
  texName : Ptr → GLuint

/-- A load under way. -/
structure Loading (F R : Type) where
  _meshes : List (MeshData R)
  _loadedTex : List (String × Handle)
  store : TexStore F

variable {F R : Type} {materials meshes : Nat}

/-! ## Textures -/

namespace TexStore

/-- `acquire()`; the texture gets the GL name `n`. -/
def acquire (n : GLuint) (s : TexStore F) : Option Handle × TexStore F :=
  let (t, statics) := Texture2D.new none n s.statics
  let (h, mgr) := s.mgr.acquire (some t) some
  (h, ⟨mgr, statics⟩)

/-- The object at `p`, written through a pointer to it. -/
def write (p : Ptr) (tex : Texture2D F) (s : TexStore F) : TexStore F :=
  { s with mgr := { s.mgr with heap := s.mgr.heap.set p tex } }

/-- `release(h, ec)` where the last pointer to `tex` goes with it. -/
def drop (h : Handle) (tex : Texture2D F) (s : TexStore F) : TexStore F :=
  ⟨(s.mgr.release h none).2, tex.destroy s.statics⟩

end TexStore

/-- The chain of calls on a texture that was loaded. -/
def configure (typeName : String) (tex : Texture2D F) (statics : Statics F) :
    Option errc × Texture2D F × Statics F :=
  let tex := { tex with tex := { tex.tex with name := typeName } }
  let statics := tex.bind statics
  let tex := tex.set_config1 GL_TEXTURE_WRAP_S (.I1 GL_REPEAT)
  let tex := tex.set_config1 GL_TEXTURE_WRAP_T (.I1 GL_REPEAT)
  let tex := tex.set_config1 GL_TEXTURE_MIN_FILTER (.I1 GL_LINEAR_MIPMAP_LINEAR)
  let tex := tex.set_config1 GL_TEXTURE_MAG_FILTER (.I1 GL_LINEAR)
  let (tex, statics) := tex.update statics
  tex.acquire SIZE_T_MAX statics

/-- The part of `loadMaterialTextures` that makes a new texture; no handle where it fails. -/
def loadTexture (env : LoadEnv R) (fullpath typeName : String) (s : TexStore F) :
    Option Handle × TexStore F :=
  let (h, s) := s.acquire (env.texName s.mgr.heap.length)
  match h with
  | none => (none, s)
  | some h =>
    match s.mgr.get h, textureAt s.mgr h with
    | some p, some tex =>
      match tex.load { texpath := fullpath } (env.image fullpath) s.statics with
      | (some _, tex, statics) => (none, { s with statics := statics }.drop h tex)
      | (none, tex, statics) =>
        match configure typeName tex statics with
        | (some _, tex, statics) => (none, { s with statics := statics }.drop h tex)
        | (none, tex, statics) => (some h, { s with statics := statics }.write p tex)
    | _, _ => (none, s)

namespace Loading

/-- One texture reference: the cached handle, or that of a new texture. -/
def loadRef (env : LoadEnv R) (_path typeName : String) (ref : Option String)
    (s : Loading F R) : Except ModelErr Handle × Loading F R :=
  match ref with
  | none => (.error .model_load_failed, s)
  | some str =>
    let fullpath := path_append (parent_path _path) str
    let key := lexically_normal fullpath
    match s._loadedTex.lookup key with
    | some h => (.ok h, s)
    | none =>
      match loadTexture env fullpath typeName s.store with
      | (none, store) => (.error .texture_creation_failed, { s with store := store })
      | (some h, store) =>
        (.ok h, { s with _loadedTex := s._loadedTex ++ [(key, h)], store := store })

/-- The loop of `loadMaterialTextures`: the error, the handles so far and the state. -/
def loadRefs (env : LoadEnv R) (_path typeName : String) : List (Option String) →
    Loading F R → Option ModelErr × List Handle × Loading F R
  | [], s => (none, [], s)
  | ref :: refs, s =>
    match s.loadRef env _path typeName ref with
    | (.error e, s) => (some e, [], s)
    | (.ok h, s) =>
      let (ec, hs, s) := loadRefs env _path typeName refs s
      (ec, h :: hs, s)

def loadMaterialTextures (env : LoadEnv R) (_path : String) (mat : aiMaterial)
    (type : aiTextureType) (typeName : String) (s : Loading F R) :
    Option ModelErr × List Handle × Loading F R :=
  s.loadRefs env _path typeName (mat.textures type)

end Loading

/-! ## Meshes -/

/-- The vertex of index `i`, at position `v`. -/
def vertexOf [Zero R] (mesh : aiMesh R materials) (i : Nat) (v : aiVector3D R) : Vertex R where
  position := ⟨some v.x, some v.y, some v.z⟩
  normal :=
    match mesh.mNormals.bind (·[i]?) with
    | some n => ⟨some n.x, some n.y, some n.z⟩
    | none => {}
  texcoords :=
    match mesh.mTextureCoords0 with
    | some coords => { x := coords[i]?.map (·.x), y := coords[i]?.map (·.y) }
    | none => ⟨some 0, some 0, some 0⟩

def verticesOf [Zero R] (mesh : aiMesh R materials) : List (Vertex R) :=
  mesh.mVertices.mapIdx (vertexOf mesh)

def indicesOf (mesh : aiMesh R materials) : List UInt32 := mesh.mFaces.flatten

namespace Loading

variable [Zero R]

/-- `mMaterialIndex` is unsigned, so the test for a material always holds. -/
def processMesh (env : LoadEnv R) (_path : String) (mMaterials : Vector aiMaterial materials)
    (mesh : aiMesh R materials) (s : Loading F R) :
    Option ModelErr × MeshData R × Loading F R :=
  let material := mMaterials[mesh.mMaterialIndex]
  let made textures := ⟨verticesOf mesh, indicesOf mesh, textures⟩
  match s.loadMaterialTextures env _path material .DIFFUSE "texture_diffuse" with
  | (some e, _, s) => (some e, made [], s)
  | (none, diffuseMaps, s) =>
    match s.loadMaterialTextures env _path material .SPECULAR "texture_specular" with
    | (some e, _, s) => (some e, made diffuseMaps, s)
    | (none, specularMaps, s) => (none, made (diffuseMaps ++ specularMaps), s)

variable (scene : aiScene R)

/-- The loop over the meshes of a node. -/
def processMeshes (env : LoadEnv R) (_path : String) : List (Fin scene.meshes) →
    Loading F R → Option ModelErr × Loading F R
  | [], s => (none, s)
  | i :: mMeshes, s =>
    match s.processMesh env _path scene.mMaterials scene.mMeshes[i] with
    | (some e, _, s) => (some e, s)
    | (none, res, s) =>
      processMeshes env _path mMeshes { s with _meshes := s._meshes ++ [res] }

mutual

def processNode (env : LoadEnv R) (_path : String) : aiNode scene.meshes → Loading F R →
    Option ModelErr × Loading F R
  | .node mMeshes mChildren, s =>
    match s.processMeshes scene env _path mMeshes with
    | (some e, s) => (some e, s)
    | (none, s) => processChildren env _path mChildren s

/-- The loop over the children of a node. -/
def processChildren (env : LoadEnv R) (_path : String) : List (aiNode scene.meshes) →
    Loading F R → Option ModelErr × Loading F R
  | [], s => (none, s)
  | child :: mChildren, s =>
    match processNode env _path child s with
    | (some e, s) => (some e, s)
    | (none, s) => processChildren env _path mChildren s

end

end Loading

/-! ## Models -/

/-- The order in which an `unordered_map` is gone through. -/
structure Iteration where
  order : List (String × Handle) → List (String × Handle)
  perm : ∀ l, (order l).Perm l

/-- `wp.use_count()`: the pointer in the slot, and the `held h` pointers others have. -/
def useCount (mgr : TextureMgr F) (held : Handle → Nat) (h : Handle) : Nat :=
  if mgr.is_valid h then held h + 1 else 0

namespace TexStore

/-- `release(h, inner)`; the texture goes with its last pointer. -/
def release (h : Handle) (s : TexStore F) : Option Errc × TexStore F :=
  match s.mgr.release h none with
  | (some e, mgr) => (some e, { s with mgr := mgr })
  | (none, mgr) =>
    (none, ⟨mgr, ((textureAt s.mgr h).map fun tex => tex.destroy s.statics).getD s.statics⟩)

/-- The loop of `releaseOwnedTextures`, with the keys it collects. -/
def releaseEach (held : Handle → Nat) : List (String × Handle) → TexStore F →
    List String × TexStore F
  | [], s => ([], s)
  | (key, h) :: entries, s =>
    if useCount s.mgr held h ≤ 1 then
      match s.release h with
      | (some _, s) => releaseEach held entries s
      | (none, s) =>
        let (toErase, s) := releaseEach held entries s
        (key :: toErase, s)
    else releaseEach held entries s

end TexStore

namespace Model

section

variable [Zero R]

def postProcessFlags (flipUVs : Bool) : UInt32 :=
  let flags := aiProcess_Triangulate ||| aiProcess_GenSmoothNormals ||| aiProcess_CalcTangentSpace
  if flipUVs then flags ||| aiProcess_FlipUVs else flags

/-- The root node `ReadFile` gives, if the scene is complete and has one. -/
def rootOf (scene : Option (aiScene R)) :
    Option ((scene : aiScene R) × aiNode scene.meshes) :=
  scene.bind fun scene => if scene.incomplete then none else scene.mRootNode.map (⟨scene, ·⟩)

/-- `load(ec, flipUVs)`: both containers are cleared first. -/
def load (env : LoadEnv R) (flipUVs : Bool) (m : Model R) (store : TexStore F) :
    Option ModelErr × Model R × TexStore F :=
  match rootOf (env.ReadFile m._path (postProcessFlags flipUVs)) with
  | none => (some .model_load_failed, { m with _meshes := [], _loadedTex := [] }, store)
  | some ⟨scene, root⟩ =>
    let (ec, s) := (⟨[], [], store⟩ : Loading F R).processNode scene env m._path root
    (ec, { m with _meshes := s._meshes, _loadedTex := s._loadedTex }, s.store)

/-- `load(ec, path, flipUVs)`, and the constructor on a `Model` with nothing in it. -/
def loadPath (env : LoadEnv R) (path : String) (flipUVs : Bool) (m : Model R)
    (store : TexStore F) : Option ModelErr × Model R × TexStore F :=
  { m with _path := path }.load env flipUVs store

end

def releaseOwnedTextures (held : Handle → Nat) (it : Iteration) (m : Model R)
    (store : TexStore F) : Model R × TexStore F :=
  let (toErase, store) := store.releaseEach held (it.order m._loadedTex)
  ({ m with _loadedTex := m._loadedTex.filter fun e => e.1 ∉ toErase }, store)

/-- The destructor. -/
def destroy (held : Handle → Nat) (it : Iteration) (m : Model R) (store : TexStore F) :
    TexStore F := (m.releaseOwnedTextures held it store).2

/-- Every texture handle stored in the meshes. -/
def handles (m : Model R) : List Handle := m._meshes.flatMap (·._textures)

/-- The handles of `_loadedTex`. -/
def owned (m : Model R) : List Handle := m._loadedTex.map (·.2)

end Model

end LearnNotes.Graphics
