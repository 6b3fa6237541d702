import LearnNotes.Lib.Ledger
import LearnNotes.Lib.Objects
import LearnNotes.Graphics.Mesh

/-!
# Runs over many meshes

`mesh.hpp` and `mesh.cpp`: a `Mesh2D` is a `std::shared_ptr` to a resource with the vertices,
the texture handles and the names of its three GL objects. A resource is its place in `heap`;
`uses` is the `use_count` of the pointers to it. Copies share the resource, moves hand it on,
and the destructor deletes the GL objects of whatever resource it has. `meshes` serves any
sequence of these operations and of `setTex` and `setTexHandle` over any number of meshes;
`TextureMgr()` serves them alone.
-/

namespace LearnNotes.Graphics

open Lib Memory

/-! ## GL objects -/

/-- The three names of a mesh. -/
inductive BufferKind where
  | VAO
  | VBO
  | EBO
  deriving DecidableEq

/-- GL names vertex arrays and buffers apart. -/
inductive GLName where
  | vertexArray (n : GLuint)
  | buffer (n : GLuint)
  deriving DecidableEq

structure Primitive where
  VAO : GLuint
  VBO : GLuint
  EBO : GLuint
  deriving DecidableEq

namespace Primitive

def name (p : Primitive) : BufferKind → GLName
  | .VAO => .vertexArray p.VAO
  | .VBO => .buffer p.VBO
  | .EBO => .buffer p.EBO

/-- What `glGenVertexArrays` and `glGenBuffers` can return: names that are not 0 and not in
use. -/
def Fresh (p : Primitive) (gl : Ledger GLName) : Prop :=
  p.VAO ≠ 0 ∧ p.VBO ≠ 0 ∧ p.EBO ≠ 0 ∧ p.VBO ≠ p.EBO ∧ ∀ k, p.name k ∉ gl.live

instance (p : Primitive) (gl : Ledger GLName) : Decidable (p.Fresh gl) :=
  decidable_of_iff (p.VAO ≠ 0 ∧ p.VBO ≠ 0 ∧ p.EBO ≠ 0 ∧ p.VBO ≠ p.EBO ∧
      p.name .VAO ∉ gl.live ∧ p.name .VBO ∉ gl.live ∧ p.name .EBO ∉ gl.live) <| by
    unfold Fresh
    refine and_congr_right' (and_congr_right' (and_congr_right' (and_congr_right' ?_)))
    constructor
    · rintro ⟨h1, h2, h3⟩ (_ | _ | _) <;> assumption
    · exact fun h => ⟨h .VAO, h .VBO, h .EBO⟩

/-- The names `init()` generates. -/
def gen (p : Primitive) (gl : Ledger GLName) : Ledger GLName :=
  .create (p.name .EBO) :: .create (p.name .VBO) :: .create (p.name .VAO) :: gl

/-- `glDeleteVertexArrays` and the two `glDeleteBuffers`. -/
def delete (p : Primitive) (gl : Ledger GLName) : Ledger GLName :=
  .delete (p.name .EBO) :: .delete (p.name .VBO) :: .delete (p.name .VAO) :: gl

end Primitive

/-! ## The resource of a mesh -/

/-- `Mesh2D::impl`. -/
structure MeshRes (V : Type) where
  _vertices : List V
  _indices : List UInt32
  _textures : List Handle
  _primitives : Primitive

/-- `Mesh2D`: the pointer to its resource. -/
structure SharedMesh where
  _res : Option Nat
  deriving DecidableEq

/-- `TextureMgr()`. -/
abbrev TextureMgr (F : Type) := ResourceManager (Texture2D F)

variable {F V : Type}

/-- The texture a handle stands for. -/
def textureAt (mgr : TextureMgr F) (h : Handle) : Option (Texture2D F) :=
  (mgr.get h).bind fun p => mgr.heap[p]?

/-- `acquire([&tex](auto &t) { t = std::move(tex); })`: the default-constructed `t` gets all
of `tex`. -/
def acquireTexture (t tex : Texture2D F) (mgr : TextureMgr F) : Option Handle × TextureMgr F :=
  mgr.acquire (some t) fun _ => some tex

/-- The loop of the constructor from raw textures. -/
def acquireTextures (t : Texture2D F) : List (Texture2D F) → TextureMgr F →
    List Handle × TextureMgr F
  | [], mgr => ([], mgr)
  | tex :: texs, mgr =>
    let (h, mgr) := acquireTexture t tex mgr
    let (hs, mgr) := acquireTextures t texs mgr
    (h.toList ++ hs, mgr)

/-- The texture of the handle has the name. -/
def hasName (mgr : TextureMgr F) (TexName : String) (hh : Handle) : Bool :=
  (textureAt mgr hh).any fun sp => sp.tex.name = TexName

namespace MeshRes

/-- `setTex(ec, tex, policy)`; `t` is the object `acquire` constructs. -/
def setTex (t tex : Texture2D F) (policy : UpdateMode) (res : MeshRes V) (mgr : TextureMgr F) :
    Option errc × MeshRes V × TextureMgr F :=
  if policy ≠ .append ∧ policy ≠ .remove then (some .invalid_argument, res, mgr)
  else
    let TexName := tex.tex.name
    let (h, mgr) := acquireTexture t tex mgr
    if policy = .append then
      (none, { res with _textures := res._textures ++ h.toList }, mgr)
    else
      (none, { res with _textures := res._textures.eraseP (hasName mgr TexName) }, mgr)

/-- The loop of the vector form. -/
def setTexEach (t : Texture2D F) (policy : UpdateMode) : List (Texture2D F) → MeshRes V →
    TextureMgr F → Option errc × MeshRes V × TextureMgr F
  | [], res, mgr => (none, res, mgr)
  | tex :: texs, res, mgr =>
    match res.setTex t tex policy mgr with
    | (some e, res, mgr) => (some e, res, mgr)
    | (none, res, mgr) => setTexEach t policy texs res mgr

/-- `setTex(ec, vector, policy)`. -/
def setTexs (t : Texture2D F) (texs : List (Texture2D F)) (policy : UpdateMode)
    (res : MeshRes V) (mgr : TextureMgr F) : Option errc × MeshRes V × TextureMgr F :=
  if policy ≠ .append ∧ policy ≠ .remove then (some .invalid_argument, res, mgr)
  else setTexEach t policy texs res mgr

/-- `setTexHandle(ec, h, policy)`. -/
def setTexHandle (h : Handle) (policy : UpdateMode) (res : MeshRes V) (mgr : TextureMgr F) :
    Option errc × MeshRes V × TextureMgr F :=
  if policy ≠ .append ∧ policy ≠ .remove then (some .invalid_argument, res, mgr)
  else if policy = .append then (none, { res with _textures := res._textures ++ [h] }, mgr)
  else (none, { res with _textures := res._textures.erase h }, mgr)

end MeshRes

/-! ## Many meshes -/

structure MeshWorld (F V : Type) where
  objs : Objects SharedMesh
  heap : List (MeshRes V)
  mgr : TextureMgr F
  gl : Ledger GLName

/-- Operations on the meshes. `names` are what GL generates in `init()`; `t` is the texture
`make_shared` constructs in `acquire`. -/
inductive MeshOp (F V : Type) where
  | construct (vertices : List V) (indices : List UInt32) (t : Texture2D F)
      (textures : List (Texture2D F)) (names : Primitive)
  | constructHandles (vertices : List V) (indices : List UInt32) (textures : List Handle)
      (names : Primitive)
  | setTex (i : Nat) (t tex : Texture2D F) (policy : UpdateMode)
  | setTexs (i : Nat) (t : Texture2D F) (texs : List (Texture2D F)) (policy : UpdateMode)
  | setTexHandle (i : Nat) (h : Handle) (policy : UpdateMode)
  | copyConstruct (src : Nat)
  | copyAssign (dst src : Nat)
  | moveConstruct (src : Nat)
  | moveAssign (dst src : Nat)
  | destroy (i : Nat)

namespace MeshWorld

/-- `_res.use_count()` of the resource at `r`. -/
def uses (objs : Objects SharedMesh) (r : Nat) : Nat := objs.count fun m => m._res = some r

/-- The resource of the live mesh `i`, and its place. -/
def resource (w : MeshWorld F V) (i : Nat) : Option (Nat × MeshRes V) :=
  (w.objs.live i).bind fun m => m._res.bind fun r => w.heap[r]?.map (r, ·)

def construct (vertices : List V) (indices : List UInt32) (t : Texture2D F)
    (textures : List (Texture2D F)) (names : Primitive) (w : MeshWorld F V) : MeshWorld F V :=
  if names.Fresh w.gl then
    let (hs, mgr) := acquireTextures t textures w.mgr
    { objs := w.objs.push ⟨some w.heap.length⟩
      heap := w.heap ++ [⟨vertices, indices, hs, names⟩]
      mgr := mgr
      gl := names.gen w.gl }
  else w

def constructHandles (vertices : List V) (indices : List UInt32) (textures : List Handle)
    (names : Primitive) (w : MeshWorld F V) : MeshWorld F V :=
  if names.Fresh w.gl then
    { w with
      objs := w.objs.push ⟨some w.heap.length⟩
      heap := w.heap ++ [⟨vertices, indices, textures, names⟩]
      gl := names.gen w.gl }
  else w

/-- A member function that changes the textures of mesh `i`; a mesh without a resource has
none to call it on. -/
def call (i : Nat) (f : MeshRes V → TextureMgr F → Option errc × MeshRes V × TextureMgr F)
    (w : MeshWorld F V) : Option errc × MeshWorld F V :=
  match w.resource i with
  | none => (none, w)
  | some (r, res) =>
    let (ec, res, mgr) := f res w.mgr
    (ec, { w with heap := w.heap.set r res, mgr := mgr })

def copyConstruct (src : Nat) (w : MeshWorld F V) : MeshWorld F V :=
  match w.objs.live src with
  | none => w
  | some other => { w with objs := w.objs.push other }

def copyAssign (dst src : Nat) (w : MeshWorld F V) : MeshWorld F V :=
  match w.objs.live dst, w.objs.live src with
  | some _, some other => { w with objs := w.objs.put dst (some other) }
  | _, _ => w

def moveConstruct (src : Nat) (w : MeshWorld F V) : MeshWorld F V :=
  match w.objs.live src with
  | none => w
  | some other => { w with objs := (w.objs.put src (some ⟨none⟩)).push other }

def moveAssign (dst src : Nat) (w : MeshWorld F V) : MeshWorld F V :=
  match w.objs.live dst, w.objs.live src with
  | some _, some other =>
    if dst = src then w
    else { w with objs := (w.objs.put dst (some other)).put src (some ⟨none⟩) }
  | _, _ => w

/-- `~Mesh2D`, and the end of the object. -/
def destroy (i : Nat) (w : MeshWorld F V) : MeshWorld F V :=
  match w.objs.live i with
  | none => w
  | some _ =>
    let gl :=
      match w.resource i with
      | none => w.gl
      | some (_, res) => res._primitives.delete w.gl
    { w with objs := w.objs.put i none, gl := gl }

/-- The mesh as `Draw` sees it. -/
def view (w : MeshWorld F V) (i : Nat) : Mesh2D :=
  ⟨(w.resource i).map fun p => ⟨p.2._indices, p.2._textures, p.2._primitives.VAO⟩⟩

/-! ## Counting owners -/

variable {objs : Objects SharedMesh} {i r : Nat} {m : SharedMesh} {res : MeshRes V}
  {w : MeshWorld F V}

/-- What a mesh adds to `use_count`. -/
def unit (m : SharedMesh) (r : Nat) : Nat := if m._res = some r then 1 else 0

theorem unit_none (r : Nat) : unit ⟨none⟩ r = 0 := rfl

theorem unit_self (r : Nat) : unit ⟨some r⟩ r = 1 := by simp [unit]

theorem unit_other {r' : Nat} (h : r' ≠ r) : unit ⟨some r⟩ r' = 0 := by
  simp [unit, Ne.symm h]

theorem uses_push (m : SharedMesh) (r : Nat) : uses (objs.push m) r = uses objs r + unit m r := by
  simp [uses, unit]

theorem uses_put (h : objs.live i = some m) (m' : SharedMesh) (r : Nat) :
    uses (objs.put i (some m')) r + unit m r = uses objs r + unit m' r := by
  have := Objects.count_put (p := fun m : SharedMesh => m._res = some r) h (some m')
  simpa [uses, unit] using this

theorem uses_kill (h : objs.live i = some m) (r : Nat) :
    uses (objs.put i none) r + unit m r = uses objs r := by
  have := Objects.count_put (p := fun m : SharedMesh => m._res = some r) h none
  simpa [uses, unit] using this

theorem unit_le_uses (h : objs.live i = some m) (r : Nat) : unit m r ≤ uses objs r := by
  have := uses_kill h r
  omega

/-- Two meshes add up. -/
theorem units_le_uses {j : Nat} {m' : SharedMesh} (h : objs.live i = some m)
    (h' : objs.live j = some m') (hne : i ≠ j) (r : Nat) : unit m r + unit m' r ≤ uses objs r := by
  have hj : (objs.put i none).live j = some m' := by
    rw [Objects.live_put h, Function.update_of_ne (Ne.symm hne), h']
  have h1 := uses_kill h r
  have h2 := unit_le_uses hj r
  omega

theorem uses_pos_iff : 0 < uses objs r ↔ ∃ i, objs.live i = some ⟨some r⟩ := by
  unfold uses
  rw [Objects.count_pos_iff]
  refine exists_congr fun i => ⟨?_, fun h => ⟨_, h, by simp⟩⟩
  rintro ⟨⟨res⟩, h, hr⟩
  obtain rfl : res = some r := by simpa using hr
  exact h

/-! ### What the assignments do to the count -/

section Assign

variable {dst src : Nat} {other : SharedMesh}

theorem unit_le_one (m : SharedMesh) (r : Nat) : unit m r ≤ 1 := by
  unfold unit
  split <;> omega

theorem unit_pos (h : 0 < unit m r) : m._res = some r := by
  by_contra hne
  simp [unit, hne] at h

/-- What an assignment over `m` does to the use of `r`, by the sum of its uses. -/
theorem used_of_sum {before after gained : Nat} (hsum : after + unit m r = before + gained)
    (hgained : gained ≤ before) :
    (0 < after → 0 < before) ∧
      ((m._res = some r → 1 < before) → (0 < after ↔ 0 < before)) := by
  have hle := unit_le_one m r
  have hpos := unit_pos (m := m) (r := r)
  refine ⟨fun h => by omega, fun hg => ⟨fun h => by omega, fun h => ?_⟩⟩
  by_cases h1 : 0 < unit m r
  · have := hg (hpos h1)
    omega
  · omega

/-- A copy over a mesh: nothing comes into use, and nothing that has a second owner goes out
of it. -/
theorem uses_copy (hd : objs.live dst = some m) (hs : objs.live src = some other) (r : Nat) :
    (0 < uses (objs.put dst (some other)) r → 0 < uses objs r) ∧
      ((m._res = some r → 1 < uses objs r) →
        (0 < uses (objs.put dst (some other)) r ↔ 0 < uses objs r)) := by
  exact used_of_sum (uses_put hd other r) (unit_le_uses hs r)

/-- The source of a move has given up its pointer. -/
theorem uses_moved (hne : dst ≠ src) (hd : objs.live dst = some m)
    (hs : objs.live src = some other) (r : Nat) :
    uses ((objs.put dst (some other)).put src (some ⟨none⟩)) r + unit other r + unit m r =
      uses objs r + unit other r := by
  have hs' : (objs.put dst (some other)).live src = some other := by
    rw [Objects.live_put hd, Function.update_of_ne (Ne.symm hne), hs]
  have h1 := uses_put hd other r
  have h2 := uses_put hs' ⟨none⟩ r
  rw [unit_none] at h2
  omega

theorem uses_move (hne : dst ≠ src) (hd : objs.live dst = some m)
    (hs : objs.live src = some other) (r : Nat) :
    (0 < uses ((objs.put dst (some other)).put src (some ⟨none⟩)) r → 0 < uses objs r) ∧
      ((m._res = some r → 1 < uses objs r) →
        (0 < uses ((objs.put dst (some other)).put src (some ⟨none⟩)) r ↔ 0 < uses objs r)) := by
  have hmoved := uses_moved hne hd hs r
  exact used_of_sum (by omega) (Nat.zero_le _)

/-- The last owner is assigned to. -/
theorem uses_copy_last (hne : dst ≠ src) (hd : objs.live dst = some ⟨some r⟩)
    (hs : objs.live src = some other) (hone : uses objs r ≤ 1) :
    uses (objs.put dst (some other)) r = 0 := by
  have hput := uses_put hd other r
  have htwo := units_le_uses hd hs hne r
  rw [unit_self] at hput htwo
  omega

theorem uses_move_last (hne : dst ≠ src) (hd : objs.live dst = some ⟨some r⟩)
    (hs : objs.live src = some other) (hone : uses objs r ≤ 1) :
    uses ((objs.put dst (some other)).put src (some ⟨none⟩)) r = 0 := by
  have hmoved := uses_moved hne hd hs r
  rw [unit_self] at hmoved
  omega

end Assign

theorem resource_eq_some :
    w.resource i = some (r, res) ↔ w.objs.live i = some ⟨some r⟩ ∧ w.heap[r]? = some res := by
  unfold resource
  constructor
  · intro h
    obtain ⟨⟨_ | r'⟩, hm, h⟩ := Option.bind_eq_some_iff.mp h
    · cases h
    · obtain ⟨res', hres, he⟩ := Option.map_eq_some_iff.mp h
      cases he
      exact ⟨hm, hres⟩
  · rintro ⟨hm, hres⟩
    simp [hm, hres]

end MeshWorld

/-- All the meshes of a program; the answer is the error code of `setTex`. -/
def meshes (F V : Type) : Machine (MeshWorld F V) (MeshOp F V) (Option errc) where
  init := ⟨⟨[]⟩, [], .new, []⟩
  step w
    | .construct vertices indices t textures names =>
      (none, w.construct vertices indices t textures names)
    | .constructHandles vertices indices textures names =>
      (none, w.constructHandles vertices indices textures names)
    | .setTex i t tex policy => w.call i fun res mgr => res.setTex t tex policy mgr
    | .setTexs i t texs policy => w.call i fun res mgr => res.setTexs t texs policy mgr
    | .setTexHandle i h policy => w.call i fun res mgr => res.setTexHandle h policy mgr
    | .copyConstruct src => (none, w.copyConstruct src)
    | .copyAssign dst src => (none, w.copyAssign dst src)
    | .moveConstruct src => (none, w.moveConstruct src)
    | .moveAssign dst src => (none, w.moveAssign dst src)
    | .destroy i => (none, w.destroy i)

end LearnNotes.Graphics
