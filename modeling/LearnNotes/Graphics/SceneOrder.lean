import LearnNotes.Graphics.ModelWorld

/-!
# The order of a scene

`preorder` lists the mesh references of a node in the order `load` comes to them, and
`textureLoads` the texture references of a mesh. `processNode_eq`: the walk over the nodes is the
loop over `preorder`. `Walks` are stretches of it in which every texture load succeeds, and
`load_preorder` says what `load` leaves where all do, and where one fails first.
-/

namespace LearnNotes.Graphics

open Lib Memory ResourceManager Utils

variable {F R : Type}

section

variable {meshes : Nat}

mutual

/-- The mesh references of a node, its own before its children's. -/
def preorder : aiNode meshes → List (Fin meshes)
  | .node mMeshes mChildren => mMeshes ++ preorderAll mChildren

def preorderAll : List (aiNode meshes) → List (Fin meshes)
  | [] => []
  | child :: mChildren => preorder child ++ preorderAll mChildren

end

end

/-- The texture references of a mesh in the order they are loaded, with the name its texture is to
have. -/
def textureLoads (scene : aiScene R) (i : Fin scene.meshes) : List (String × Option String) :=
  let material := scene.mMaterials.get (scene.mMeshes.get i).mMaterialIndex
  (material.textures .DIFFUSE).map ("texture_diffuse", ·) ++
    (material.textures .SPECULAR).map ("texture_specular", ·)

namespace Loading

variable (env : LoadEnv R) (_path : String)

/-- The texture loads `refs` all succeed, with the handles `hs`. -/
inductive Loads : List (String × Option String) → Loading F R → List Handle → Loading F R → Prop
  | nil (s : Loading F R) : Loads [] s [] s
  | cons {typeName : String} {ref : Option String} {refs : List (String × Option String)}
      {s s₁ s' : Loading F R} {h : Handle} {hs : List Handle} :
      s.loadRef env _path typeName ref = (.ok h, s₁) → Loads refs s₁ hs s' →
      Loads ((typeName, ref) :: refs) s (h :: hs) s'

/-- Of the texture loads `refs` one fails, and the first that does leaves `e` and the state `s'`. -/
inductive Fails : List (String × Option String) → Loading F R → ModelErr → Loading F R → Prop
  | here {typeName : String} {ref : Option String} {refs : List (String × Option String)}
      {s s' : Loading F R} {e : ModelErr} :
      s.loadRef env _path typeName ref = (.error e, s') → Fails ((typeName, ref) :: refs) s e s'
  | later {typeName : String} {ref : Option String} {refs : List (String × Option String)}
      {s s₁ s' : Loading F R} {h : Handle} {e : ModelErr} :
      s.loadRef env _path typeName ref = (.ok h, s₁) → Fails refs s₁ e s' →
      Fails ((typeName, ref) :: refs) s e s'

variable [Zero R] (scene : aiScene R)

/-- The meshes `is` are made, each after its texture loads, none of which fails. -/
inductive Walks : List (Fin scene.meshes) → Loading F R → Loading F R → Prop
  | nil (s : Loading F R) : Walks [] s s
  | cons {i : Fin scene.meshes} {is : List (Fin scene.meshes)} {s s₁ s' : Loading F R}
      {hs : List Handle} : Loads env _path (textureLoads scene i) s hs s₁ →
      Walks is { s₁ with _meshes := s₁._meshes ++
        [⟨verticesOf (scene.mMeshes.get i), indicesOf (scene.mMeshes.get i), hs⟩] } s' →
      Walks (i :: is) s s'

/-! ## Texture loads in a row -/

variable {env _path scene}

section

omit [Zero R]

variable {refs refs' : List (String × Option String)} {s s₁ s' : Loading F R} {hs : List Handle}
  {e : ModelErr} {typeName : String}

theorem loads_or_fails (env : LoadEnv R) (_path : String) (refs : List (String × Option String))
    (s : Loading F R) :
    (∃ hs s', Loads env _path refs s hs s') ∨ ∃ e s', Fails env _path refs s e s' := by
  induction refs generalizing s with
  | nil => exact .inl ⟨[], s, .nil s⟩
  | cons load refs ih =>
    obtain ⟨t, ref⟩ := load
    rcases href : s.loadRef env _path t ref with ⟨e | h, s₁⟩
    · exact .inr ⟨e, s₁, .here href⟩
    · rcases ih s₁ with ⟨hs, s', hloads⟩ | ⟨e, s', hfails⟩
      · exact .inl ⟨h :: hs, s', .cons href hloads⟩
      · exact .inr ⟨e, s', .later href hfails⟩

theorem Loads.split (h : Loads env _path (refs ++ refs') s hs s') :
    ∃ hs₁ s₁ hs₂, Loads env _path refs s hs₁ s₁ ∧ Loads env _path refs' s₁ hs₂ s' ∧
      hs = hs₁ ++ hs₂ := by
  induction refs generalizing s hs with
  | nil => exact ⟨[], s, hs, .nil s, h, rfl⟩
  | cons load refs ih =>
    cases h with
    | cons href hrest =>
      obtain ⟨hs₁, s₂, hs₂, hloads, hloads', rfl⟩ := ih hrest
      exact ⟨_, s₂, hs₂, .cons href hloads, hloads', rfl⟩

theorem Fails.split (h : Fails env _path (refs ++ refs') s e s') :
    Fails env _path refs s e s' ∨
      ∃ hs s₁, Loads env _path refs s hs s₁ ∧ Fails env _path refs' s₁ e s' := by
  induction refs generalizing s with
  | nil => exact .inr ⟨[], s, .nil s, h⟩
  | cons load refs ih =>
    cases h with
    | here href => exact .inl (.here href)
    | later href hrest =>
      rcases ih hrest with hfails | ⟨hs, s₁, hloads, hfails⟩
      · exact .inl (.later href hfails)
      · exact .inr ⟨_, s₁, .cons href hloads, hfails⟩

theorem loadRefs_of_loads {refs : List (Option String)}
    (h : Loads env _path (refs.map (typeName, ·)) s hs s') :
    s.loadRefs env _path typeName refs = (none, hs, s') := by
  induction refs generalizing s hs with
  | nil =>
    cases h
    rfl
  | cons ref refs ih =>
    cases h with
    | cons href hrest =>
      unfold loadRefs
      rw [href]
      simp only [ih hrest]

theorem loadRefs_of_fails {refs : List (Option String)}
    (h : Fails env _path (refs.map (typeName, ·)) s e s') :
    ∃ hs, s.loadRefs env _path typeName refs = (some e, hs, s') := by
  induction refs generalizing s with
  | nil => cases h
  | cons ref refs ih =>
    unfold loadRefs
    cases h with
    | here href =>
      rw [href]
      exact ⟨[], rfl⟩
    | later href hrest =>
      obtain ⟨hs, heq⟩ := ih hrest
      rw [href]
      simp only [heq]
      exact ⟨_, rfl⟩

/-- A texture load makes no mesh. -/
theorem meshes_loadRef (env : LoadEnv R) (_path typeName : String) (ref : Option String)
    (s : Loading F R) :
    (s.loadRef env _path typeName ref).2._meshes = s._meshes := by
  unfold loadRef
  cases ref with
  | none => rfl
  | some str =>
    dsimp only
    split
    · rfl
    · split <;> rfl

theorem Loads.meshes (h : Loads env _path refs s hs s') : s'._meshes = s._meshes := by
  induction h with
  | nil => rfl
  | @cons t ref _ s _ _ _ _ href _ ih =>
    have hmeshes := meshes_loadRef env _path t ref s
    rw [href] at hmeshes
    exact ih.trans hmeshes

theorem Fails.meshes (h : Fails env _path refs s e s') : s'._meshes = s._meshes := by
  induction h with
  | @here t ref _ s _ _ href =>
    have hmeshes := meshes_loadRef env _path t ref s
    rwa [href] at hmeshes
  | @later t ref _ s _ _ _ _ href _ ih =>
    have hmeshes := meshes_loadRef env _path t ref s
    rw [href] at hmeshes
    exact ih.trans hmeshes

end

/-! ## Meshes in a row -/

section

variable {i : Fin scene.meshes} {is : List (Fin scene.meshes)} {s s₁ s' : Loading F R}
  {hs : List Handle} {e : ModelErr}

theorem processMesh_of_loads (h : Loads env _path (textureLoads scene i) s hs s') :
    s.processMesh env _path scene.mMaterials (scene.mMeshes.get i) =
      (none, ⟨verticesOf (scene.mMeshes.get i), indicesOf (scene.mMeshes.get i), hs⟩, s') := by
  obtain ⟨hs₁, s₁, hs₂, hdiffuse, hspecular, rfl⟩ := h.split
  have hd := loadRefs_of_loads hdiffuse
  have hsp := loadRefs_of_loads hspecular
  unfold processMesh loadMaterialTextures
  simp only [Vector.get_eq_getElem, Fin.getElem_fin] at hd hsp ⊢
  simp only [hd, hsp]

theorem processMesh_of_fails (h : Fails env _path (textureLoads scene i) s e s') :
    ∃ res, s.processMesh env _path scene.mMaterials (scene.mMeshes.get i) = (some e, res, s') := by
  unfold processMesh loadMaterialTextures
  simp only [Vector.get_eq_getElem, Fin.getElem_fin]
  rcases h.split with hdiffuse | ⟨hs, s₁, hdiffuse, hspecular⟩
  · obtain ⟨hs, hd⟩ := loadRefs_of_fails hdiffuse
    simp only [Vector.get_eq_getElem] at hd
    simp only [hd]
    exact ⟨_, rfl⟩
  · have hd := loadRefs_of_loads hdiffuse
    obtain ⟨hs', hsp⟩ := loadRefs_of_fails hspecular
    simp only [Vector.get_eq_getElem] at hd hsp
    simp only [hd, hsp]
    exact ⟨_, rfl⟩

/-- **No texture load fails**: the loop goes through. -/
theorem processMeshes_of_walks (h : Walks env _path scene is s s') :
    s.processMeshes scene env _path is = (none, s') := by
  induction h with
  | nil s => rfl
  | @cons i _ s _ _ _ hloads _ ih =>
    have hmesh : s.processMesh env _path scene.mMaterials scene.mMeshes[i] = _ :=
      processMesh_of_loads hloads
    unfold processMeshes
    rw [hmesh]
    exact ih

/-- **The first that fails** is one of mesh `i`: the loop ends there. -/
theorem processMeshes_of_fails (h : Walks env _path scene is s s₁)
    (hf : Fails env _path (textureLoads scene i) s₁ e s') (post : List (Fin scene.meshes)) :
    s.processMeshes scene env _path (is ++ i :: post) = (some e, s') := by
  induction h with
  | nil s =>
    obtain ⟨res, heq⟩ : ∃ res, s.processMesh env _path scene.mMaterials scene.mMeshes[i] =
      (some e, res, s') := processMesh_of_fails hf
    rw [List.nil_append]
    unfold processMeshes
    rw [heq]
  | @cons j _ s _ _ _ hloads _ ih =>
    have hmesh : s.processMesh env _path scene.mMaterials scene.mMeshes[j] = _ :=
      processMesh_of_loads hloads
    rw [List.cons_append]
    unfold processMeshes
    rw [hmesh]
    exact ih hf

theorem walks_or_fails (is : List (Fin scene.meshes)) (s : Loading F R) :
    (∃ s', Walks env _path scene is s s') ∨ ∃ pre i post s₁ e s', is = pre ++ i :: post ∧
      Walks env _path scene pre s s₁ ∧ Fails env _path (textureLoads scene i) s₁ e s' := by
  induction is generalizing s with
  | nil => exact .inl ⟨s, .nil s⟩
  | cons i is ih =>
    rcases loads_or_fails env _path (textureLoads scene i) s with
      ⟨hs, s₁, hloads⟩ | ⟨e, s', hfails⟩
    · rcases ih { s₁ with _meshes := s₁._meshes ++
        [⟨verticesOf (scene.mMeshes.get i), indicesOf (scene.mMeshes.get i), hs⟩] } with
        ⟨s', hwalks⟩ | ⟨pre, j, post, s₂, e, s', rfl, hwalks, hfails⟩
      · exact .inl ⟨s', .cons hloads hwalks⟩
      · exact .inr ⟨i :: pre, j, post, s₂, e, s', rfl, .cons hloads hwalks, hfails⟩
    · exact .inr ⟨[], i, is, s, e, s', rfl, .nil s, hfails⟩

/-- The mesh made of the scene's `i`: a vertex for each of its own, the indices of its faces. -/
structure MeshOf (scene : aiScene R) (i : Fin scene.meshes) (mesh : MeshData R) : Prop where
  count : mesh._vertices.length = (scene.mMeshes.get i).mVertices.length
  vertices : mesh._vertices = verticesOf (scene.mMeshes.get i)
  indices : mesh._indices = (scene.mMeshes.get i).mFaces.flatten

theorem Walks.meshes (h : Walks env _path scene is s s') :
    ∃ made, s'._meshes = s._meshes ++ made ∧ List.Forall₂ (MeshOf scene) is made := by
  induction h with
  | nil s => exact ⟨[], (List.append_nil _).symm, .nil⟩
  | @cons i _ s s₁ _ hs hloads _ ih =>
    obtain ⟨made, hmade, hall⟩ := ih
    refine ⟨⟨verticesOf (scene.mMeshes.get i), indicesOf (scene.mMeshes.get i), hs⟩ :: made, ?_,
      .cons ⟨List.length_mapIdx, rfl, rfl⟩ hall⟩
    rw [hmade]
    show s₁._meshes ++ [_] ++ made = _
    rw [hloads.meshes, List.append_assoc, List.singleton_append]

end

/-! ## Nodes -/

theorem processMeshes_append (is is' : List (Fin scene.meshes)) (s : Loading F R) :
    s.processMeshes scene env _path (is ++ is') =
      match s.processMeshes scene env _path is with
      | (some e, s) => (some e, s)
      | (none, s) => s.processMeshes scene env _path is' := by
  induction is generalizing s with
  | nil => rfl
  | cons i is ih =>
    simp only [List.cons_append, processMeshes]
    rcases s.processMesh env _path scene.mMaterials scene.mMeshes[i] with ⟨_ | e, res, s₁⟩
    · exact ih _
    · rfl

mutual

/-- **The walk is the loop over `preorder`.** -/
theorem processNode_eq (node : aiNode scene.meshes) (s : Loading F R) :
    s.processNode scene env _path node = s.processMeshes scene env _path (preorder node) := by
  cases node with
  | node mMeshes mChildren =>
    unfold processNode preorder
    rw [processMeshes_append]
    rcases s.processMeshes scene env _path mMeshes with ⟨_ | e, s₁⟩
    · exact processChildren_eq mChildren s₁
    · rfl

theorem processChildren_eq (mChildren : List (aiNode scene.meshes)) (s : Loading F R) :
    s.processChildren scene env _path mChildren =
      s.processMeshes scene env _path (preorderAll mChildren) := by
  cases mChildren with
  | nil => rfl
  | cons child mChildren =>
    unfold processChildren preorderAll
    rw [processMeshes_append, ← processNode_eq child s]
    rcases s.processNode scene env _path child with ⟨_ | e, s₁⟩
    · exact processChildren_eq mChildren s₁
    · rfl

end

end Loading

/-! ## Whole loads -/

section

variable [Zero R] {env : LoadEnv R} {flipUVs : Bool} {m : Model R} {store : TexStore F}
  {scene : aiScene R} {root : aiNode scene.meshes}

theorem load_of_root
    (hroot : Model.rootOf (env.ReadFile m._path (Model.postProcessFlags flipUVs)) =
      some ⟨scene, root⟩) :
    m.load env flipUVs store =
      let r := (⟨[], [], store⟩ : Loading F R).processMeshes scene env m._path (preorder root)
      (r.1, { m with _meshes := r.2._meshes, _loadedTex := r.2._loadedTex }, r.2.store) := by
  unfold Model.load
  rw [hroot]
  simp only [Loading.processNode_eq]

/-- **Scene flattening.** If no texture load fails, the meshes are those of the references in
`preorder`. If one fails, and the first that does belongs to the reference after `pre`, the error
is set, the meshes are those of `pre`, and the rest is as that texture load left it. One of the two
is the case. -/
theorem load_preorder (env : LoadEnv R) (flipUVs : Bool) (m : Model R) (store : TexStore F)
    (scene : aiScene R) (root : aiNode scene.meshes)
    (hroot : Model.rootOf (env.ReadFile m._path (Model.postProcessFlags flipUVs)) =
      some ⟨scene, root⟩) :
    let s₀ : Loading F R := ⟨[], [], store⟩
    let (ec, m', store') := m.load env flipUVs store
    (∀ s', Loading.Walks env m._path scene (preorder root) s₀ s' →
      ec = none ∧ List.Forall₂ (Loading.MeshOf scene) (preorder root) m'._meshes ∧
        m'._loadedTex = s'._loadedTex ∧ store' = s'.store) ∧
    (∀ pre i post s₁ e s', preorder root = pre ++ i :: post →
      Loading.Walks env m._path scene pre s₀ s₁ →
      Loading.Fails env m._path (textureLoads scene i) s₁ e s' →
      ec = some e ∧ List.Forall₂ (Loading.MeshOf scene) pre m'._meshes ∧
        m'._loadedTex = s'._loadedTex ∧ store' = s'.store) ∧
    ((∃ s', Loading.Walks env m._path scene (preorder root) s₀ s') ∨
      ∃ pre i post s₁ e s', preorder root = pre ++ i :: post ∧
        Loading.Walks env m._path scene pre s₀ s₁ ∧
        Loading.Fails env m._path (textureLoads scene i) s₁ e s') := by
  intro s₀
  rw [load_of_root hroot]
  refine ⟨fun s' hwalks => ?_, fun pre i post s₁ e s' hsplit hwalks hfails => ?_,
    Loading.walks_or_fails _ _⟩
  · have hrun := Loading.processMeshes_of_walks hwalks
    obtain ⟨made, hmade, hall⟩ := hwalks.meshes
    rw [hrun]
    exact ⟨rfl, hmade ▸ hall, rfl, rfl⟩
  · have hrun := Loading.processMeshes_of_fails hwalks hfails post
    obtain ⟨made, hmade, hall⟩ := hwalks.meshes
    rw [hsplit, hrun]
    exact ⟨rfl, by rw [hfails.meshes, hmade]; exact hall, rfl, rfl⟩

end

/-- A mesh of its own, and two children with both. -/
def childrenRoot : aiNode 2 :=
  .node [Fin.last 1] [.node (List.finRange 2) [], .node (List.finRange 2) []]

/-- The first mesh names a texture that is not there. -/
def twoChildren : aiScene Nat where
  incomplete := false
  mMaterials := #v[⟨fun _ => [none]⟩, ⟨fun _ => []⟩]
  mMeshes := #v[⟨[], none, none, [], (Fin.last 0).castSucc⟩,
    ⟨[⟨0, 0, 0⟩], none, none, [[0, 0, 0]], Fin.last 1⟩]
  mRootNode := some childrenRoot

/-- The mesh of the root is made, those of its children are not. -/
theorem load_preorder_twoChildren :
    let env := { oneTextureEnv with ReadFile := fun _ _ => some twoChildren }
    let r := ({} : Model Nat).load env false emptyStore
    r.1 = some .model_load_failed ∧ r.2.1._meshes.length = 1 := by
  intro env r
  obtain ⟨-, hfirst, -⟩ := load_preorder env false ({} : Model Nat) emptyStore twoChildren
    childrenRoot rfl
  have hwalks : Loading.Walks env "" twoChildren [Fin.last 1]
      (⟨[], [], emptyStore⟩ : Loading Nat Nat)
      ⟨[⟨verticesOf twoChildren.mMeshes[1], [0, 0, 0], []⟩], [], emptyStore⟩ :=
    .cons (.nil _) (.nil _)
  obtain ⟨hec, hmeshes, -⟩ := hfirst [Fin.last 1] (0 : Fin 2)
    [(1 : Fin 2), (0 : Fin 2), (1 : Fin 2)] _ .model_load_failed _ rfl hwalks (.here rfl)
  exact ⟨hec, hmeshes.length_eq.symm⟩

end LearnNotes.Graphics
