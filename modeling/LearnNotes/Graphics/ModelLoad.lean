import LearnNotes.Graphics.Model
import LearnNotes.Memory.Valid

/-!
# What a load does to `TextureMgr()`

`TextureLoad` is what one attempt at a new texture can do. A load only adds handles, and
every handle it adds it caches: `Grows` says so of any stretch of it, and composes, so that
the walk over the scene is followed call by call. `load_spec` and `destroy_spec` are what the
runs over models need.
-/

namespace LearnNotes.Graphics

open Lib Memory ResourceManager Utils

variable {F R : Type}

/-! ## One texture -/

/-- What an attempt makes of the manager `m` and the handle `h` that `acquire` left. -/
inductive TextureLoad (m : TextureMgr F) (h : Option Handle) :
    Option Handle → TextureMgr F → Prop
  | unusable : (∀ h', h = some h' → textureAt m h' = none) → TextureLoad m h none m
  | failed {h' : Handle} : h = some h' → TextureLoad m h none (m.release h' none).2
  | loaded {h' : Handle} (heap : List (Texture2D F)) : h = some h' →
      TextureLoad m h (some h') { m with heap := heap }

theorem TextureLoad.length {m m' : TextureMgr F} {h r : Option Handle}
    (hl : TextureLoad m h r m') : m'.pool.length = m.pool.length := by
  cases hl with
  | unusable => rfl
  | failed => exact length_release _ _ m
  | loaded => rfl

theorem TextureLoad.spec {m m₁ m' : TextureMgr F} {h : Handle} {r : Option Handle}
    {x : Texture2D F} (hl : TextureLoad m₁ (some h) r m') (ha : Acquires m h x m₁)
    (hfit : Fits m₁) :
    PoolInv m' ∧ (∀ h', r = some h' → ¬ m.is_valid h') ∧
      ∀ h', m'.is_valid h' ↔ r = some h' ∨ m.is_valid h' := by
  have hat : textureAt m₁ h = some x := by
    simp [textureAt, ha.get, ha.heap]
  cases hl with
  | unusable hn =>
    rw [hn h rfl] at hat
    cases hat
  | failed hh =>
    cases hh
    have hv : m₁.is_valid h := ha.is_valid_iff.mpr (.inl rfl)
    obtain ⟨m', he, hr⟩ := exists_releases ha.inv hfit hv none
    rw [he]
    refine ⟨hr.inv, nofun, fun h' => ?_⟩
    rw [hr.is_valid_iff, ha.is_valid_iff]
    constructor
    · rintro ⟨hne, heq | hv'⟩
      · exact absurd heq hne
      · exact .inr hv'
    · rintro (hn | hv')
      · cases hn
      · exact ⟨fun heq => ha.not_valid (heq ▸ hv'), .inr hv'⟩
  | loaded heap hh =>
    cases hh
    refine ⟨ha.inv.of_heap heap, ?_, fun h' => ?_⟩
    · rintro _ ⟨⟩
      exact ha.not_valid
    · show m₁.is_valid h' ↔ _
      rw [ha.is_valid_iff, Option.some.injEq, @eq_comm _ h']

section

variable {env : LoadEnv R} {fullpath typeName : String} {s : TexStore F}

/-- The `acquire` of an attempt. -/
def acquired (env : LoadEnv R) (s : TexStore F) : Option Handle × TextureMgr F :=
  s.mgr.acquire (some (Texture2D.new none (env.texName s.mgr.heap.length) s.statics).1) some

theorem loadTexture_mgr : TextureLoad (acquired env s).2 (acquired env s).1
    (loadTexture env fullpath typeName s).1 (loadTexture env fullpath typeName s).2.mgr := by
  unfold loadTexture TexStore.acquire
  dsimp only
  rw [← acquired]
  generalize acquired env s = r
  obtain ⟨h, m⟩ := r
  cases h with
  | none => exact .unusable nofun
  | some h =>
    dsimp only
    cases hget : m.get h with
    | none =>
      refine .unusable fun h' hh => ?_
      cases hh
      rw [textureAt, hget]
      rfl
    | some p =>
      cases htex : textureAt m h with
      | none =>
        refine .unusable fun h' hh => ?_
        cases hh
        exact htex
      | some tex =>
        dsimp only
        split
        · exact .failed rfl
        · split
          · exact .failed rfl
          · exact .loaded _ rfl

theorem length_le_loadTexture :
    s.mgr.pool.length ≤ (loadTexture env fullpath typeName s).2.mgr.pool.length := by
  rw [loadTexture_mgr.length]
  exact length_le_acquire ..

/-- **One attempt**: a new handle that was not valid, or the handles of before. -/
theorem loadTexture_spec (hm : PoolInv s.mgr)
    (hfit : Fits (loadTexture env fullpath typeName s).2.mgr) :
    PoolInv (loadTexture env fullpath typeName s).2.mgr ∧
      (∀ h, (loadTexture env fullpath typeName s).1 = some h → ¬ s.mgr.is_valid h) ∧
      ∀ h', (loadTexture env fullpath typeName s).2.mgr.is_valid h' ↔
        (loadTexture env fullpath typeName s).1 = some h' ∨ s.mgr.is_valid h' := by
  have hload : TextureLoad (acquired env s).2 (acquired env s).1
    (loadTexture env fullpath typeName s).1 (loadTexture env fullpath typeName s).2.mgr :=
    loadTexture_mgr
  have hfit₁ : Fits (acquired env s).2 := by
    unfold Fits at hfit ⊢
    rwa [hload.length] at hfit
  have hfit₀ : Fits s.mgr := Nat.lt_of_le_of_lt (length_le_acquire ..) hfit₁
  obtain ⟨h, m₁, heq, ha⟩ := exists_acquires hm hfit₀
    (Texture2D.new none (env.texName s.mgr.heap.length) s.statics).1 id
  have hacq : acquired env s = (some h, m₁) := heq
  rw [hacq] at hload hfit₁
  exact hload.spec ha hfit₁

end

/-! ## Stretches of a load -/

namespace Loading

/-- The handles cached so far. -/
def cached (s : Loading F R) : List Handle := s._loadedTex.map (·.2)

/-- The valid handles are those of `V0`, from before the load, and the cached ones. -/
structure Balances (V0 : Handle → Prop) (s : Loading F R) : Prop where
  inv : PoolInv s.store.mgr
  valid : ∀ h, s.store.mgr.is_valid h ↔ V0 h ∨ h ∈ s.cached
  fresh : ∀ h ∈ s.cached, ¬ V0 h

/-- The meshes list cached handles. -/
def Lists (s : Loading F R) : Prop := ∀ mesh ∈ s._meshes, mesh._textures ⊆ s.cached

/-- From `s` to `s'` handles were only added, and cached. -/
structure Grows (s s' : Loading F R) : Prop where
  length : s.store.mgr.pool.length ≤ s'.store.mgr.pool.length
  cached : s.cached ⊆ s'.cached
  balances : Fits s'.store.mgr → ∀ V0, Balances V0 s → Balances V0 s'
  lists : s.Lists → s'.Lists

variable {s s' s'' : Loading F R}

theorem Grows.refl (s : Loading F R) : Grows s s :=
  ⟨Nat.le_refl _, List.Subset.refl _, fun _ _ h => h, id⟩

theorem Grows.trans (h : Grows s s') (h' : Grows s' s'') : Grows s s'' where
  length := Nat.le_trans h.length h'.length
  cached := List.Subset.trans h.cached h'.cached
  balances hfit V0 hb :=
    h'.balances hfit V0 (h.balances (Nat.lt_of_le_of_lt h'.length hfit) V0 hb)
  lists hl := h'.lists (h.lists hl)

/-- A mesh of cached handles is stored. -/
theorem Grows.store (s : Loading F R) {res : MeshData R} (hres : res._textures ⊆ s.cached) :
    Grows s { s with _meshes := s._meshes ++ [res] } where
  length := Nat.le_refl _
  cached := List.Subset.refl _
  balances _ _ hb := ⟨hb.inv, hb.valid, hb.fresh⟩
  lists hl mesh hmem := by
    rcases List.mem_append.mp hmem with hmem | hmem
    · exact hl mesh hmem
    · rw [List.mem_singleton.mp hmem]
      exact hres

/-- The state after an attempt at a new texture, whose handle is cached under `key`. -/
def attempted (env : LoadEnv R) (fullpath typeName key : String) (s : Loading F R) :
    Loading F R :=
  { s with
    _loadedTex := s._loadedTex ++
      ((loadTexture env fullpath typeName s.store).1.map (key, ·)).toList
    store := (loadTexture env fullpath typeName s.store).2 }

theorem cached_attempted (env : LoadEnv R) (fullpath typeName key : String) (s : Loading F R) :
    (s.attempted env fullpath typeName key).cached =
      s.cached ++ (loadTexture env fullpath typeName s.store).1.toList := by
  unfold attempted cached
  rw [List.map_append]
  congr 1
  cases (loadTexture env fullpath typeName s.store).1 <;> rfl

theorem grows_attempted (env : LoadEnv R) (fullpath typeName key : String) (s : Loading F R) :
    Grows s (s.attempted env fullpath typeName key) := by
  have hcached := cached_attempted env fullpath typeName key s
  have hsub : s.cached ⊆ (s.attempted env fullpath typeName key).cached := by
    rw [hcached]
    exact List.subset_append_left _ _
  refine ⟨length_le_loadTexture, hsub, fun hfit V0 hb => ?_, fun hl mesh hmem => ?_⟩
  · obtain ⟨hinv, hnew, hval⟩ := loadTexture_spec hb.inv hfit
    refine ⟨hinv, fun h => ?_, fun h hmem => ?_⟩
    · rw [hcached, List.mem_append, Option.mem_toList]
      refine (hval h).trans ?_
      rw [hb.valid h]
      tauto
    · rw [hcached, List.mem_append, Option.mem_toList] at hmem
      rcases hmem with hmem | hmem
      · exact hb.fresh h hmem
      · exact fun hV0 => hnew h hmem ((hb.valid h).mpr (.inl hV0))
  · exact List.Subset.trans (hl mesh hmem) hsub

/-! ## The walk -/

variable (env : LoadEnv R) (_path typeName : String)

theorem grows_loadRef (ref : Option String) (s : Loading F R) :
    Grows s (s.loadRef env _path typeName ref).2 ∧
      ∀ h, (s.loadRef env _path typeName ref).1 = .ok h →
        h ∈ (s.loadRef env _path typeName ref).2.cached := by
  unfold loadRef
  cases ref with
  | none => exact ⟨.refl s, nofun⟩
  | some str =>
    dsimp only
    split
    · next h hlookup =>
      refine ⟨.refl s, ?_⟩
      rintro _ ⟨⟩
      obtain ⟨l₁, l₂, hl, -⟩ := List.lookup_eq_some_iff.mp hlookup
      show h ∈ s._loadedTex.map (·.2)
      simp [hl]
    · generalize hfull : path_append (parent_path _path) str = fullpath
      have hgrows := grows_attempted env fullpath typeName (lexically_normal fullpath) s
      have hcached := cached_attempted env fullpath typeName (lexically_normal fullpath) s
      unfold attempted at hgrows hcached
      split
      · next store heq =>
        rw [heq] at hgrows
        exact ⟨by simpa using hgrows, nofun⟩
      · next h store heq =>
        rw [heq] at hgrows hcached
        refine ⟨hgrows, ?_⟩
        rintro _ ⟨⟩
        have hmem : h ∈ s.cached ++ (some h, store).1.toList :=
          List.mem_append_right _ (List.mem_singleton_self h)
        rw [← hcached] at hmem
        exact hmem

theorem grows_loadRefs (refs : List (Option String)) (s : Loading F R) :
    Grows s (s.loadRefs env _path typeName refs).2.2 ∧
      (s.loadRefs env _path typeName refs).2.1 ⊆
        (s.loadRefs env _path typeName refs).2.2.cached := by
  induction refs generalizing s with
  | nil => exact ⟨.refl s, List.nil_subset _⟩
  | cons ref refs ih =>
    obtain ⟨hgrows, hok⟩ := grows_loadRef env _path typeName ref s
    unfold loadRefs
    split
    · next e s₁ heq =>
      rw [heq] at hgrows
      exact ⟨hgrows, List.nil_subset _⟩
    · next h s₁ heq =>
      rw [heq] at hgrows hok
      obtain ⟨hgrows', hsub⟩ := ih s₁
      exact ⟨hgrows.trans hgrows', List.cons_subset.mpr ⟨hgrows'.cached (hok h rfl), hsub⟩⟩

variable [Zero R] {materials : Nat} (scene : aiScene R)

theorem grows_processMesh (mMaterials : Vector aiMaterial materials)
    (mesh : aiMesh R materials) (s : Loading F R) :
    Grows s (s.processMesh env _path mMaterials mesh).2.2 ∧
      (s.processMesh env _path mMaterials mesh).2.1._textures ⊆
        (s.processMesh env _path mMaterials mesh).2.2.cached := by
  unfold processMesh
  dsimp only
  obtain ⟨hgrows, hsub⟩ := grows_loadRefs env _path "texture_diffuse"
    (mMaterials[mesh.mMaterialIndex].textures .DIFFUSE) s
  split
  · next e hs s₁ heq =>
    rw [← loadMaterialTextures, heq] at hgrows
    exact ⟨hgrows, List.nil_subset _⟩
  · next diffuseMaps s₁ heq =>
    rw [← loadMaterialTextures, heq] at hgrows hsub
    obtain ⟨hgrows', hsub'⟩ := grows_loadRefs env _path "texture_specular"
      (mMaterials[mesh.mMaterialIndex].textures .SPECULAR) s₁
    split
    · next e hs s₂ heq' =>
      rw [← loadMaterialTextures, heq'] at hgrows'
      exact ⟨hgrows.trans hgrows', List.Subset.trans hsub hgrows'.cached⟩
    · next specularMaps s₂ heq' =>
      rw [← loadMaterialTextures, heq'] at hgrows' hsub'
      refine ⟨hgrows.trans hgrows', List.append_subset.mpr ⟨?_, hsub'⟩⟩
      exact List.Subset.trans hsub hgrows'.cached

theorem grows_processMeshes (mMeshes : List (Fin scene.meshes)) (s : Loading F R) :
    Grows s (s.processMeshes scene env _path mMeshes).2 := by
  induction mMeshes generalizing s with
  | nil => exact .refl s
  | cons i mMeshes ih =>
    obtain ⟨hgrows, hsub⟩ := grows_processMesh env _path scene.mMaterials scene.mMeshes[i] s
    unfold processMeshes
    split
    · next e res s₁ heq =>
      rw [heq] at hgrows
      exact hgrows
    · next res s₁ heq =>
      rw [heq] at hgrows hsub
      exact (hgrows.trans (.store s₁ hsub)).trans (ih _)

mutual

theorem grows_processNode (node : aiNode scene.meshes) (s : Loading F R) :
    Grows s (s.processNode scene env _path node).2 := by
  cases node with
  | node mMeshes mChildren =>
    have hgrows := grows_processMeshes env _path scene mMeshes s
    unfold processNode
    split
    · next e s₁ heq =>
      rw [heq] at hgrows
      exact hgrows
    · next s₁ heq =>
      rw [heq] at hgrows
      exact hgrows.trans (grows_processChildren mChildren s₁)

theorem grows_processChildren (mChildren : List (aiNode scene.meshes)) (s : Loading F R) :
    Grows s (s.processChildren scene env _path mChildren).2 := by
  cases mChildren with
  | nil => exact .refl s
  | cons child mChildren =>
    have hgrows := grows_processNode child s
    unfold processChildren
    split
    · next e s₁ heq =>
      rw [heq] at hgrows
      exact hgrows
    · next s₁ heq =>
      rw [heq] at hgrows
      exact hgrows.trans (grows_processChildren mChildren s₁)

end

end Loading

/-! ## Whole loads -/

/-- `m` was loaded from `store`, with `store'` left. -/
structure LoadedFrom (store : TexStore F) (m : Model R) (store' : TexStore F) : Prop where
  length : store.mgr.pool.length ≤ store'.mgr.pool.length
  inv : Fits store'.mgr → PoolInv store.mgr → PoolInv store'.mgr
  valid : Fits store'.mgr → PoolInv store.mgr → ∀ h,
    store'.mgr.is_valid h ↔ store.mgr.is_valid h ∨ h ∈ m.owned
  fresh : Fits store'.mgr → PoolInv store.mgr → ∀ h ∈ m.owned, ¬ store.mgr.is_valid h
  lists : m.handles ⊆ m.owned

/-- **Load**: the handles it adds are those it caches, whether it succeeds or not, and the
meshes list no others. -/
theorem load_spec [Zero R] (env : LoadEnv R) (flipUVs : Bool) (m : Model R)
    (store : TexStore F) :
    LoadedFrom store (m.load env flipUVs store).2.1 (m.load env flipUVs store).2.2 := by
  unfold Model.load
  split
  · exact ⟨Nat.le_refl _, fun _ hm => hm, fun _ _ h => by simp [Model.owned], fun _ _ => nofun,
      List.nil_subset _⟩
  · next scene root heq =>
    have hgrows := Loading.grows_processNode env m._path scene root ⟨[], [], store⟩
    have hstart : PoolInv store.mgr →
        Loading.Balances (store.mgr.is_valid ·) (⟨[], [], store⟩ : Loading F R) := fun hm =>
      ⟨hm, fun h => by simp [Loading.cached], nofun⟩
    refine ⟨hgrows.length, fun hfit hm => (hgrows.balances hfit _ (hstart hm)).inv,
      fun hfit hm => (hgrows.balances hfit _ (hstart hm)).valid,
      fun hfit hm => (hgrows.balances hfit _ (hstart hm)).fresh, fun h hmem => ?_⟩
    obtain ⟨mesh, hmesh, hh⟩ := List.mem_flatMap.mp hmem
    exact hgrows.lists (fun _ h => absurd h List.not_mem_nil) mesh hmesh hh

/-! ## Destructors -/

namespace TexStore

variable {s : TexStore F} {h : Handle} {held : Handle → Nat}

theorem release_valid (hm : PoolInv s.mgr) (hfit : Fits s.mgr) (hv : s.mgr.is_valid h) :
    (s.release h).1 = none ∧ Releases s.mgr h (s.release h).2.mgr := by
  obtain ⟨m', he, hr⟩ := exists_releases hm hfit hv none
  unfold TexStore.release
  rw [he]
  exact ⟨rfl, hr⟩

theorem release_invalid (hv : ¬ s.mgr.is_valid h) :
    ∃ e, s.release h = (some e, s) := by
  obtain ⟨e, he⟩ := release_of_not_valid hv
  refine ⟨e, ?_⟩
  unfold TexStore.release
  rw [he]

/-- A handle the destructor of a model comes upon. -/
theorem releaseEach_cons (held : Handle → Nat) (key : String) (h : Handle)
    (entries : List (String × Handle)) (s : TexStore F) :
    (s.releaseEach held ((key, h) :: entries)).2 =
      ((if useCount s.mgr held h ≤ 1 then (s.release h).2 else s).releaseEach held entries).2 := by
  conv_lhs => unfold releaseEach
  split_ifs
  · rcases s.release h with ⟨_ | e, s'⟩ <;> rfl
  · rfl

/-- What one entry does: the handle goes if it was valid and nobody else has its texture. -/
theorem release_entry (held : Handle → Nat) (hm : PoolInv s.mgr) (hfit : Fits s.mgr) :
    let s' := if useCount s.mgr held h ≤ 1 then (s.release h).2 else s
    PoolInv s'.mgr ∧ s'.mgr.pool.length = s.mgr.pool.length ∧
      ∀ h', s'.mgr.is_valid h' ↔ s.mgr.is_valid h' ∧ ¬ (held h' = 0 ∧ h' = h) := by
  intro s'
  have hsame : s' = s → ¬ (s.mgr.is_valid h ∧ held h = 0) → PoolInv s'.mgr ∧
      s'.mgr.pool.length = s.mgr.pool.length ∧
        ∀ h', s'.mgr.is_valid h' ↔ s.mgr.is_valid h' ∧ ¬ (held h' = 0 ∧ h' = h) := by
    rintro heq hno
    rw [heq]
    refine ⟨hm, rfl, fun h' => ⟨fun hv => ⟨hv, ?_⟩, And.left⟩⟩
    rintro ⟨h0, rfl⟩
    exact hno ⟨hv, h0⟩
  by_cases hv : s.mgr.is_valid h
  · by_cases h0 : held h = 0
    · have huse : useCount s.mgr held h ≤ 1 := by simp [useCount, hv, h0]
      have heq : s' = (s.release h).2 := if_pos huse
      obtain ⟨-, hr⟩ := release_valid hm hfit hv
      rw [heq]
      refine ⟨hr.inv, hr.length, fun h' => ?_⟩
      rw [hr.is_valid_iff]
      constructor
      · exact fun hv' => ⟨hv'.2, fun hh => hv'.1 hh.2⟩
      · rintro ⟨hv', hno⟩
        refine ⟨?_, hv'⟩
        rintro rfl
        exact hno ⟨h0, rfl⟩
    · have huse : ¬ useCount s.mgr held h ≤ 1 := by
        simp only [useCount, hv, if_true]
        omega
      exact hsame (if_neg huse) fun hh => h0 hh.2
  · obtain ⟨e, he⟩ := release_invalid hv
    have heq : s' = s := by
      show (if _ then (s.release h).2 else s) = s
      rw [he]
      exact ite_self s
    exact hsame heq fun hh => hv hh.1

/-- **The loop of `releaseOwnedTextures`.** -/
theorem releaseEach_spec (held : Handle → Nat) (entries : List (String × Handle))
    (hm : PoolInv s.mgr) (hfit : Fits s.mgr) :
    PoolInv (s.releaseEach held entries).2.mgr ∧
      (s.releaseEach held entries).2.mgr.pool.length = s.mgr.pool.length ∧
      ∀ h, (s.releaseEach held entries).2.mgr.is_valid h ↔
        s.mgr.is_valid h ∧ ¬ (held h = 0 ∧ h ∈ entries.map (·.2)) := by
  induction entries generalizing s with
  | nil => exact ⟨hm, rfl, fun h => by simp [releaseEach]⟩
  | cons entry entries ih =>
    obtain ⟨key, h⟩ := entry
    rw [releaseEach_cons]
    obtain ⟨hm₁, hlen₁, hval₁⟩ := release_entry (h := h) held hm hfit
    have hfit₁ : Fits (if useCount s.mgr held h ≤ 1 then (s.release h).2 else s).mgr := by
      unfold Fits at hfit ⊢
      rwa [hlen₁]
    obtain ⟨hm₂, hlen₂, hval₂⟩ := ih hm₁ hfit₁
    refine ⟨hm₂, hlen₂.trans hlen₁, fun h' => (hval₂ h').trans ?_⟩
    rw [hval₁ h', List.map_cons, List.mem_cons]
    tauto

end TexStore

/-- **Destructor**: of the valid handles go those it cached whose textures nobody else has. -/
theorem destroy_spec (held : Handle → Nat) (it : Iteration) (m : Model R) {s : TexStore F}
    (hm : PoolInv s.mgr) (hfit : Fits s.mgr) :
    PoolInv (m.destroy held it s).mgr ∧
      (m.destroy held it s).mgr.pool.length = s.mgr.pool.length ∧
      ∀ h, (m.destroy held it s).mgr.is_valid h ↔
        s.mgr.is_valid h ∧ ¬ (held h = 0 ∧ h ∈ m.owned) := by
  obtain ⟨hinv, hlen, hval⟩ := TexStore.releaseEach_spec held (it.order m._loadedTex) hm hfit
  refine ⟨hinv, hlen, fun h => (hval h).trans ?_⟩
  rw [((it.perm m._loadedTex).map (·.2)).mem_iff]
  rfl

end LearnNotes.Graphics
