import LearnNotes.Graphics.SceneOrder

/-!
# Whose name a texture has

`loadMaterialTextures` gives a new texture the name `Draw` goes by, and caches its handle under the
path alone: an image that a material lists once as diffuse and once as specular keeps the name it
was loaded with. `NamesAgree` is what a call needs of the cache it finds, and `loadsByName_iff`
says that a sequence of calls hands out handles of the right names exactly where each call that
succeeds finds that. The loads start from any `TextureMgr()` with the invariant `MgrInv`, which
every run over models keeps (`mgrInv_models`).
-/

namespace LearnNotes.Graphics

open Lib Memory ResourceManager Utils

variable {F R : Type}

/-- The name of the texture `h` stands for. -/
def nameOf (mgr : TextureMgr F) (h : Handle) : Option String :=
  (textureAt mgr h).map (·.tex.name)

/-- The cache key of a texture reference. -/
def keyOf (_path str : String) : String := lexically_normal (path_append (parent_path _path) str)

/-- The pool invariant, and every pointer in the pool is an object's. -/
structure MgrInv (m : TextureMgr F) : Prop where
  inv : PoolInv m
  inRange : ∀ h (p : Nat), m.get h = some p → p < m.heap.length

theorem mgrInv_new : MgrInv (.new : TextureMgr F) where
  inv := poolInv_new
  inRange h p hp := by
    obtain ⟨h0, hs⟩ := get_eq_some_iff.mp hp
    have hlt : h.index.toNat < 1 := (List.getElem?_eq_some_iff.mp hs).1
    exact absurd (UInt32.toNat_inj.mp (by rw [UInt32.toNat_zero]; omega)) h0

/-- The handles that were valid are, and stand for the textures they stood for. -/
def Keeps (m m' : TextureMgr F) : Prop :=
  ∀ h, m.is_valid h → m'.is_valid h ∧ textureAt m' h = textureAt m h

theorem Keeps.refl (m : TextureMgr F) : Keeps m m := fun _ hv => ⟨hv, rfl⟩

theorem Keeps.trans {m m' m'' : TextureMgr F} (h : Keeps m m') (h' : Keeps m' m'') : Keeps m m'' :=
  fun k hv => ⟨(h' k (h k hv).1).1, (h' k (h k hv).1).2.trans (h k hv).2⟩

/-! ## One new texture -/

/-- The chain of calls ends with the name it sets first. -/
theorem name_configure (typeName : String) (t : Texture2D F) (s : Statics F) :
    (configure typeName t s).2.1.tex.name = typeName := by
  have hupdate : ∀ (t : Texture2D F) s, (t.update s).1.tex = t.tex := fun t s => by
    unfold Texture2D.update
    split <;> rfl
  have hacquire : ∀ pos (t : Texture2D F) s, (t.acquire pos s).2.1.tex = t.tex := fun pos t s => by
    unfold Texture2D.acquire
    split
    · split <;> rfl
    · rfl
  unfold configure
  dsimp only
  rw [hacquire, hupdate]
  rfl

section

variable {m m₁ m' : TextureMgr F} {h : Handle} {x : Texture2D F}

theorem textureAt_acquired (ha : Acquires m h x m₁) : textureAt m₁ h = some x := by
  simp [textureAt, ha.get_self, ha.heap]

theorem textureAt_of_get {h' : Handle} (hget : m'.get h' = m.get h')
    (hheap : ∀ p, m.get h' = some p → m'.heap[p]? = m.heap[p]?) :
    textureAt m' h' = textureAt m h' := by
  unfold textureAt
  rw [hget]
  cases hp : m.get h' with
  | none => rfl
  | some p => exact hheap p hp

/-- `acquire`, with the new object written to at once or left as it is. -/
theorem keeps_acquired (ha : Acquires m h x m₁) (hm : MgrInv m) (heap : List (Texture2D F))
    (hlen : heap.length = m₁.heap.length)
    (hheap : ∀ p, p ≠ m.heap.length → heap[p]? = m₁.heap[p]?) :
    MgrInv { m₁ with heap := heap } ∧ Keeps m { m₁ with heap := heap } := by
  have hget : ∀ h', h' ≠ h → m₁.get h' = m.get h' := fun h' hne => by
    rw [ha.get, Function.update_of_ne hne]
  refine ⟨⟨ha.inv.of_heap heap, fun h' p hp => ?_⟩, fun h' hv => ?_⟩
  · show p < heap.length
    rw [hlen, ha.heap, List.length_append, List.length_singleton]
    by_cases hne : h' = h
    · have hp' : m₁.get h = some p := hne ▸ hp
      rw [ha.get_self] at hp'
      have := Option.some.inj hp'
      omega
    · have := hm.inRange h' p ((hget h' hne).symm.trans hp)
      omega
  · have hne : h' ≠ h := fun heq => ha.not_valid (heq ▸ hv)
    refine ⟨ha.is_valid_iff.mpr (.inr hv), textureAt_of_get (hget h' hne) fun p hp => ?_⟩
    have hlt := hm.inRange h' p hp
    show heap[p]? = _
    rw [hheap p (Nat.ne_of_lt hlt), ha.heap, List.getElem?_append_left hlt]

theorem MgrInv.released (hm : MgrInv m) (hr : Releases m h m') : MgrInv m' := by
  refine ⟨hr.inv, fun h' p hp => ?_⟩
  rw [hr.get] at hp
  rw [hr.heap]
  by_cases hne : h' = h
  · rw [hne, Function.update_self] at hp
    cases hp
  · rw [Function.update_of_ne hne] at hp
    exact hm.inRange h' p hp

/-- `acquire` and then `release` of the new handle. -/
theorem keeps_released (ha : Acquires m h x m₁) (hr : Releases m₁ h m') (hm : MgrInv m) :
    MgrInv m' ∧ Keeps m m' := by
  obtain ⟨hm₁, hkeeps⟩ := keeps_acquired ha hm m₁.heap rfl fun _ _ => rfl
  refine ⟨hm₁.released hr, fun h' hv => ?_⟩
  have hne : h' ≠ h := fun heq => ha.not_valid (heq ▸ hv)
  have hget : m'.get h' = m₁.get h' := by rw [hr.get, Function.update_of_ne hne]
  refine ⟨hr.is_valid_iff.mpr ⟨hne, (hkeeps h' hv).1⟩, ?_⟩
  rw [← (hkeeps h' hv).2]
  exact textureAt_of_get hget fun p _ => by rw [hr.heap]

end

section

variable {env : LoadEnv R} {fullpath typeName : String} {s : TexStore F}

/-- What becomes of the texture `acquire` made: it goes again, or is written back with its name. -/
theorem loadTexture_cases (fullpath typeName : String) {m₁ : TextureMgr F} {h : Handle} {p : Ptr}
    {tex : Texture2D F}
    (hacq : acquired env s = (some h, m₁)) (hget : m₁.get h = some p)
    (htex : textureAt m₁ h = some tex) :
    ((loadTexture env fullpath typeName s).1 = none ∧
      (loadTexture env fullpath typeName s).2.mgr = (m₁.release h none).2) ∨
    ∃ tex' : Texture2D F, tex'.tex.name = typeName ∧
      (loadTexture env fullpath typeName s).1 = some h ∧
      (loadTexture env fullpath typeName s).2.mgr = { m₁ with heap := m₁.heap.set p tex' } := by
  unfold loadTexture TexStore.acquire
  dsimp only
  rw [← acquired, hacq]
  dsimp only
  rw [hget, htex]
  dsimp only
  split
  · exact .inl ⟨rfl, rfl⟩
  · next t statics _ =>
    have hname := name_configure typeName t statics
    split
    · exact .inl ⟨rfl, rfl⟩
    · next tex' statics' heq =>
      rw [heq] at hname
      exact .inr ⟨tex', hname, rfl, rfl⟩

/-- **A new texture** leaves the others as they were, and has the name asked for. -/
theorem loadTexture_keeps (hm : MgrInv s.mgr)
    (hfit : Fits (loadTexture env fullpath typeName s).2.mgr) :
    MgrInv (loadTexture env fullpath typeName s).2.mgr ∧
      Keeps s.mgr (loadTexture env fullpath typeName s).2.mgr ∧
      ∀ h, (loadTexture env fullpath typeName s).1 = some h →
        nameOf (loadTexture env fullpath typeName s).2.mgr h = some typeName := by
  have hfit₁ : Fits (acquired env s).2 := by
    unfold Fits at hfit ⊢
    rwa [loadTexture_mgr.length] at hfit
  obtain ⟨h, m₁, hacq, ha⟩ := exists_acquires hm.inv
    (Nat.lt_of_le_of_lt (length_le_acquire ..) hfit₁)
    (Texture2D.new none (env.texName s.mgr.heap.length) s.statics).1 id
  replace hacq : acquired env s = (some h, m₁) := hacq
  rw [hacq] at hfit₁
  rcases loadTexture_cases fullpath typeName hacq ha.get_self (textureAt_acquired ha) with
    ⟨hnone, hmgr⟩ | ⟨tex', hname, hsome, hmgr⟩
  · obtain ⟨m', heq, hr⟩ := exists_releases ha.inv hfit₁ (ha.is_valid_iff.mpr (.inl rfl)) none
    rw [heq] at hmgr
    obtain ⟨hm', hkeeps⟩ := keeps_released ha hr hm
    rw [hmgr, hnone]
    exact ⟨hm', hkeeps, nofun⟩
  · obtain ⟨hm', hkeeps⟩ := keeps_acquired ha hm (m₁.heap.set s.mgr.heap.length tex')
      List.length_set fun p hne => List.getElem?_set_ne (Ne.symm hne)
    rw [hmgr, hsome]
    refine ⟨hm', hkeeps, fun h' heq => ?_⟩
    obtain rfl := Option.some.inj heq
    have hat : textureAt { m₁ with heap := m₁.heap.set s.mgr.heap.length tex' } h = some tex' := by
      show (m₁.get h).bind _ = _
      rw [ha.get_self, ha.heap]
      simp
    rw [nameOf, hat, Option.map_some, hname]

end

/-! ## Calls -/

/-- A call of `loadMaterialTextures`. -/
structure TexCall where
  mat : aiMaterial
  type : aiTextureType
  typeName : String

/-- The texture references of the call. -/
def TexCall.refs (c : TexCall) : List (Option String) := c.mat.textures c.type

/-- The calls of one load from `store`: the error, the handles and the state. -/
def materialTextures (env : LoadEnv R) (_path : String) (store : TexStore F) :
    Machine (Loading F R) TexCall (Option ModelErr × List Handle) where
  init := ⟨[], [], store⟩
  step s c :=
    let (ec, hs, s) := s.loadMaterialTextures env _path c.mat c.type c.typeName
    ((ec, hs), s)

/-- A call finds each of its paths not cached, or cached for a texture of the name it asks for. -/
def NamesAgree (_path : String) (s : Loading F R) (c : TexCall) : Prop :=
  ∀ str, some str ∈ c.refs → ∀ h, s._loadedTex.lookup (keyOf _path str) = some h →
    nameOf s.store.mgr h = some c.typeName

/-- A call that returned with `ec` clear gave the handle `h` for the texture reference `str`. -/
def Gave (env : LoadEnv R) (_path : String) (store : TexStore F) (calls : List TexCall)
    (typeName str : String) (h : Handle) : Prop :=
  ∃ p ∈ (materialTextures env _path store).steps calls, ∃ (hs : List Handle) (i : Nat),
    (materialTextures env _path store).out p.1 p.2 = (none, hs) ∧ p.2.typeName = typeName ∧
      p.2.refs[i]? = some (some str) ∧ hs[i]? = some h

/-- What the calls of a load should hand out: one valid handle for each texture reference, in order;
one and the same for two references iff they name one image under one name; and textures with the
names asked for. -/
structure LoadsByName (env : LoadEnv R) (_path : String) (store : TexStore F)
    (calls : List TexCall) : Prop where
  handles : ∀ p ∈ (materialTextures env _path store).steps calls, ∀ hs,
    (materialTextures env _path store).out p.1 p.2 = (none, hs) →
      List.Forall₂ (fun ref h => ref.isSome ∧
        ((materialTextures env _path store).after calls).store.mgr.is_valid h) p.2.refs hs
  same : ∀ typeName str h typeName' str' h', Gave env _path store calls typeName str h →
    Gave env _path store calls typeName' str' h' →
      (h = h' ↔ keyOf _path str = keyOf _path str' ∧ typeName = typeName')
  names : ∀ typeName str h, Gave env _path store calls typeName str h →
    nameOf ((materialTextures env _path store).after calls).store.mgr h = some typeName

/-! ## Stretches of a load -/

namespace Loading

/-- Each cached handle is valid, and cached once. -/
structure Caches (s : Loading F R) : Prop where
  mgr : MgrInv s.store.mgr
  nodup : s.cached.Nodup
  valid : ∀ h ∈ s.cached, s.store.mgr.is_valid h

/-- From `s` to `s'` textures were cached that have the name, and nothing else happened to the
cache. -/
structure Caching (typeName : String) (s s' : Loading F R) : Prop where
  cache : s._loadedTex <+: s'._loadedTex
  keeps : Keeps s.store.mgr s'.store.mgr
  names : ∀ key h, s'._loadedTex.lookup key = some h → s._loadedTex.lookup key = none →
    nameOf s'.store.mgr h = some typeName

variable {env : LoadEnv R} {_path typeName key : String} {s s' s'' : Loading F R} {h : Handle}

theorem lookup_of_isPrefix {l l' : List (String × Handle)} (hp : l <+: l')
    (hk : l.lookup key = some h) : l'.lookup key = some h := by
  obtain ⟨t, rfl⟩ := hp
  rw [List.lookup_append, hk, Option.some_or]

theorem mem_of_lookup {l : List (String × Handle)} (hk : l.lookup key = some h) :
    (key, h) ∈ l := by
  obtain ⟨l₁, l₂, rfl, -⟩ := List.lookup_eq_some_iff.mp hk
  simp

theorem mem_cached_of_lookup (hk : s._loadedTex.lookup key = some h) : h ∈ s.cached :=
  List.mem_map_of_mem (mem_of_lookup hk)

theorem nameOf_of_keeps {m m' : TextureMgr F} (hk : Keeps m m') (hv : m.is_valid h) :
    nameOf m' h = nameOf m h := by
  unfold nameOf
  rw [(hk h hv).2]

theorem Caching.refl (typeName : String) (s : Loading F R) : Caching typeName s s where
  cache := List.prefix_refl _
  keeps := .refl _
  names key h hs hno := by
    rw [hno] at hs
    cases hs

theorem Caching.trans (hs' : Caches s') (h : Caching typeName s s') (h' : Caching typeName s' s'') :
    Caching typeName s s'' where
  cache := h.cache.trans h'.cache
  keeps := h.keeps.trans h'.keeps
  names key k hk hno := by
    cases hmid : s'._loadedTex.lookup key with
    | none => exact h'.names key k hk hmid
    | some k' =>
      rw [lookup_of_isPrefix h'.cache hmid, Option.some.injEq] at hk
      subst hk
      rw [nameOf_of_keeps h'.keeps (hs'.valid _ (mem_cached_of_lookup hmid))]
      exact h.names key k' hmid hno

/-- Two references with one handle have one key. -/
theorem Caches.key_eq {key' : String} (hs : Caches s) (hk : s._loadedTex.lookup key = some h)
    (hk' : s._loadedTex.lookup key' = some h) : key = key' :=
  congrArg Prod.fst
    (List.inj_on_of_nodup_map hs.nodup (mem_of_lookup hk) (mem_of_lookup hk') rfl)

/-- **An attempt at a new texture.** -/
theorem caching_attempted (env : LoadEnv R) (fullpath typeName key : String) (hs : Caches s)
    (hfit : Fits (s.attempted env fullpath typeName key).store.mgr) :
    Caches (s.attempted env fullpath typeName key) ∧
      Caching typeName s (s.attempted env fullpath typeName key) := by
  obtain ⟨hmgr, hkeeps, hnames⟩ := loadTexture_keeps hs.mgr hfit
  obtain ⟨-, hfresh, hvalid⟩ := loadTexture_spec hs.mgr.inv hfit
  have hcached := cached_attempted env fullpath typeName key s
  refine ⟨⟨hmgr, ?_, fun h hmem => ?_⟩, ⟨List.prefix_append _ _, hkeeps, fun key' h hk hno' => ?_⟩⟩
  · rw [hcached]
    refine List.nodup_append.mpr ⟨hs.nodup, ?_, fun a ha b hb hab => ?_⟩
    · cases (loadTexture env fullpath typeName s.store).1 <;> simp
    · subst hab
      exact hfresh a (Option.mem_toList.mp hb) (hs.valid a ha)
  · rw [hcached, List.mem_append, Option.mem_toList] at hmem
    refine (hvalid h).mpr ?_
    rcases hmem with hmem | hmem
    · exact .inr (hs.valid h hmem)
    · exact .inl hmem
  · unfold attempted at hk
    dsimp only at hk
    rw [List.lookup_append, hno', Option.none_or] at hk
    refine hnames h ?_
    cases hload : (loadTexture env fullpath typeName s.store).1 with
    | none =>
      rw [hload] at hk
      cases hk
    | some h' =>
      rw [hload] at hk
      have hmem := mem_of_lookup hk
      simp only [Option.map_some, Option.toList_some, List.mem_singleton, Prod.mk.injEq] at hmem
      rw [hmem.2]

/-- **One texture reference.** -/
theorem caching_loadRef (env : LoadEnv R) (_path typeName : String) (hs : Caches s)
    (ref : Option String)
    (hfit : Fits (s.loadRef env _path typeName ref).2.store.mgr) :
    Caches (s.loadRef env _path typeName ref).2 ∧
      Caching typeName s (s.loadRef env _path typeName ref).2 ∧
      ∀ h, (s.loadRef env _path typeName ref).1 = .ok h → ∃ str, ref = some str ∧
        (s.loadRef env _path typeName ref).2._loadedTex.lookup (keyOf _path str) = some h := by
  cases ref with
  | none => exact ⟨hs, .refl typeName s, nofun⟩
  | some str =>
    unfold loadRef at hfit ⊢
    dsimp only at hfit ⊢
    rw [← keyOf] at hfit ⊢
    cases hk : s._loadedTex.lookup (keyOf _path str) with
    | some h =>
      refine ⟨hs, .refl typeName s, ?_⟩
      rintro _ ⟨⟩
      exact ⟨str, rfl, hk⟩
    | none =>
      rw [hk] at hfit
      generalize hfull : path_append (parent_path _path) str = fullpath at hfit ⊢
      have hattempt := caching_attempted env fullpath typeName (keyOf _path str) hs
      unfold attempted at hattempt
      rcases hload : loadTexture env fullpath typeName s.store with ⟨_ | h, store⟩
      · rw [hload] at hfit hattempt
        obtain ⟨hs', hc⟩ := hattempt hfit
        exact ⟨by simpa using hs', by simpa using hc, nofun⟩
      · rw [hload] at hfit hattempt
        obtain ⟨hs', hc⟩ := hattempt hfit
        refine ⟨hs', hc, ?_⟩
        rintro _ ⟨⟩
        refine ⟨str, rfl, ?_⟩
        simp [List.lookup_append, hk]

/-- **The references of one call.** -/
theorem caching_loadRefs (env : LoadEnv R) (_path typeName : String) (hs : Caches s)
    (refs : List (Option String))
    (hfit : Fits (s.loadRefs env _path typeName refs).2.2.store.mgr) :
    Caches (s.loadRefs env _path typeName refs).2.2 ∧
      Caching typeName s (s.loadRefs env _path typeName refs).2.2 ∧
      ((s.loadRefs env _path typeName refs).1 = none →
        List.Forall₂ (fun ref h => ∃ str, ref = some str ∧
          (s.loadRefs env _path typeName refs).2.2._loadedTex.lookup (keyOf _path str) = some h)
          refs (s.loadRefs env _path typeName refs).2.1) := by
  induction refs generalizing s with
  | nil => exact ⟨hs, .refl typeName s, fun _ => .nil⟩
  | cons ref refs ih =>
    have hone := caching_loadRef env _path typeName hs ref
    unfold loadRefs at hfit ⊢
    rcases href : s.loadRef env _path typeName ref with ⟨e | h, s₁⟩
    · rw [href] at hfit hone
      obtain ⟨hs₁, hc, -⟩ := hone hfit
      exact ⟨hs₁, hc, fun hclear => absurd hclear (Option.some_ne_none e)⟩
    · rw [href] at hfit hone
      have hfit₁ : Fits s₁.store.mgr :=
        Nat.lt_of_le_of_lt (grows_loadRefs env _path typeName refs s₁).1.length hfit
      obtain ⟨hs₁, hc, hok⟩ := hone hfit₁
      obtain ⟨hs', hc', hall⟩ := ih hs₁ hfit
      obtain ⟨str, rfl, hlookup⟩ := hok h rfl
      exact ⟨hs', .trans hs₁ hc hc', fun hclear =>
        .cons ⟨str, rfl, lookup_of_isPrefix hc'.cache hlookup⟩ (hall hclear)⟩

/-! ## Whole loads -/

theorem caches_nil {store : TexStore F} (hstore : MgrInv store.mgr) :
    Caches (⟨[], [], store⟩ : Loading F R) := ⟨hstore, List.nodup_nil, nofun⟩

section

variable [Zero R] (env : LoadEnv R) (_path : String) (scene : aiScene R)

theorem caches_processMesh {materials : Nat} (mMaterials : Vector aiMaterial materials)
    (mesh : aiMesh R materials) (hs : Caches s)
    (hfit : Fits (s.processMesh env _path mMaterials mesh).2.2.store.mgr) :
    Caches (s.processMesh env _path mMaterials mesh).2.2 := by
  have hdiffuse := caching_loadRefs env _path "texture_diffuse" hs
    (mMaterials[mesh.mMaterialIndex].textures .DIFFUSE)
  unfold processMesh loadMaterialTextures at hfit ⊢
  dsimp only at hfit ⊢
  rcases hd : s.loadRefs env _path "texture_diffuse"
    (mMaterials[mesh.mMaterialIndex].textures .DIFFUSE) with ⟨_ | e, hs₁, s₁⟩
  · rw [hd] at hfit hdiffuse
    dsimp only at hfit ⊢
    have hgrows := (grows_loadRefs env _path "texture_specular"
      (mMaterials[mesh.mMaterialIndex].textures .SPECULAR) s₁).1.length
    have hspecular := fun h => caching_loadRefs env _path "texture_specular" (s := s₁) h
      (mMaterials[mesh.mMaterialIndex].textures .SPECULAR)
    rcases hsp : s₁.loadRefs env _path "texture_specular"
      (mMaterials[mesh.mMaterialIndex].textures .SPECULAR) with ⟨_ | e, hs₂, s₂⟩ <;>
      rw [hsp] at hfit hgrows hspecular
    · exact (hspecular (hdiffuse (Nat.lt_of_le_of_lt hgrows hfit)).1 hfit).1
    · exact (hspecular (hdiffuse (Nat.lt_of_le_of_lt hgrows hfit)).1 hfit).1
  · rw [hd] at hfit hdiffuse
    exact (hdiffuse hfit).1

theorem caches_processMeshes (is : List (Fin scene.meshes)) (hs : Caches s)
    (hfit : Fits (s.processMeshes scene env _path is).2.store.mgr) :
    Caches (s.processMeshes scene env _path is).2 := by
  induction is generalizing s with
  | nil => exact hs
  | cons i is ih =>
    have hmesh := caches_processMesh env _path scene.mMaterials scene.mMeshes[i] hs
    unfold processMeshes at hfit ⊢
    rcases hp : s.processMesh env _path scene.mMaterials scene.mMeshes[i] with ⟨_ | e, res, s₁⟩ <;>
      rw [hp] at hfit hmesh
    · have hgrows := (grows_processMeshes env _path scene is
        { s₁ with _meshes := s₁._meshes ++ [res] }).length
      have hs₁ := hmesh (Nat.lt_of_le_of_lt hgrows hfit)
      exact ih ⟨hs₁.mgr, hs₁.nodup, hs₁.valid⟩ hfit
    · exact hmesh hfit

end

end Loading

/-! ## The store of a program -/

section

variable {s : TexStore F}

theorem mgrInv_load [Zero R] (env : LoadEnv R) (flipUVs : Bool) (m : Model R)
    (hm : MgrInv s.mgr) (hfit : Fits (m.load env flipUVs s).2.2.mgr) :
    MgrInv (m.load env flipUVs s).2.2.mgr := by
  cases hroot : Model.rootOf (env.ReadFile m._path (Model.postProcessFlags flipUVs)) with
  | none =>
    unfold Model.load
    rw [hroot]
    exact hm
  | some r =>
    obtain ⟨scene, root⟩ := r
    unfold Model.load at hfit ⊢
    rw [hroot] at hfit ⊢
    dsimp only at hfit ⊢
    rw [Loading.processNode_eq] at hfit ⊢
    exact (Loading.caches_processMeshes env m._path scene _ (Loading.caches_nil hm) hfit).mgr

theorem mgrInv_releaseEach (held : Handle → Nat) (entries : List (String × Handle))
    (hm : MgrInv s.mgr) (hfit : Fits s.mgr) : MgrInv (s.releaseEach held entries).2.mgr := by
  induction entries generalizing s with
  | nil => exact hm
  | cons entry entries ih =>
    obtain ⟨key, h⟩ := entry
    obtain ⟨-, hlen, -⟩ := TexStore.release_entry (h := h) held hm.inv hfit
    rw [TexStore.releaseEach_cons]
    refine ih ?_ (by unfold Fits at hfit ⊢; rwa [hlen])
    split
    · by_cases hv : s.mgr.is_valid h
      · exact hm.released (TexStore.release_valid hm.inv hfit hv).2
      · obtain ⟨e, he⟩ := TexStore.release_invalid hv
        rw [he]
        exact hm
    · exact hm

/-! Copies and moves leave the store alone. -/

namespace ModelWorld

variable (w : ModelWorld F R)

theorem store_copyConstruct (src : Nat) : (w.copyConstruct src).store = w.store := by
  unfold copyConstruct
  cases w.objs.live src <;> rfl

theorem store_moveConstruct (src : Nat) : (w.moveConstruct src).store = w.store := by
  unfold moveConstruct
  cases w.objs.live src <;> rfl

theorem store_copyAssign (dst src : Nat) : (w.copyAssign dst src).store = w.store := by
  unfold copyAssign
  cases w.objs.live dst <;> cases w.objs.live src <;> rfl

theorem store_moveAssign (dst src : Nat) (self : SelfMove) :
    (w.moveAssign dst src self).store = w.store := by
  unfold moveAssign
  cases w.objs.live dst with
  | none => rfl
  | some t =>
    cases w.objs.live src with
    | none => rfl
    | some o =>
      dsimp only
      split_ifs <;> rfl

end ModelWorld

open ModelWorld in
/-- **In every run over models** the pool of `TextureMgr()` keeps its invariant. -/
theorem mgrInv_models [Zero R] (statics : Statics F) (ops : List (ModelOp R))
    (hfit : (models F R statics).EveryState ops fun w => Fits w.store.mgr) :
    (models F R statics).EveryState ops fun w => MgrInv w.store.mgr := by
  refine Machine.everyState_of_guard mgrInv_new (fun w op hm hfits => ?_)
    (hfit.everyStep.and hfit.everyStep_next)
  obtain ⟨hbefore, hafter⟩ := hfits
  cases op with
  | construct => exact hm
  | constructPath env path flipUVs => exact mgrInv_load env flipUVs _ hm hafter
  | load i env path flipUVs =>
    show MgrInv (w.load i env path flipUVs).2.store.mgr
    replace hafter : Fits (w.load i env path flipUVs).2.store.mgr := hafter
    unfold load at hafter ⊢
    cases hi : w.objs.live i with
    | none => exact hm
    | some o =>
      rw [hi] at hafter
      exact mgrInv_load env flipUVs _ hm hafter
  | copyConstruct src => exact (store_copyConstruct w src).symm ▸ hm
  | moveConstruct src => exact (store_moveConstruct w src).symm ▸ hm
  | copyAssign dst src => exact (store_copyAssign w dst src).symm ▸ hm
  | moveAssign dst src self => exact (store_moveAssign w dst src self).symm ▸ hm
  | destroy i held it =>
    show MgrInv (w.destroy i held it).store.mgr
    unfold destroy
    cases w.objs.live i with
    | none => exact hm
    | some o => exact mgrInv_releaseEach held _ hm hbefore

end

/-! ## Runs -/

open Loading

section

variable {env : LoadEnv R} {_path : String} {store : TexStore F} {calls : List TexCall}

theorem out_materialTextures (s : Loading F R) (c : TexCall) :
    (materialTextures env _path store).out s c =
      ((s.loadRefs env _path c.typeName c.refs).1, (s.loadRefs env _path c.typeName c.refs).2.1) :=
  rfl

/-- What one stretch of a run does to the cache. -/
structure Onward (s s' : Loading F R) : Prop where
  cache : s._loadedTex <+: s'._loadedTex
  keeps : Keeps s.store.mgr s'.store.mgr

/-- The pool only grows along a run. -/
theorem length_le_afterFrom (s : Loading F R) (calls : List TexCall) :
    s.store.mgr.pool.length ≤
      ((materialTextures env _path store).afterFrom s calls).store.mgr.pool.length := by
  induction calls generalizing s with
  | nil => exact Nat.le_refl _
  | cons c calls ih =>
    exact Nat.le_trans (grows_loadRefs env _path c.typeName c.refs s).1.length (ih _)

/-- **Run**: the cache is only added to, and what is cached stays as it is. -/
theorem onward_afterFrom {s : Loading F R} (hs : Caches s) (calls : List TexCall)
    (hfit : Fits ((materialTextures env _path store).afterFrom s calls).store.mgr) :
    Caches ((materialTextures env _path store).afterFrom s calls) ∧
      Onward s ((materialTextures env _path store).afterFrom s calls) := by
  induction calls generalizing s with
  | nil => exact ⟨hs, List.prefix_refl _, .refl _⟩
  | cons c calls ih =>
    rw [Machine.afterFrom_cons] at hfit ⊢
    have hfit₁ : Fits ((materialTextures env _path store).next s c).store.mgr :=
      Nat.lt_of_le_of_lt (length_le_afterFrom _ calls) hfit
    obtain ⟨hs₁, hc, -⟩ := caching_loadRefs env _path c.typeName hs c.refs hfit₁
    obtain ⟨hs', ho⟩ := ih hs₁ hfit
    exact ⟨hs', hc.cache.trans ho.cache, hc.keeps.trans ho.keeps⟩

theorem caches_init (hstore : MgrInv store.mgr) :
    Caches (materialTextures env _path store).init := caches_nil hstore

/-- The entry opposite to `a`. -/
theorem exists_opposite {α β : Type} {S : α → β → Prop} {l : List α} {l' : List β} {i : Nat} {a : α}
    (h : List.Forall₂ S l l') (ha : l[i]? = some a) : ∃ b, l'[i]? = some b ∧ S a b := by
  induction h generalizing i with
  | nil => cases ha
  | cons hab _ ih =>
    cases i with
    | zero =>
      cases ha
      exact ⟨_, rfl, hab⟩
    | succ i => exact ih ha

/-- A call of a run: the cache it finds, the one it leaves, and what follows. -/
theorem step_of_run (hstore : MgrInv store.mgr)
    (hfit : Fits ((materialTextures env _path store).after calls).store.mgr)
    {p : Loading F R × TexCall} (hp : p ∈ (materialTextures env _path store).steps calls) :
    Caches p.1 ∧ Fits ((materialTextures env _path store).next p.1 p.2).store.mgr ∧
      Onward ((materialTextures env _path store).next p.1 p.2)
        ((materialTextures env _path store).after calls) := by
  obtain ⟨s, c⟩ := p
  obtain ⟨pre, post, rfl, hs⟩ := Machine.mem_steps.mp hp
  dsimp only at hs
  subst hs
  rw [Machine.after_append, Machine.afterFrom_cons] at hfit ⊢
  have hfit₁ := Nat.lt_of_le_of_lt (length_le_afterFrom _ post) hfit
  have hfit₀ := Nat.lt_of_le_of_lt (grows_loadRefs env _path c.typeName c.refs _).1.length hfit₁
  obtain ⟨hs, -⟩ := onward_afterFrom (caches_init hstore) pre hfit₀
  obtain ⟨hs₁, -⟩ := caching_loadRefs env _path c.typeName hs c.refs hfit₁
  exact ⟨hs, hfit₁, (onward_afterFrom hs₁ post hfit).2⟩

/-- What a call that returns with `ec` clear hands out is in the cache. -/
theorem handles_of_clear (hstore : MgrInv store.mgr)
    (hfit : Fits ((materialTextures env _path store).after calls).store.mgr)
    {p : Loading F R × TexCall} (hp : p ∈ (materialTextures env _path store).steps calls)
    {hs : List Handle} (hout : (materialTextures env _path store).out p.1 p.2 = (none, hs)) :
    List.Forall₂ (fun ref h => ∃ str, ref = some str ∧
      ((materialTextures env _path store).next p.1 p.2)._loadedTex.lookup (keyOf _path str) =
        some h) p.2.refs hs := by
  obtain ⟨hcaches, hfit₁, -⟩ := step_of_run hstore hfit hp
  obtain ⟨-, -, hall⟩ := caching_loadRefs env _path p.2.typeName hcaches p.2.refs hfit₁
  rw [out_materialTextures] at hout
  obtain ⟨hec, rfl⟩ := Prod.mk.inj hout
  exact hall hec

/-- The handle it gives for one reference. -/
theorem exists_handle (hstore : MgrInv store.mgr)
    (hfit : Fits ((materialTextures env _path store).after calls).store.mgr)
    {p : Loading F R × TexCall} (hp : p ∈ (materialTextures env _path store).steps calls)
    {hs : List Handle} (hout : (materialTextures env _path store).out p.1 p.2 = (none, hs))
    {i : Nat} {str : String} (href : p.2.refs[i]? = some (some str)) :
    ∃ h, hs[i]? = some h ∧
      ((materialTextures env _path store).next p.1 p.2)._loadedTex.lookup (keyOf _path str) =
        some h := by
  obtain ⟨h, hh, str', heq, hlookup⟩ :=
    exists_opposite (handles_of_clear hstore hfit hp hout) href
  obtain rfl : str = str' := Option.some.inj heq
  exact ⟨h, hh, hlookup⟩

theorem lookup_of_gave (hstore : MgrInv store.mgr)
    (hfit : Fits ((materialTextures env _path store).after calls).store.mgr)
    {typeName str : String} {h : Handle} (hg : Gave env _path store calls typeName str h) :
    ((materialTextures env _path store).after calls)._loadedTex.lookup (keyOf _path str) =
      some h := by
  obtain ⟨p, hp, hs, i, hout, -, href, hh⟩ := hg
  obtain ⟨-, -, ho⟩ := step_of_run hstore hfit hp
  obtain ⟨h', hh', hlookup⟩ := exists_handle hstore hfit hp hout href
  obtain rfl : h' = h := Option.some.inj (hh'.symm.trans hh)
  exact lookup_of_isPrefix ho.cache hlookup

/-- A cached texture has, at the end, the name it had when the call found it. -/
theorem nameOf_cached (hstore : MgrInv store.mgr)
    (hfit : Fits ((materialTextures env _path store).after calls).store.mgr)
    {p : Loading F R × TexCall} (hp : p ∈ (materialTextures env _path store).steps calls)
    {key : String} {h : Handle} (hk : p.1._loadedTex.lookup key = some h) :
    nameOf ((materialTextures env _path store).after calls).store.mgr h =
      nameOf p.1.store.mgr h := by
  obtain ⟨hcaches, hfit₁, ho⟩ := step_of_run hstore hfit hp
  obtain ⟨-, hc, -⟩ := caching_loadRefs env _path p.2.typeName hcaches p.2.refs hfit₁
  exact nameOf_of_keeps (hc.keeps.trans ho.keeps) (hcaches.valid h (mem_cached_of_lookup hk))

/-- A call that finds its names hands out textures of that name. -/
theorem nameOf_of_agree (hstore : MgrInv store.mgr)
    (hfit : Fits ((materialTextures env _path store).after calls).store.mgr)
    {p : Loading F R × TexCall} (hp : p ∈ (materialTextures env _path store).steps calls)
    (hagree : NamesAgree _path p.1 p.2) {str : String} {h : Handle} (hmem : some str ∈ p.2.refs)
    (hk : ((materialTextures env _path store).next p.1 p.2)._loadedTex.lookup (keyOf _path str) =
      some h) :
    nameOf ((materialTextures env _path store).after calls).store.mgr h = some p.2.typeName := by
  obtain ⟨hcaches, hfit₁, ho⟩ := step_of_run hstore hfit hp
  obtain ⟨hcaches', hc, -⟩ := caching_loadRefs env _path p.2.typeName hcaches p.2.refs hfit₁
  cases hold : p.1._loadedTex.lookup (keyOf _path str) with
  | none =>
    rw [nameOf_of_keeps ho.keeps (hcaches'.valid h (mem_cached_of_lookup hk))]
    exact hc.names _ h hk hold
  | some h' =>
    obtain rfl : h' = h := Option.some.inj ((lookup_of_isPrefix hc.cache hold).symm.trans hk)
    rw [nameOf_cached hstore hfit hp hold]
    exact hagree str hmem h' hold

/-- Where every call that succeeds finds its names, the handles are of textures of those names. -/
theorem nameOf_of_gave (hstore : MgrInv store.mgr)
    (hfit : Fits ((materialTextures env _path store).after calls).store.mgr)
    (hagree : (materialTextures env _path store).EveryStep calls fun s c =>
      ((materialTextures env _path store).out s c).1 = none → NamesAgree _path s c)
    {typeName str : String} {h : Handle} (hg : Gave env _path store calls typeName str h) :
    nameOf ((materialTextures env _path store).after calls).store.mgr h = some typeName := by
  obtain ⟨p, hp, hs, i, hout, rfl, href, hh⟩ := hg
  obtain ⟨h', hh', hlookup⟩ := exists_handle hstore hfit hp hout href
  obtain rfl : h' = h := Option.some.inj (hh'.symm.trans hh)
  exact nameOf_of_agree hstore hfit hp (hagree p hp (by rw [hout])) (List.mem_of_getElem? href)
    hlookup

/-- A call that hands out textures of its name found nothing cached under another. -/
theorem namesAgree_of_loadsByName (hstore : MgrInv store.mgr)
    (hfit : Fits ((materialTextures env _path store).after calls).store.mgr)
    (hgood : LoadsByName env _path store calls)
    {p : Loading F R × TexCall} (hp : p ∈ (materialTextures env _path store).steps calls)
    (hclear : ((materialTextures env _path store).out p.1 p.2).1 = none) :
    NamesAgree _path p.1 p.2 := by
  intro str hmem h hk
  obtain ⟨i, hi⟩ := List.mem_iff_getElem?.mp hmem
  have hout : (materialTextures env _path store).out p.1 p.2 =
      (none, ((materialTextures env _path store).out p.1 p.2).2) := Prod.ext hclear rfl
  obtain ⟨hcaches, hfit₁, -⟩ := step_of_run hstore hfit hp
  obtain ⟨-, hc, -⟩ := caching_loadRefs env _path p.2.typeName hcaches p.2.refs hfit₁
  obtain ⟨h', hh', hlookup⟩ := exists_handle hstore hfit hp hout hi
  obtain rfl : h = h' := Option.some.inj ((lookup_of_isPrefix hc.cache hk).symm.trans hlookup)
  rw [← nameOf_cached hstore hfit hp hk]
  exact hgood.names _ str h ⟨p, hp, _, i, hout, rfl, hi, hh'⟩

/-- **Exactly when textures have the names asked for.** In every sequence of calls within one load,
the calls hand out one valid handle for each reference, the same one for the same image under the
same name, and textures of the names asked for, iff each call that returns with `ec` clear found
nothing cached under another name. -/
theorem loadsByName_iff (env : LoadEnv R) (_path : String) (store : TexStore F)
    (hstore : MgrInv store.mgr) (calls : List TexCall)
    (hfit : Fits ((materialTextures env _path store).after calls).store.mgr) :
    LoadsByName env _path store calls ↔
      (materialTextures env _path store).EveryStep calls fun s c =>
        ((materialTextures env _path store).out s c).1 = none → NamesAgree _path s c := by
  refine ⟨fun hgood p hp => namesAgree_of_loadsByName hstore hfit hgood hp, fun hagree => ?_⟩
  obtain ⟨hcaches, -⟩ := onward_afterFrom (caches_init hstore) calls hfit
  refine ⟨fun p hp hs hout => ?_, fun t str h t' str' h' hg hg' => ?_,
    fun _ _ _ hg => nameOf_of_gave hstore hfit hagree hg⟩
  · obtain ⟨-, -, ho⟩ := step_of_run hstore hfit hp
    refine (handles_of_clear hstore hfit hp hout).imp fun ref h => ?_
    rintro ⟨str, rfl, hlookup⟩
    exact ⟨rfl, hcaches.valid h (mem_cached_of_lookup (lookup_of_isPrefix ho.cache hlookup))⟩
  · have hk := lookup_of_gave hstore hfit hg
    have hk' := lookup_of_gave hstore hfit hg'
    constructor
    · rintro rfl
      have hname := nameOf_of_gave hstore hfit hagree hg
      rw [nameOf_of_gave hstore hfit hagree hg', Option.some.injEq] at hname
      exact ⟨hcaches.key_eq hk hk', hname.symm⟩
    · rintro ⟨hkey, -⟩
      rw [hkey] at hk
      exact Option.some.inj (hk.symm.trans hk')

end

/-- A material with one image in both its lists. -/
def sharedImage : aiMaterial := ⟨fun _ => [some "a.png"]⟩

theorem loadsByName_iff_twice :
    let calls : List TexCall := [⟨sharedImage, .DIFFUSE, "texture_diffuse"⟩,
      ⟨sharedImage, .SPECULAR, "texture_diffuse"⟩]
    LoadsByName oneTextureEnv "m.obj" emptyStore calls ↔
      (materialTextures oneTextureEnv "m.obj" emptyStore).EveryStep calls fun s c =>
        ((materialTextures oneTextureEnv "m.obj" emptyStore).out s c).1 = none →
          NamesAgree "m.obj" s c :=
  loadsByName_iff oneTextureEnv "m.obj" emptyStore mgrInv_new _ (by decide)

/-- The specular map of the shared image is a texture named `texture_diffuse`. -/
theorem shared_image_diffuse :
    ¬ LoadsByName oneTextureEnv "m.obj" emptyStore
      [⟨sharedImage, .DIFFUSE, "texture_diffuse"⟩,
        ⟨sharedImage, .SPECULAR, "texture_specular"⟩] := by
  intro h
  have hgave : Gave oneTextureEnv "m.obj" emptyStore
      [⟨sharedImage, .DIFFUSE, "texture_diffuse"⟩, ⟨sharedImage, .SPECULAR, "texture_specular"⟩]
      "texture_specular" "a.png" ⟨1, 1⟩ :=
    ⟨_, .tail _ (.head _), [⟨1, 1⟩], 0, by decide, rfl, rfl, rfl⟩
  have hname := h.names _ _ _ hgave
  revert hname
  decide

end LearnNotes.Graphics
