import LearnNotes.Lib.Machine
import LearnNotes.Graphics.ModelLoad

/-!
# Runs over models

`models` serves any sequence of loads, copies, moves and destructions over any number of
`Model` objects, which share one `TextureMgr()`. Copies share the handles of the textures, and
a destructor decides by the `use_count` of the texture, which no handle adds to: so a handle
goes with the first of the models that caches it (`noDangling_iff`). `reloads` is one `Model`
that is loaded over and over: what is in the cache when a load clears it stays in
`TextureMgr()` for good (`released_iff`).
-/

namespace LearnNotes.Graphics

open Lib Memory ResourceManager

/-! ## Operations -/

/-- A `Model`, and whether its load succeeded, or that of the one it was copied or moved from. -/
structure ModelObj (R : Type) where
  model : Model R := {}
  loaded : Bool := false

structure ModelWorld (F R : Type) where
  objs : Objects (ModelObj R)
  store : TexStore F

/-- Which containers keep their elements when a `Model` is moved to itself; the standard does
not say. -/
structure SelfMove where
  _meshes : Bool
  _loadedTex : Bool

inductive ModelOp (R : Type) where
  | construct
  | constructPath (env : LoadEnv R) (path : String) (flipUVs : Bool)
  | load (i : Nat) (env : LoadEnv R) (path : String) (flipUVs : Bool)
  | copyConstruct (src : Nat)
  | moveConstruct (src : Nat)
  | copyAssign (dst src : Nat)
  | moveAssign (dst src : Nat) (self : SelfMove)
  /-- `held` counts the pointers to each texture that others have. -/
  | destroy (i : Nat) (held : Handle → Nat) (it : Iteration)

variable {F R : Type}

def ModelObj.selfMoved (self : SelfMove) (o : ModelObj R) : ModelObj R :=
  { o with model := { o.model with
      _meshes := if self._meshes then o.model._meshes else []
      _loadedTex := if self._loadedTex then o.model._loadedTex else [] } }

namespace ModelWorld

variable [Zero R] (w : ModelWorld F R)

def constructPath (env : LoadEnv R) (path : String) (flipUVs : Bool) :
    Option ModelErr × ModelWorld F R :=
  let (ec, m, store) := ({} : Model R).loadPath env path flipUVs w.store
  (ec, ⟨w.objs.push ⟨m, ec.isNone⟩, store⟩)

def load (i : Nat) (env : LoadEnv R) (path : String) (flipUVs : Bool) :
    Option ModelErr × ModelWorld F R :=
  match w.objs.live i with
  | none => (none, w)
  | some o =>
    let (ec, m, store) := o.model.loadPath env path flipUVs w.store
    (ec, ⟨w.objs.put i (some ⟨m, ec.isNone⟩), store⟩)

omit [Zero R]

def copyConstruct (src : Nat) : ModelWorld F R :=
  match w.objs.live src with
  | none => w
  | some o => { w with objs := w.objs.push o }

/-- The containers a move takes from are left empty. -/
def moveConstruct (src : Nat) : ModelWorld F R :=
  match w.objs.live src with
  | none => w
  | some o => { w with objs := (w.objs.put src (some {})).push o }

def copyAssign (dst src : Nat) : ModelWorld F R :=
  match w.objs.live dst, w.objs.live src with
  | some _, some o => { w with objs := w.objs.put dst (some o) }
  | _, _ => w

def moveAssign (dst src : Nat) (self : SelfMove) : ModelWorld F R :=
  match w.objs.live dst, w.objs.live src with
  | some _, some o =>
    if dst = src then { w with objs := w.objs.put dst (some (o.selfMoved self)) }
    else { w with objs := (w.objs.put src (some {})).put dst (some o) }
  | _, _ => w

def destroy (i : Nat) (held : Handle → Nat) (it : Iteration) : ModelWorld F R :=
  match w.objs.live i with
  | none => w
  | some o => ⟨w.objs.put i none, o.model.destroy held it w.store⟩

end ModelWorld

/-- No models yet, and nothing in `TextureMgr()`. -/
def models (F R : Type) [Zero R] (statics : Statics F) :
    Machine (ModelWorld F R) (ModelOp R) (Option ModelErr) where
  init := ⟨⟨[]⟩, ⟨.new, statics⟩⟩
  step w
    | .construct => (none, { w with objs := w.objs.push {} })
    | .constructPath env path flipUVs => w.constructPath env path flipUVs
    | .load i env path flipUVs => w.load i env path flipUVs
    | .copyConstruct src => (none, w.copyConstruct src)
    | .moveConstruct src => (none, w.moveConstruct src)
    | .copyAssign dst src => (none, w.copyAssign dst src)
    | .moveAssign dst src self => (none, w.moveAssign dst src self)
    | .destroy i held it => (none, w.destroy i held it)

namespace ModelWorld

/-! ## Handles of live models -/

/-- Every handle in the meshes of a live `Model` whose load succeeded is valid. -/
def NoDangling (w : ModelWorld F R) : Prop :=
  ∀ i o, w.objs.live i = some o → o.loaded → ∀ h ∈ o.model.handles, w.store.mgr.is_valid h

/-- A `Model` that is destroyed caches no handle that another one, loaded and live, has in its
meshes, unless somebody has a pointer to the texture. -/
def SparesOthers (w : ModelWorld F R) : ModelOp R → Prop
  | .destroy i held _ => ∀ o, w.objs.live i = some o → ∀ j o', j ≠ i →
      w.objs.live j = some o' → o'.loaded → ∀ h ∈ o'.model.handles, h ∈ o.model.owned → held h ≠ 0
  | _ => True

/-- What a run keeps, if no handle dangles. -/
structure Sound (w : ModelWorld F R) : Prop where
  inv : PoolInv w.store.mgr
  noDangling : NoDangling w

variable {w : ModelWorld F R}

/-- A model whose load succeeded lists valid handles only. -/
def Fine (store : TexStore F) (o : ModelObj R) : Prop :=
  o.loaded → ∀ h ∈ o.model.handles, store.mgr.is_valid h

theorem fine_empty {store : TexStore F} : Fine store ({} : ModelObj R) := nofun

theorem Sound.fine (hs : Sound w) {i : Nat} {o : ModelObj R} (hi : w.objs.live i = some o) :
    Fine w.store o := hs.noDangling i o hi

theorem Fine.selfMoved {store : TexStore F} {o : ModelObj R} (h : Fine store o)
    (self : SelfMove) : Fine store (o.selfMoved self) := by
  intro hl h' hmem
  refine h hl h' ?_
  unfold ModelObj.selfMoved Model.handles at hmem
  dsimp only at hmem
  split_ifs at hmem
  · exact hmem
  · cases hmem

/-! ## Objects that come and go -/

theorem Sound.push (hs : Sound w) {o : ModelObj R} (ho : Fine w.store o) :
    Sound { w with objs := w.objs.push o } := by
  refine ⟨hs.inv, fun i o' hi => ?_⟩
  rw [Objects.live_push, Function.update_apply] at hi
  split_ifs at hi
  · cases hi
    exact ho
  · exact hs.fine hi

theorem Sound.put (hs : Sound w) {i : Nat} {a o : ModelObj R} (hi : w.objs.live i = some a)
    (ho : Fine w.store o) : Sound { w with objs := w.objs.put i (some o) } := by
  refine ⟨hs.inv, fun j o' hj => ?_⟩
  rw [Objects.live_put hi, Function.update_apply] at hj
  split_ifs at hj
  · cases hj
    exact ho
  · exact hs.fine hj

theorem sound_copyConstruct (hs : Sound w) (src : Nat) : Sound (w.copyConstruct src) := by
  unfold copyConstruct
  cases hsrc : w.objs.live src with
  | none => exact hs
  | some o => exact hs.push (hs.fine hsrc)

theorem sound_moveConstruct (hs : Sound w) (src : Nat) : Sound (w.moveConstruct src) := by
  unfold moveConstruct
  cases hsrc : w.objs.live src with
  | none => exact hs
  | some o => exact (hs.put hsrc fine_empty).push (hs.fine hsrc)

theorem sound_copyAssign (hs : Sound w) (dst src : Nat) : Sound (w.copyAssign dst src) := by
  unfold copyAssign
  cases hdst : w.objs.live dst with
  | none => exact hs
  | some d =>
    cases hsrc : w.objs.live src with
    | none => exact hs
    | some o => exact hs.put hdst (hs.fine hsrc)

theorem sound_moveAssign (hs : Sound w) (dst src : Nat) (self : SelfMove) :
    Sound (w.moveAssign dst src self) := by
  unfold moveAssign
  cases hdst : w.objs.live dst with
  | none => exact hs
  | some d =>
    cases hsrc : w.objs.live src with
    | none => exact hs
    | some o =>
      dsimp only
      split_ifs with he
      · exact hs.put hdst ((hs.fine hsrc).selfMoved self)
      · have hdst' : (w.objs.put src (some {})).live dst = some d := by
          rw [Objects.live_put hsrc, Function.update_of_ne he, hdst]
        exact (hs.put hsrc fine_empty).put hdst' (hs.fine hsrc)

/-! ## Loads -/

/-- A load leaves the handles of the other models alone, and lists valid ones itself. -/
theorem Sound.of_load (hs : Sound w) {store : TexStore F} {m : Model R}
    (hload : LoadedFrom w.store m store) (hfit : Fits store.mgr) (loaded : Bool) :
    Sound { w with store := store } ∧ Fine store ⟨m, loaded⟩ := by
  have hvalid := hload.valid hfit hs.inv
  refine ⟨⟨hload.inv hfit hs.inv, fun i o hi hl h hmem => ?_⟩, fun _ h hmem => ?_⟩
  · exact (hvalid h).mpr (.inl (hs.fine hi hl h hmem))
  · exact (hvalid h).mpr (.inr (hload.lists hmem))

theorem sound_constructPath [Zero R] (hs : Sound w) (env : LoadEnv R) (path : String)
    (flipUVs : Bool) (hfit : Fits (w.constructPath env path flipUVs).2.store.mgr) :
    Sound (w.constructPath env path flipUVs).2 := by
  obtain ⟨hs', hfine⟩ :=
    hs.of_load (load_spec env flipUVs { _path := path } w.store) hfit _
  exact hs'.push hfine

theorem sound_load [Zero R] (hs : Sound w) (i : Nat) (env : LoadEnv R) (path : String)
    (flipUVs : Bool) (hfit : Fits (w.load i env path flipUVs).2.store.mgr) :
    Sound (w.load i env path flipUVs).2 := by
  unfold load at hfit ⊢
  cases hi : w.objs.live i with
  | none => exact hs
  | some o =>
    rw [hi] at hfit
    obtain ⟨hs', hfine⟩ :=
      hs.of_load (load_spec env flipUVs { o.model with _path := path } w.store) hfit _
    exact hs'.put hi hfine

/-! ## Destructions -/

/-- **What a destruction needs.** -/
theorem noDangling_destroy (hs : Sound w) (hfit : Fits w.store.mgr) {i : Nat} {o : ModelObj R}
    (hi : w.objs.live i = some o) (held : Handle → Nat) (it : Iteration) :
    NoDangling (w.destroy i held it) ↔ SparesOthers w (.destroy i held it) := by
  obtain ⟨-, -, hvalid⟩ := destroy_spec held it o.model hs.inv hfit
  have hlive : ∀ j o', (w.objs.put i none).live j = some o' ↔ j ≠ i ∧ w.objs.live j = some o' := by
    intro j o'
    rw [Objects.live_put hi, Function.update_apply]
    by_cases hj : j = i
    · simp [hj]
    · simp [hj]
  have hdestroy : w.destroy i held it = ⟨w.objs.put i none, o.model.destroy held it w.store⟩ := by
    unfold destroy
    rw [hi]
  rw [hdestroy]
  constructor
  · intro hd o₁ hi₁ j o' hj ho' hl h hmem howned h0
    obtain rfl : o = o₁ := Option.some.inj (hi.symm.trans hi₁)
    have hv := hd j o' ((hlive j o').mpr ⟨hj, ho'⟩) hl h hmem
    exact ((hvalid h).mp hv).2 ⟨h0, howned⟩
  · intro hg j o' hlj hl h hmem
    obtain ⟨hj, ho'⟩ := (hlive j o').mp hlj
    refine (hvalid h).mpr ⟨hs.noDangling j o' ho' hl h hmem, ?_⟩
    rintro ⟨h0, howned⟩
    exact hg o hi j o' hj ho' hl h hmem howned h0

theorem poolInv_destroy (hm : PoolInv w.store.mgr) (hfit : Fits w.store.mgr) (i : Nat)
    (held : Handle → Nat) (it : Iteration) : PoolInv (w.destroy i held it).store.mgr := by
  unfold destroy
  cases hi : w.objs.live i with
  | none => exact hm
  | some o => exact (destroy_spec held it o.model hm hfit).1

/-! ## Whole runs -/

variable [Zero R] {statics : Statics F}

theorem sound_init : Sound (models F R statics).init where
  inv := poolInv_new
  noDangling i o hi := by
    rw [show (models F R statics).init.objs = ⟨[]⟩ from rfl, Objects.live_nil] at hi
    cases hi

theorem sound_next (op : ModelOp R) (hfit : Fits w.store.mgr)
    (hfit' : Fits ((models F R statics).next w op).store.mgr) (hs : Sound w)
    (hg : SparesOthers w op) : Sound ((models F R statics).next w op) := by
  cases op with
  | construct => exact hs.push fine_empty
  | constructPath env path flipUVs => exact sound_constructPath hs env path flipUVs hfit'
  | load i env path flipUVs => exact sound_load hs i env path flipUVs hfit'
  | copyConstruct src => exact sound_copyConstruct hs src
  | moveConstruct src => exact sound_moveConstruct hs src
  | copyAssign dst src => exact sound_copyAssign hs dst src
  | moveAssign dst src self => exact sound_moveAssign hs dst src self
  | destroy i held it =>
    refine ⟨poolInv_destroy hs.inv hfit i held it, ?_⟩
    cases hi : w.objs.live i with
    | none =>
      show NoDangling (w.destroy i held it)
      unfold destroy
      rw [hi]
      exact hs.noDangling
    | some o => exact (noDangling_destroy hs hfit hi held it).mpr hg

theorem sparesOthers_of_noDangling (op : ModelOp R) (hfit : Fits w.store.mgr) (hs : Sound w)
    (hd : NoDangling ((models F R statics).next w op)) : SparesOthers w op := by
  cases op with
  | destroy i held it =>
    intro o hi
    exact (noDangling_destroy hs hfit hi held it).mp hd o hi
  | _ => trivial

end ModelWorld

open ModelWorld

/-- **Exactly when no handle dangles**, while `TextureMgr()` has fewer than `2^32` slots. -/
theorem noDangling_iff [Zero R] (statics : Statics F) (ops : List (ModelOp R))
    (hfit : (models F R statics).EveryState ops fun w => Fits w.store.mgr) :
    (models F R statics).EveryState ops NoDangling ↔
      (models F R statics).EveryStep ops SparesOthers :=
  Machine.everyState_iff_guard_of_under (hfit.everyStep.and hfit.everyStep_next)
    (fun _ hs => hs.noDangling) sound_init
    (fun _ op hI hs hg => sound_next op hI.1 hI.2 hs hg)
    fun _ op hI hs hd => sparesOthers_of_noDangling op hI.1 hs hd

/-- A scene of one mesh with one diffuse texture. -/
def oneTexture : aiScene Nat where
  incomplete := false
  mMaterials := #v[⟨fun
    | .DIFFUSE => [some "a.png"]
    | .SPECULAR => []⟩]
  mMeshes := #v[⟨[⟨0, 0, 0⟩], none, none, [[0, 0, 0]], 0⟩]
  mRootNode := some (.node [0] [])

def oneTextureEnv : LoadEnv Nat where
  ReadFile _ _ := some oneTexture
  image _ := some ⟨1, 1, 3, []⟩
  texName p := p + 1

/-- A GL with four texture units. -/
def fourUnits : Statics Nat where
  unitMgr := .new 4
  bind_id := 0
  gl := ⟨[], [], 0, fun _ => 0, fun _ => none, fun _ _ => none⟩

/-- Both maps in the order they were filled. -/
def inOrder : Iteration := ⟨id, fun l => .refl l⟩

/-- A model is copied and loaded anew before its copy goes. -/
def reloadsOriginal : List (ModelOp Nat) :=
  [.constructPath oneTextureEnv "m.obj" false, .copyConstruct 0,
    .load 0 oneTextureEnv "m.obj" true, .destroy 1 (fun _ => 0) inOrder]

theorem noDangling_iff_reloads :
    (models Nat Nat fourUnits).EveryState reloadsOriginal NoDangling ↔
      (models Nat Nat fourUnits).EveryStep reloadsOriginal SparesOthers :=
  noDangling_iff fourUnits reloadsOriginal (by decide +kernel)

/-- The first of two copies goes, and takes the handle of the other with it. -/
theorem destroy_dangles :
    ¬ (models Nat Nat fourUnits).EveryState
      [.constructPath oneTextureEnv "m.obj" false, .copyConstruct 0,
        .destroy 0 (fun _ => 0) inOrder] NoDangling := by
  intro h
  have hv := h.last 1 _ rfl (by decide) ⟨1, 1⟩ (by decide)
  revert hv
  decide

/-! ## One model, loaded over and over -/

structure LoadCall (R : Type) where
  env : LoadEnv R
  path : String
  flipUVs : Bool

/-- A `Model` with nothing in it, and whatever there is in `TextureMgr()`. -/
def reloads [Zero R] (store : TexStore F) :
    Machine (Model R × TexStore F) (LoadCall R) (Option ModelErr) where
  init := ({}, store)
  step s c := s.1.loadPath c.env c.path c.flipUVs s.2

/-- What the loads and the destructor leave, where nobody else has a pointer to a texture. -/
def lifeOf [Zero R] (store : TexStore F) (loads : List (LoadCall R)) (it : Iteration) :
    TexStore F :=
  let s := (reloads store).after loads
  s.1.destroy (fun _ => 0) it s.2

/-- The load finds nothing cached. -/
def FindsNone (s : Model R × TexStore F) (_ : LoadCall R) : Prop := s.1._loadedTex = []

section Reloads

variable {V0 : Handle → Prop} {s : Model R × TexStore F}

/-- The valid handles are those of `V0` and the cached ones, apart from each other. -/
structure Accounted (V0 : Handle → Prop) (s : Model R × TexStore F) : Prop where
  inv : PoolInv s.2.mgr
  valid : ∀ h, s.2.mgr.is_valid h ↔ V0 h ∨ h ∈ s.1.owned
  fresh : ∀ h ∈ s.1.owned, ¬ V0 h

/-- A valid handle is neither one of `V0` nor cached. -/
structure Stranded (V0 : Handle → Prop) (s : Model R × TexStore F) : Prop where
  inv : PoolInv s.2.mgr
  handle : ∃ h, s.2.mgr.is_valid h ∧ ¬ V0 h ∧ h ∉ s.1.owned

variable [Zero R] {store : TexStore F}

theorem loadedFrom_next (store : TexStore F) (s : Model R × TexStore F) (c : LoadCall R) :
    LoadedFrom s.2 ((reloads store).next s c).1 ((reloads store).next s c).2 :=
  load_spec c.env c.flipUVs { s.1 with _path := c.path } s.2

theorem fits_of_next {c : LoadCall R} (hfit : Fits ((reloads store).next s c).2.mgr) :
    Fits s.2.mgr := Nat.lt_of_le_of_lt (loadedFrom_next store s c).length hfit

/-- **Step**, from an empty cache. -/
theorem Accounted.next (h : Accounted V0 s) {c : LoadCall R} (hnone : s.1._loadedTex = [])
    (hfit : Fits ((reloads store).next s c).2.mgr) :
    Accounted V0 ((reloads store).next s c) := by
  have hload := loadedFrom_next store s c
  have howned : s.1.owned = [] := by rw [Model.owned, hnone]; rfl
  have hold : ∀ h, s.2.mgr.is_valid h ↔ V0 h := fun h' => by simp [h.valid h', howned]
  refine ⟨hload.inv hfit h.inv, fun h' => ?_, fun h' hmem hV0 => ?_⟩
  · rw [hload.valid hfit h.inv h', hold h']
  · exact hload.fresh hfit h.inv h' hmem ((hold h').mpr hV0)

/-- What was valid before a load stays so, and is not in its cache. -/
theorem stranded_next (hm : PoolInv s.2.mgr) {h : Handle} (hv : s.2.mgr.is_valid h)
    (hV0 : ¬ V0 h) {c : LoadCall R} (hfit : Fits ((reloads store).next s c).2.mgr) :
    Stranded V0 ((reloads store).next s c) := by
  have hload := loadedFrom_next store s c
  exact ⟨hload.inv hfit hm, h, (hload.valid hfit hm h).mpr (.inl hv), hV0,
    fun hmem => hload.fresh hfit hm h hmem hv⟩

/-- **Step**, from a cache with something in it: that is stranded. -/
theorem Accounted.strands (h : Accounted V0 s) {c : LoadCall R} (hsome : s.1._loadedTex ≠ [])
    (hfit : Fits ((reloads store).next s c).2.mgr) :
    Stranded V0 ((reloads store).next s c) := by
  obtain ⟨⟨key, h'⟩, hmem⟩ := List.exists_mem_of_ne_nil _ hsome
  have howned : h' ∈ s.1.owned := List.mem_map.mpr ⟨(key, h'), hmem, rfl⟩
  exact stranded_next h.inv ((h.valid h').mpr (.inr howned)) (h.fresh h' howned) hfit

/-- **Step**, after that. -/
theorem Stranded.next (h : Stranded V0 s) {c : LoadCall R}
    (hfit : Fits ((reloads store).next s c).2.mgr) : Stranded V0 ((reloads store).next s c) := by
  obtain ⟨h', hv, hV0, -⟩ := h.handle
  exact stranded_next h.inv hv hV0 hfit

end Reloads

/-- **Exactly when a `Model` releases what it loaded**, from any state of `TextureMgr()`, while
there are fewer than `2^32` slots. -/
theorem released_iff [Zero R] (store : TexStore F) (hm : PoolInv store.mgr)
    (loads : List (LoadCall R)) (hfit : Fits ((reloads store).after loads).2.mgr)
    (it : Iteration) :
    (∀ h, (lifeOf store loads it).mgr.is_valid h ↔ store.mgr.is_valid h) ↔
      (reloads store).EveryStep loads FindsNone := by
  have hrun := Machine.after_of_guard loads (M := reloads (R := R) store)
    (P := fun s => Fits s.2.mgr → Accounted (store.mgr.is_valid ·) s)
    (B := fun s => Fits s.2.mgr → Stranded (store.mgr.is_valid ·) s) (G := FindsNone)
    (fun _ => ⟨hm, fun h => by simp [Model.owned, reloads], nofun⟩)
    (fun s c h hG hfit => (h (fits_of_next hfit)).next hG hfit)
    (fun s c h hG hfit => (h (fits_of_next hfit)).strands hG hfit)
    (fun s c h hfit => (h (fits_of_next hfit)).next hfit)
  unfold lifeOf
  generalize (reloads store).after loads = s at hrun hfit ⊢
  dsimp only
  constructor
  · intro hsame
    by_contra hG
    have hbad := hrun.2 hG hfit
    obtain ⟨h, hv, hV0, hnot⟩ := hbad.handle
    obtain ⟨-, -, hvalid⟩ := destroy_spec (fun _ => 0) it s.1 hbad.inv hfit
    exact hV0 ((hsame h).mp ((hvalid h).mpr ⟨hv, fun hh => hnot hh.2⟩))
  · intro hG h
    have hgood := hrun.1 hG hfit
    obtain ⟨-, -, hvalid⟩ := destroy_spec (fun _ => 0) it s.1 hgood.inv hfit
    rw [hvalid h, hgood.valid h]
    constructor
    · rintro ⟨hV0 | howned, hnot⟩
      · exact hV0
      · exact absurd ⟨rfl, howned⟩ hnot
    · exact fun hV0 => ⟨.inl hV0, fun hh => hgood.fresh h hh.2 hV0⟩

/-- Nothing in `TextureMgr()`. -/
def emptyStore : TexStore Nat := ⟨.new, fourUnits⟩

/-- No scene is found. -/
def noSceneEnv : LoadEnv Nat := { oneTextureEnv with ReadFile := fun _ _ => none }

/-- A load that fails and another try. -/
def retries : List (LoadCall Nat) :=
  [⟨noSceneEnv, "n.obj", false⟩, ⟨oneTextureEnv, "m.obj", false⟩]

theorem released_iff_retries :
    (∀ h, (lifeOf emptyStore retries inOrder).mgr.is_valid h ↔ emptyStore.mgr.is_valid h) ↔
      (reloads emptyStore).EveryStep retries FindsNone :=
  released_iff emptyStore poolInv_new retries (by decide) inOrder

/-- The handle of the first load outlives the model. -/
theorem reload_strands :
    ¬ ∀ h, (lifeOf emptyStore
        [⟨oneTextureEnv, "m.obj", false⟩, ⟨oneTextureEnv, "m.obj", false⟩] inOrder).mgr.is_valid h ↔
      emptyStore.mgr.is_valid h := by
  intro h
  exact absurd (h ⟨1, 1⟩) (by decide)

end LearnNotes.Graphics
