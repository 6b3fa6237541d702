import LearnNotes.Graphics.MeshWorld
import LearnNotes.Memory.Valid

/-!
# The texture handles of the meshes

`Bookkept` is what a run should keep: the handles that are live in `TextureMgr()` are those a
mesh in use lists. `setTex` acquires a handle whatever the policy, so one that removes leaves
the new handle to nobody, and no destructor releases what its resource lists.
`bookkept_iff`: a run keeps the books exactly when it removes nothing and gives up no last
owner of a resource that lists a handle.
-/

namespace LearnNotes.Graphics

open Lib Memory ResourceManager

variable {F V : Type}

/-! ## Acquisitions -/

section Acquire

variable {t : Texture2D F} {mgr : TextureMgr F}

theorem length_le_acquireTexture (t tex : Texture2D F) (mgr : TextureMgr F) :
    mgr.pool.length ≤ (acquireTexture t tex mgr).2.pool.length := length_le_acquire ..

theorem length_le_acquireTextures (t : Texture2D F) (texs : List (Texture2D F))
    (mgr : TextureMgr F) : mgr.pool.length ≤ (acquireTextures t texs mgr).2.pool.length := by
  induction texs generalizing mgr with
  | nil => exact Nat.le_refl _
  | cons tex texs ih =>
    exact Nat.le_trans (length_le_acquireTexture t tex mgr) (ih (acquireTexture t tex mgr).2)

theorem fits_of_le {m m' : TextureMgr F} (h : m.pool.length ≤ m'.pool.length) (hf : Fits m') :
    Fits m := Nat.lt_of_le_of_lt h hf

/-- **One acquisition.** The new handle was not live, and all others are as live as before. -/
theorem acquireTexture_spec (hm : PoolInv mgr) (tex : Texture2D F)
    (hf : Fits (acquireTexture t tex mgr).2) :
    ∃ h, (acquireTexture t tex mgr).1 = some h ∧ ¬ mgr.is_valid h ∧
      PoolInv (acquireTexture t tex mgr).2 ∧
      ∀ h', (acquireTexture t tex mgr).2.is_valid h' ↔ h' = h ∨ mgr.is_valid h' := by
  have hfit := fits_of_le (length_le_acquireTexture t tex mgr) hf
  obtain ⟨h, m', he, ha⟩ := exists_acquires hm hfit t fun _ => tex
  unfold acquireTexture
  rw [he]
  exact ⟨h, rfl, ha.not_valid, ha.inv, fun h' => ha.is_valid_iff⟩

/-- The handles of a loop of acquisitions. -/
theorem acquireTextures_spec (hm : PoolInv mgr) (texs : List (Texture2D F))
    (hf : Fits (acquireTextures t texs mgr).2) :
    (∀ h ∈ (acquireTextures t texs mgr).1, ¬ mgr.is_valid h) ∧
      PoolInv (acquireTextures t texs mgr).2 ∧
      ∀ h, (acquireTextures t texs mgr).2.is_valid h ↔
        h ∈ (acquireTextures t texs mgr).1 ∨ mgr.is_valid h := by
  induction texs generalizing mgr with
  | nil => exact ⟨nofun, hm, fun h => by simp [acquireTextures]⟩
  | cons tex texs ih =>
    have hf1 : Fits (acquireTexture t tex mgr).2 :=
      fits_of_le (length_le_acquireTextures t texs (acquireTexture t tex mgr).2) hf
    obtain ⟨h, hh, hnew, hinv, hval⟩ := acquireTexture_spec hm tex hf1
    obtain ⟨hnews, hinvs, hvals⟩ := ih hinv hf
    have hfst : (acquireTextures t (tex :: texs) mgr).1 =
        h :: (acquireTextures t texs (acquireTexture t tex mgr).2).1 := by
      show (acquireTexture t tex mgr).1.toList ++ _ = _
      rw [hh]
      rfl
    refine ⟨fun h' hmem => ?_, hinvs, fun h' => ?_⟩
    · rw [hfst] at hmem
      rcases List.mem_cons.mp hmem with rfl | hmem
      · exact hnew
      · exact fun hv => hnews h' hmem ((hval h').mpr (.inr hv))
    · rw [hfst, List.mem_cons]
      refine (hvals h').trans ?_
      rw [hval h']
      tauto

end Acquire

namespace MeshRes

variable {t : Texture2D F} {res : MeshRes V} {mgr : TextureMgr F}

theorem setTex_append (tex : Texture2D F) :
    res.setTex t tex .append mgr =
      (none, { res with _textures := res._textures ++ (acquireTexture t tex mgr).1.toList },
        (acquireTexture t tex mgr).2) := rfl

/-- What `remove` removes is the first listed handle whose live texture has the name. -/
theorem setTex_remove (tex : Texture2D F) :
    res.setTex t tex .remove mgr =
      (none,
        { res with _textures :=
            res._textures.eraseP (hasName (acquireTexture t tex mgr).2 tex.tex.name) },
        (acquireTexture t tex mgr).2) := rfl

/-- `setTex(ec, vector, append)` appends what the constructor would acquire. -/
theorem setTexEach_append (t : Texture2D F) (texs : List (Texture2D F)) (res : MeshRes V)
    (mgr : TextureMgr F) :
    setTexEach t .append texs res mgr =
      (none, { res with _textures := res._textures ++ (acquireTextures t texs mgr).1 },
        (acquireTextures t texs mgr).2) := by
  induction texs generalizing res mgr with
  | nil => simp [setTexEach, acquireTextures]
  | cons tex texs ih =>
    unfold setTexEach
    rw [setTex_append]
    dsimp only
    rw [ih]
    simp [acquireTextures]

/-- `setTex(ec, vector, remove)` acquires as much, and only takes from the list. -/
theorem setTexEach_remove (t : Texture2D F) (texs : List (Texture2D F)) (res : MeshRes V)
    (mgr : TextureMgr F) :
    (setTexEach t .remove texs res mgr).2.2 = (acquireTextures t texs mgr).2 ∧
      (setTexEach t .remove texs res mgr).2.1._textures ⊆ res._textures := by
  induction texs generalizing res mgr with
  | nil => exact ⟨rfl, List.Subset.refl _⟩
  | cons tex texs ih =>
    unfold setTexEach
    rw [setTex_remove]
    obtain ⟨hmgr, hsub⟩ := ih
      { res with _textures :=
          res._textures.eraseP (hasName (acquireTexture t tex mgr).2 tex.tex.name) }
      (acquireTexture t tex mgr).2
    exact ⟨hmgr, List.Subset.trans hsub List.eraseP_subset⟩

end MeshRes

namespace MeshWorld

/-! ## The books -/

/-- A mesh in use lists the handle. -/
def Listed (w : MeshWorld F V) (h : Handle) : Prop :=
  ∃ i r res, w.resource i = some (r, res) ∧ h ∈ res._textures

/-- The live handles are the listed ones. -/
def Bookkept (w : MeshWorld F V) : Prop := ∀ h, w.mgr.is_valid h ↔ Listed w h

/-- The books, and that no two resources list one handle. -/
structure Books (w : MeshWorld F V) : Prop where
  inv : PoolInv w.mgr
  bookkept : Bookkept w
  disjoint : ∀ i j r r' res res' h, w.resource i = some (r, res) → w.resource j = some (r', res') →
    h ∈ res._textures → h ∈ res'._textures → r = r'
  bound : ∀ i r, w.objs.live i = some ⟨some r⟩ → r < w.heap.length

/-- The operation lists no handle but those it acquires. -/
def listsOwn : MeshOp F V → Prop
  | .constructHandles .. | .setTexHandle .. => False
  | _ => True

/-- What the books need of an operation: it removes nothing, and a mesh that is destroyed or
assigned to is not the last owner of a resource that lists a handle. -/
def KeepsBooks (w : MeshWorld F V) : MeshOp F V → Prop
  | .setTex i _ _ policy => (w.resource i).isSome → policy ≠ .remove
  | .setTexs i _ texs policy => (w.resource i).isSome → policy = .remove → texs = []
  | .destroy i => ∀ r res, w.resource i = some (r, res) →
      1 < uses w.objs r ∨ res._textures = []
  | .copyAssign dst src | .moveAssign dst src => dst ≠ src → ∀ r res other,
      w.resource dst = some (r, res) → w.objs.live src = some other →
      1 < uses w.objs r ∨ res._textures = []
  | _ => True

variable {w : MeshWorld F V} {i r : Nat} {res : MeshRes V} {h : Handle}

theorem listed_iff : Listed w h ↔
    ∃ r res, 0 < uses w.objs r ∧ w.heap[r]? = some res ∧ h ∈ res._textures := by
  constructor
  · rintro ⟨i, r, res, hr, hmem⟩
    obtain ⟨hi, hres⟩ := resource_eq_some.mp hr
    exact ⟨r, res, uses_pos_iff.mpr ⟨i, hi⟩, hres, hmem⟩
  · rintro ⟨r, res, hpos, hres, hmem⟩
    obtain ⟨i, hi⟩ := uses_pos_iff.mp hpos
    exact ⟨i, r, res, resource_eq_some.mpr ⟨hi, hres⟩, hmem⟩

/-! ## Operations that only move pointers -/

/-- The resources in use stay, but for some that list nothing. -/
theorem Books.of_objs (hb : Books w) {objs : Objects SharedMesh} (gl : Ledger GLName)
    (hsub : ∀ r, 0 < uses objs r → 0 < uses w.objs r)
    (hkeep : ∀ r res, w.heap[r]? = some res → res._textures ≠ [] → 0 < uses w.objs r →
      0 < uses objs r) : Books { w with objs := objs, gl := gl } where
  inv := hb.inv
  bookkept h := by
    show w.mgr.is_valid h ↔ _
    rw [hb.bookkept h, listed_iff, listed_iff]
    constructor
    · rintro ⟨r, res, hpos, hres, hmem⟩
      exact ⟨r, res, hkeep r res hres (List.ne_nil_of_mem hmem) hpos, hres, hmem⟩
    · rintro ⟨r, res, hpos, hres, hmem⟩
      exact ⟨r, res, hsub r hpos, hres, hmem⟩
  disjoint i j r r' res res' h hr hr' hmem hmem' := by
    obtain ⟨hi, hres⟩ := resource_eq_some.mp hr
    obtain ⟨hj, hres'⟩ := resource_eq_some.mp hr'
    obtain ⟨i', hi'⟩ := uses_pos_iff.mp (hsub r (uses_pos_iff.mpr ⟨i, hi⟩))
    obtain ⟨j', hj'⟩ := uses_pos_iff.mp (hsub r' (uses_pos_iff.mpr ⟨j, hj⟩))
    exact hb.disjoint i' j' r r' res res' h (resource_eq_some.mpr ⟨hi', hres⟩)
      (resource_eq_some.mpr ⟨hj', hres'⟩) hmem hmem'
  bound i r hi := by
    obtain ⟨j, hj⟩ := uses_pos_iff.mp (hsub r (uses_pos_iff.mpr ⟨i, hi⟩))
    exact hb.bound j r hj

/-- A resource that lists a handle goes out of use: the handle stays live. -/
theorem not_bookkept_of_lost (hb : Books w) (hr : w.resource i = some (r, res))
    (hne : res._textures ≠ []) {objs : Objects SharedMesh} (gl : Ledger GLName)
    (hzero : uses objs r = 0) (hsub : ∀ r', 0 < uses objs r' → 0 < uses w.objs r') :
    ¬ Bookkept { w with objs := objs, gl := gl } := by
  intro hb'
  obtain ⟨h, hmem⟩ := List.exists_mem_of_ne_nil _ hne
  have hvalid : w.mgr.is_valid h := (hb.bookkept h).mpr ⟨i, r, res, hr, hmem⟩
  obtain ⟨r', res', hpos, hres', hmem'⟩ := listed_iff.mp ((hb' h).mp hvalid)
  obtain ⟨j, hj⟩ := uses_pos_iff.mp (hsub r' hpos)
  obtain rfl : r = r' := hb.disjoint i j r r' res res' h hr
    (resource_eq_some.mpr ⟨hj, hres'⟩) hmem hmem'
  exact absurd hzero (Nat.ne_of_gt hpos)

/-! ## Operations that acquire -/

/-- The resource at `r` is overwritten. -/
theorem resource_set {res' : MeshRes V} (hres : w.heap[r]? = some res) (mgr : TextureMgr F)
    {j r' : Nat} {res'' : MeshRes V} :
    resource { w with heap := w.heap.set r res', mgr := mgr } j = some (r', res'') ↔
      (w.objs.live j = some ⟨some r⟩ ∧ r' = r ∧ res'' = res') ∨
        (r' ≠ r ∧ w.resource j = some (r', res'')) := by
  have hlt := (List.getElem?_eq_some_iff.mp hres).1
  rw [resource_eq_some, resource_eq_some]
  by_cases hrr : r' = r
  · subst hrr
    simp [hlt, eq_comm]
  · simp [List.getElem?_set_ne (Ne.symm hrr), hrr]

/-- Who lists a handle when `hs` is appended: a resource that did, or the one that got it. -/
theorem listed_append (hr : w.resource i = some (r, res)) {hs : List Handle}
    (mgr : TextureMgr F) {j r' : Nat} {res' : MeshRes V} {h : Handle}
    (hj : resource { w with
      heap := w.heap.set r { res with _textures := res._textures ++ hs }, mgr := mgr } j =
        some (r', res')) (hmem : h ∈ res'._textures) :
    (h ∈ hs ∧ r' = r) ∨ ∃ res'', w.resource j = some (r', res'') ∧ h ∈ res''._textures := by
  obtain ⟨-, hres⟩ := resource_eq_some.mp hr
  rcases (resource_set hres mgr).mp hj with ⟨hlive, rfl, rfl⟩ | ⟨-, hold⟩
  · rcases List.mem_append.mp hmem with hmem | hmem
    · exact .inr ⟨res, resource_eq_some.mpr ⟨hlive, hres⟩, hmem⟩
    · exact .inl ⟨hmem, rfl⟩
  · exact .inr ⟨res', hold, hmem⟩

/-- Handles that were not live are acquired, and one resource lists them beside what was listed. -/
theorem Books.gain {w' : MeshWorld F V} (hb : Books w) {hs : List Handle}
    (hnew : ∀ h ∈ hs, ¬ w.mgr.is_valid h) (hinv : PoolInv w'.mgr)
    (hval : ∀ h, w'.mgr.is_valid h ↔ h ∈ hs ∨ w.mgr.is_valid h)
    (hlists : ∀ j r' res' h, w'.resource j = some (r', res') → h ∈ res'._textures →
      (h ∈ hs ∧ r' = r) ∨ ∃ res'', w.resource j = some (r', res'') ∧ h ∈ res''._textures)
    (hgained : ∀ h ∈ hs, Listed w' h) (hkept : ∀ h, Listed w h → Listed w' h)
    (hbound : ∀ j r', w'.objs.live j = some ⟨some r'⟩ → r' < w'.heap.length) : Books w' := by
  -- a new handle is listed by no resource of before
  have hfresh : ∀ {j r' res' h}, w.resource j = some (r', res') → h ∈ hs → h ∉ res'._textures :=
    fun hj hh hmem => hnew _ hh ((hb.bookkept _).mpr ⟨_, _, _, hj, hmem⟩)
  refine ⟨hinv, fun h => ?_, fun j k r1 r2 res1 res2 h h1 h2 hm1 hm2 => ?_, hbound⟩
  · rw [hval h, hb.bookkept h]
    constructor
    · rintro (hmem | hlisted)
      · exact hgained h hmem
      · exact hkept h hlisted
    · rintro ⟨j, r', res', hj, hmem⟩
      rcases hlists j r' res' h hj hmem with ⟨hmem, -⟩ | ⟨res'', hold, hmem⟩
      · exact .inl hmem
      · exact .inr ⟨j, r', res'', hold, hmem⟩
  · rcases hlists j r1 res1 h h1 hm1 with ⟨hh1, hr1⟩ | ⟨_, hold1, hm1⟩ <;>
      rcases hlists k r2 res2 h h2 hm2 with ⟨hh2, hr2⟩ | ⟨_, hold2, hm2⟩
    · rw [hr1, hr2]
    · exact absurd hm2 (hfresh hold2 hh1)
    · exact absurd hm1 (hfresh hold1 hh2)
    · exact hb.disjoint j k r1 r2 _ _ h hold1 hold2 hm1 hm2

/-- The resource of a mesh lists the handles that are acquired. -/
theorem Books.append (hb : Books w) (hr : w.resource i = some (r, res)) {hs : List Handle}
    {mgr : TextureMgr F} (hnew : ∀ h ∈ hs, ¬ w.mgr.is_valid h) (hinv : PoolInv mgr)
    (hval : ∀ h, mgr.is_valid h ↔ h ∈ hs ∨ w.mgr.is_valid h) :
    Books { w with
      heap := w.heap.set r { res with _textures := res._textures ++ hs }, mgr := mgr } := by
  obtain ⟨hi, hres⟩ := resource_eq_some.mp hr
  refine hb.gain hnew hinv hval (fun j r' res' h => listed_append hr mgr) (fun h hmem => ?_)
    (fun h hlisted => ?_) (fun j r' hj => ?_)
  · exact ⟨i, r, _, (resource_set hres mgr).mpr (.inl ⟨hi, rfl, rfl⟩),
      List.mem_append_right _ hmem⟩
  · obtain ⟨j, r', res', hj, hmem⟩ := hlisted
    by_cases hrr : r' = r
    · subst hrr
      obtain ⟨hlive, hres'⟩ := resource_eq_some.mp hj
      obtain rfl : res = res' := Option.some.inj (hres.symm.trans hres')
      exact ⟨j, r', _, (resource_set hres mgr).mpr (.inl ⟨hlive, rfl, rfl⟩),
        List.mem_append_left _ hmem⟩
    · exact ⟨j, r', res', (resource_set hres mgr).mpr (.inr ⟨hrr, hj⟩), hmem⟩
  · show r' < (w.heap.set r _).length
    rw [List.length_set]
    exact hb.bound j r' hj

/-- A mesh with a new resource. -/
theorem resource_new (hb : Books w) (new : MeshRes V) (mgr : TextureMgr F) (gl : Ledger GLName)
    {j r' : Nat} {res'' : MeshRes V} :
    resource ⟨w.objs.push ⟨some w.heap.length⟩, w.heap ++ [new], mgr, gl⟩ j = some (r', res'') ↔
      (j = w.objs.size ∧ r' = w.heap.length ∧ res'' = new) ∨
        w.resource j = some (r', res'') := by
  rw [resource_eq_some, resource_eq_some, Objects.live_push]
  by_cases hj : j = w.objs.size
  · subst hj
    simp only [Function.update_self, Objects.live_size, reduceCtorEq, false_and, or_false,
      Option.some.injEq, SharedMesh.mk.injEq, true_and]
    constructor
    · rintro ⟨rfl, hres⟩
      exact ⟨rfl, by simpa [eq_comm] using hres⟩
    · rintro ⟨rfl, rfl⟩
      simp
  · rw [Function.update_of_ne hj]
    simp only [hj, false_and, false_or]
    refine and_congr_right fun hlive => ?_
    rw [List.getElem?_append_left (hb.bound j r' hlive)]

theorem Books.new (hb : Books w) (vertices : List V) (indices : List UInt32)
    (names : Primitive) (gl : Ledger GLName) {hs : List Handle} {mgr : TextureMgr F}
    (hnew : ∀ h ∈ hs, ¬ w.mgr.is_valid h) (hinv : PoolInv mgr)
    (hval : ∀ h, mgr.is_valid h ↔ h ∈ hs ∨ w.mgr.is_valid h) :
    Books ⟨w.objs.push ⟨some w.heap.length⟩, w.heap ++ [⟨vertices, indices, hs, names⟩], mgr,
      gl⟩ := by
  refine hb.gain (r := w.heap.length) hnew hinv hval (fun j r' res' h hj hmem => ?_)
    (fun h hmem => ?_) (fun h hlisted => ?_) (fun j r' hj => ?_)
  · rcases (resource_new hb _ mgr gl).mp hj with ⟨-, hr, rfl⟩ | hold
    · exact .inl ⟨hmem, hr⟩
    · exact .inr ⟨res', hold, hmem⟩
  · exact ⟨_, _, _, (resource_new hb _ mgr gl).mpr (.inl ⟨rfl, rfl, rfl⟩), hmem⟩
  · obtain ⟨j, r', res', hj, hmem⟩ := hlisted
    exact ⟨j, r', res', (resource_new hb _ mgr gl).mpr (.inr hj), hmem⟩
  · show r' < (w.heap ++ _).length
    rw [List.length_append]
    rw [Objects.live_push] at hj
    by_cases hjs : j = w.objs.size
    · rw [hjs, Function.update_self] at hj
      cases hj
      simp
    · rw [Function.update_of_ne hjs] at hj
      exact Nat.lt_add_right _ (hb.bound j r' hj)

/-! ## One operation -/

theorem call_none {f : MeshRes V → TextureMgr F → Option errc × MeshRes V × TextureMgr F}
    (hr : w.resource i = none) : (w.call i f).2 = w := by
  unfold call
  rw [hr]

theorem call_some {f : MeshRes V → TextureMgr F → Option errc × MeshRes V × TextureMgr F}
    (hr : w.resource i = some (r, res)) :
    (w.call i f).2 =
      { w with heap := w.heap.set r (f res w.mgr).2.1, mgr := (f res w.mgr).2.2 } := by
  unfold call
  rw [hr]

/-- A call that changes nothing. -/
theorem call_idle {f : MeshRes V → TextureMgr F → Option errc × MeshRes V × TextureMgr F}
    (hf : ∀ res, (f res w.mgr).2 = (res, w.mgr)) : (w.call i f).2 = w := by
  cases hr : w.resource i with
  | none => exact call_none hr
  | some p =>
    obtain ⟨r, res⟩ := p
    have hlt := List.getElem?_eq_some_iff.mp (resource_eq_some.mp hr).2
    rw [call_some hr, hf, ← hlt.2, List.set_getElem_self]

/-- An acquisition that `setTex` appends to the list of its mesh. -/
theorem books_setTexs_append (hb : Books w) (i : Nat) (t : Texture2D F)
    (texs : List (Texture2D F))
    (hf : Fits (w.call i fun res mgr => res.setTexs t texs .append mgr).2.mgr) :
    Books (w.call i fun res mgr => res.setTexs t texs .append mgr).2 := by
  cases hr : w.resource i with
  | none => rw [call_none hr]; exact hb
  | some p =>
    obtain ⟨r, res⟩ := p
    have heq : res.setTexs t texs .append w.mgr =
        (none, { res with _textures := res._textures ++ (acquireTextures t texs w.mgr).1 },
          (acquireTextures t texs w.mgr).2) := MeshRes.setTexEach_append t texs res w.mgr
    rw [call_some hr, heq] at hf ⊢
    obtain ⟨hnew, hinv, hval⟩ := acquireTextures_spec hb.inv texs hf
    exact hb.append hr hnew hinv hval

/-- `setTex` of one texture is the vector form of a list with one element. -/
theorem setTexs_singleton (t tex : Texture2D F) (policy : UpdateMode) (res : MeshRes V)
    (mgr : TextureMgr F) : res.setTexs t [tex] policy mgr = res.setTex t tex policy mgr := by
  unfold MeshRes.setTexs MeshRes.setTex MeshRes.setTexEach
  split_ifs <;> simp_all [MeshRes.setTex, MeshRes.setTexEach]

theorem policy_cases (policy : UpdateMode) :
    policy = .append ∨ policy = .remove ∨ (policy ≠ .append ∧ policy ≠ .remove) := by
  cases policy <;> simp

theorem books_setTexs (hb : Books w) (i : Nat) (t : Texture2D F) (texs : List (Texture2D F))
    (policy : UpdateMode)
    (hf : Fits (w.call i fun res mgr => res.setTexs t texs policy mgr).2.mgr)
    (hg : (w.resource i).isSome → policy = .remove → texs = []) :
    Books (w.call i fun res mgr => res.setTexs t texs policy mgr).2 := by
  rcases policy_cases policy with rfl | rfl | hp
  · exact books_setTexs_append hb i t texs hf
  · cases hr : w.resource i with
    | none => rw [call_none hr]; exact hb
    | some p =>
      obtain rfl : texs = [] := hg (by simp [hr]) rfl
      rw [call_idle fun res => rfl]
      exact hb
  · rw [call_idle fun res => by rw [MeshRes.setTexs, if_pos hp]]
    exact hb

/-- A removal leaves what it acquired to nobody. -/
theorem setTexs_remove_needs (hb : Books w) (hr : w.resource i = some (r, res))
    (t : Texture2D F) (texs : List (Texture2D F))
    (hf : Fits (w.call i fun res mgr => res.setTexs t texs .remove mgr).2.mgr)
    (hb' : Bookkept (w.call i fun res mgr => res.setTexs t texs .remove mgr).2) :
    texs = [] := by
  obtain ⟨hmgr, hsub⟩ := MeshRes.setTexEach_remove t texs res w.mgr
  obtain ⟨-, hres⟩ := resource_eq_some.mp hr
  have heq : res.setTexs t texs .remove w.mgr = MeshRes.setTexEach t .remove texs res w.mgr := rfl
  rw [call_some hr, heq, hmgr] at hf hb'
  obtain ⟨hnew, -, hval⟩ := acquireTextures_spec hb.inv texs hf
  by_contra hne
  -- a handle of the loop, live and listed by nobody
  obtain ⟨h, hmem⟩ : ∃ h, h ∈ (acquireTextures t texs w.mgr).1 := by
    obtain ⟨tex, texs', rfl⟩ := List.exists_cons_of_ne_nil hne
    have hf1 : Fits (acquireTexture t tex w.mgr).2 :=
      fits_of_le (length_le_acquireTextures t texs' (acquireTexture t tex w.mgr).2) hf
    obtain ⟨h, hh, -⟩ := acquireTexture_spec hb.inv tex hf1
    refine ⟨h, ?_⟩
    show h ∈ (acquireTexture t tex w.mgr).1.toList ++ _
    rw [hh]
    exact List.mem_append_left _ (List.mem_singleton.mpr rfl)
  have hvalid : (acquireTextures t texs w.mgr).2.is_valid h := (hval h).mpr (.inl hmem)
  obtain ⟨j, r', res', hj, hlist⟩ := (hb' h).mp hvalid
  refine hnew h hmem ((hb.bookkept h).mpr ?_)
  rcases (resource_set hres _).mp hj with ⟨hlive, rfl, rfl⟩ | ⟨-, hold⟩
  · exact ⟨j, r', res, resource_eq_some.mpr ⟨hlive, hres⟩, hsub hlist⟩
  · exact ⟨j, r', res', hold, hlist⟩

theorem books_copyConstruct (hb : Books w) (src : Nat) : Books (w.copyConstruct src) := by
  unfold copyConstruct
  cases hs : w.objs.live src with
  | none => exact hb
  | some other =>
    have hpush : ∀ r, uses (w.objs.push other) r = uses w.objs r + unit other r :=
      fun r => uses_push other r
    refine hb.of_objs w.gl (fun r h => ?_) fun r _ _ _ h => ?_
    · have := unit_le_uses hs r
      rw [hpush] at h
      omega
    · rw [hpush]
      omega

theorem books_moveConstruct (hb : Books w) (src : Nat) : Books (w.moveConstruct src) := by
  unfold moveConstruct
  cases hs : w.objs.live src with
  | none => exact hb
  | some other =>
    have hsame : ∀ r, uses ((w.objs.put src (some ⟨none⟩)).push other) r = uses w.objs r := by
      intro r
      have hput := uses_put hs ⟨none⟩ r
      rw [unit_none] at hput
      rw [uses_push]
      omega
    exact hb.of_objs w.gl (fun r h => by rwa [hsame] at h) fun r _ _ _ h => by rwa [hsame]

theorem books_copyAssign (hb : Books w) {dst src : Nat} (hg : KeepsBooks w (.copyAssign dst src)) :
    Books (w.copyAssign dst src) := by
  unfold copyAssign
  cases hd : w.objs.live dst with
  | none => exact hb
  | some m =>
    cases hs : w.objs.live src with
    | none => exact hb
    | some other =>
      refine hb.of_objs w.gl (fun r => (uses_copy hd hs r).1) fun r res hres hne hpos => ?_
      by_cases hself : dst = src
      · subst hself
        obtain rfl : m = other := Option.some.inj (hd.symm.trans hs)
        have := uses_put hd m r
        omega
      · refine ((uses_copy hd hs r).2 fun hm => ?_).mpr hpos
        have hr := resource_eq_some.mpr ⟨by rw [hd, ← hm], hres⟩
        exact (hg hself r res other hr hs).resolve_right hne

theorem books_moveAssign (hb : Books w) {dst src : Nat} (hg : KeepsBooks w (.moveAssign dst src)) :
    Books (w.moveAssign dst src) := by
  unfold moveAssign
  cases hd : w.objs.live dst with
  | none => exact hb
  | some m =>
    cases hs : w.objs.live src with
    | none => exact hb
    | some other =>
      by_cases hself : dst = src
      · simp only [hself, if_true]
        exact hb
      · simp only [hself, if_false]
        refine hb.of_objs w.gl (fun r => (uses_move hself hd hs r).1) fun r res hres hne hpos => ?_
        refine ((uses_move hself hd hs r).2 fun hm => ?_).mpr hpos
        have hr := resource_eq_some.mpr ⟨by rw [hd, ← hm], hres⟩
        exact (hg hself r res other hr hs).resolve_right hne

theorem books_destroy (hb : Books w) (hg : KeepsBooks w (.destroy i)) : Books (w.destroy i) := by
  unfold destroy
  cases hi : w.objs.live i with
  | none => exact hb
  | some m =>
    refine hb.of_objs _ (fun r h => ?_) fun r res hres hne hpos => ?_
    · have := uses_kill hi r
      omega
    · have hkill := uses_kill hi r
      have hle := unit_le_one m r
      by_cases hm : 0 < unit m r
      · have hr := resource_eq_some.mpr ⟨by rw [hi, ← unit_pos hm], hres⟩
        have := (hg r res hr).resolve_right hne
        omega
      · omega

theorem books_next (hb : Books w) (op : MeshOp F V) (hown : listsOwn op)
    (hf : Fits ((meshes F V).next w op).mgr) (hg : KeepsBooks w op) :
    Books ((meshes F V).next w op) := by
  cases op with
  | construct vertices indices t textures names =>
    have hnext : (meshes F V).next w (.construct vertices indices t textures names) =
        w.construct vertices indices t textures names := rfl
    rw [hnext] at hf ⊢
    unfold construct at hf ⊢
    split at hf
    · next hfresh =>
      rw [if_pos hfresh]
      obtain ⟨hnew, hinv, hval⟩ := acquireTextures_spec hb.inv textures hf
      exact hb.new vertices indices names _ hnew hinv hval
    · next hfresh =>
      rw [if_neg hfresh]
      exact hb
  | constructHandles vertices indices textures names => exact absurd hown id
  | setTexHandle i h policy => exact absurd hown id
  | setTex i t tex policy =>
    have hsame : (fun (res : MeshRes V) mgr => res.setTex t tex policy mgr) =
        fun res mgr => res.setTexs t [tex] policy mgr := by
      funext res mgr
      exact (setTexs_singleton t tex policy res mgr).symm
    have hnext : (meshes F V).next w (.setTex i t tex policy) =
        (w.call i fun res mgr => res.setTexs t [tex] policy mgr).2 := by rw [← hsame]; rfl
    rw [hnext] at hf ⊢
    exact books_setTexs hb i t [tex] policy hf fun hr hp => absurd hp (hg hr)
  | setTexs i t texs policy => exact books_setTexs hb i t texs policy hf hg
  | copyConstruct src => exact books_copyConstruct hb src
  | copyAssign dst src => exact books_copyAssign hb hg
  | moveConstruct src => exact books_moveConstruct hb src
  | moveAssign dst src => exact books_moveAssign hb hg
  | destroy i => exact books_destroy hb hg

/-! ## What an operation needs -/

theorem destroy_needs_books (hb : Books w) (hr : w.resource i = some (r, res))
    (hb' : Bookkept (w.destroy i)) : 1 < uses w.objs r ∨ res._textures = [] := by
  obtain ⟨hi, -⟩ := resource_eq_some.mp hr
  by_contra hg
  obtain ⟨hone, hne⟩ := not_or.mp hg
  unfold destroy at hb'
  rw [hi] at hb'
  refine not_bookkept_of_lost hb hr hne _ ?_ (fun r' h => ?_) hb'
  · have := uses_kill hi r
    rw [unit_self] at this
    omega
  · have := uses_kill hi r'
    omega

theorem copyAssign_needs_books (hb : Books w) {dst src : Nat} {other : SharedMesh}
    (hne : dst ≠ src) (hr : w.resource dst = some (r, res)) (hs : w.objs.live src = some other)
    (hb' : Bookkept (w.copyAssign dst src)) : 1 < uses w.objs r ∨ res._textures = [] := by
  obtain ⟨hd, -⟩ := resource_eq_some.mp hr
  by_contra hg
  obtain ⟨hone, hlist⟩ := not_or.mp hg
  unfold copyAssign at hb'
  rw [hd, hs] at hb'
  exact not_bookkept_of_lost hb hr hlist w.gl (uses_copy_last hne hd hs (by omega))
    (fun r' => (uses_copy hd hs r').1) hb'

theorem moveAssign_needs_books (hb : Books w) {dst src : Nat} {other : SharedMesh}
    (hne : dst ≠ src) (hr : w.resource dst = some (r, res)) (hs : w.objs.live src = some other)
    (hb' : Bookkept (w.moveAssign dst src)) : 1 < uses w.objs r ∨ res._textures = [] := by
  obtain ⟨hd, -⟩ := resource_eq_some.mp hr
  by_contra hg
  obtain ⟨hone, hlist⟩ := not_or.mp hg
  unfold moveAssign at hb'
  rw [hd, hs] at hb'
  dsimp only at hb'
  rw [if_neg hne] at hb'
  exact not_bookkept_of_lost hb hr hlist w.gl (uses_move_last hne hd hs (by omega))
    (fun r' => (uses_move hne hd hs r').1) hb'

theorem keepsBooks_of_bookkept (hb : Books w) (op : MeshOp F V)
    (hf : Fits ((meshes F V).next w op).mgr) (hb' : Bookkept ((meshes F V).next w op)) :
    KeepsBooks w op := by
  cases op with
  | setTex i t tex policy =>
    intro hr hp
    obtain ⟨⟨r, res⟩, hr⟩ := Option.isSome_iff_exists.mp hr
    subst hp
    have hsame : (fun (res : MeshRes V) mgr => res.setTex t tex .remove mgr) =
        fun res mgr => res.setTexs t [tex] .remove mgr := by
      funext res mgr
      exact (setTexs_singleton t tex .remove res mgr).symm
    have hnext : (meshes F V).next w (.setTex i t tex .remove) =
        (w.call i fun res mgr => res.setTexs t [tex] .remove mgr).2 := by rw [← hsame]; rfl
    rw [hnext] at hf hb'
    exact absurd (setTexs_remove_needs hb hr t [tex] hf hb') (List.cons_ne_nil _ _)
  | setTexs i t texs policy =>
    intro hr hp
    obtain ⟨⟨r, res⟩, hr⟩ := Option.isSome_iff_exists.mp hr
    subst hp
    exact setTexs_remove_needs hb hr t texs hf hb'
  | copyAssign dst src =>
    exact fun hne r res other hr hs => copyAssign_needs_books hb hne hr hs hb'
  | moveAssign dst src =>
    exact fun hne r res other hr hs => moveAssign_needs_books hb hne hr hs hb'
  | destroy i => exact fun r res hr => destroy_needs_books hb hr hb'
  | _ => trivial

/-! ## Whole runs -/

theorem books_init : Books (meshes F V).init := by
  have hnone : ∀ i, (meshes F V).init.resource i = none := fun _ => rfl
  refine ⟨poolInv_new, fun h => iff_of_false ?_ ?_, ?_, ?_⟩
  · rw [is_valid_iff]
    rintro ⟨h0, p, hp⟩
    have hlt := (List.getElem?_eq_some_iff.mp hp).1
    have : h.index.toNat < 1 := hlt
    exact toNat_ne h0 (by rw [UInt32.toNat_zero]; omega)
  · rintro ⟨i, r, res, hr, -⟩
    rw [hnone] at hr
    cases hr
  · intro i j r r' res res' h hr
    rw [hnone] at hr
    cases hr
  · intro i r hi
    rw [show (meshes F V).init.objs = ⟨[]⟩ from rfl, Objects.live_nil] at hi
    cases hi

end MeshWorld

open MeshWorld

/-- **Exactly when the books are kept**, while `TextureMgr()` has fewer than `2^32` slots. -/
theorem bookkept_iff (ops : List (MeshOp F V)) (hown : ∀ op ∈ ops, listsOwn op)
    (hfit : (meshes F V).EveryState ops fun w => Fits w.mgr) :
    (meshes F V).EveryState ops Bookkept ↔ (meshes F V).EveryStep ops KeepsBooks :=
  Machine.everyState_iff_guard_of_under
    ((Machine.everyStep_of_inputs hown).and hfit.everyStep_next) (fun _ h => h.bookkept)
    books_init (fun _ op hI hb hg => books_next hb op hI.1 hI.2 hg)
    fun _ op hI hb hb' => keepsBooks_of_bookkept hb op hI.2 hb'

/-- A texture named `name`. -/
def textureNamed (name : String) : Texture2D Nat := ⟨{ name := name }, [], false, SIZE_T_MAX⟩

/-- A mesh with one texture, and another appended to it. -/
def appends : List (MeshOp Nat Unit) :=
  [.construct [] [] (textureNamed "") [textureNamed "texture_diffuse"] ⟨1, 1, 2⟩,
    .setTex 0 (textureNamed "") (textureNamed "texture_specular") .append, .copyConstruct 0,
    .destroy 1]

theorem bookkept_iff_appends :
    (meshes Nat Unit).EveryState appends Bookkept ↔
      (meshes Nat Unit).EveryStep appends KeepsBooks :=
  bookkept_iff appends (by simp [appends, listsOwn]) (by decide)

/-- Removing the only texture of a mesh leaves the handle it had and a new one. -/
theorem remove_forgets :
    ¬ (meshes Nat Unit).EveryState
      [.construct [] [] (textureNamed "") [textureNamed "texture_diffuse"] ⟨1, 1, 2⟩,
        .setTex 0 (textureNamed "") (textureNamed "texture_diffuse") .remove] Bookkept := by
  intro h
  obtain ⟨i, r, res, hr, hmem⟩ := (h.last ⟨2, 1⟩).mp (by decide)
  match i with
  | 0 =>
    cases hr
    revert hmem
    decide
  | i + 1 => cases hr

end LearnNotes.Graphics
