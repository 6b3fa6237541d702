import LearnNotes.Graphics.MeshWorld
import LearnNotes.Lib.Ownership

/-!
# Who owns the buffers of a mesh

`BuffersOwned` is what a run should keep: the GL objects of every resource a live mesh refers
to exist, every GL object is one of these, and none is deleted twice. The destructor deletes
whether or not it is the last owner, and the assignments drop a resource without deleting.
`buffersOwned_iff`: a run keeps ownership exactly when a mesh is only destroyed as the last
owner of its resource, and only assigned to when it is not.
-/

namespace LearnNotes.Graphics

open Lib Memory

variable {F V : Type}

namespace MeshWorld

/-! ## Ownership -/

/-- The names a resource that is in use holds. -/
def holding (w : MeshWorld F V) (x : Nat × BufferKind) : Option (GLName × Unit) :=
  if 0 < uses w.objs x.1 then w.heap[x.1]?.map fun res => (res._primitives.name x.2, ())
  else none

/-- The agreement of GL's objects with the resources in use. -/
structure OwnsBuffers (w : MeshWorld F V) : Prop where
  owned : Owned w.gl.tab w.holding
  wellUsed : w.gl.WellUsed
  bound : ∀ i r, w.objs.live i = some ⟨some r⟩ → r < w.heap.length

/-- The GL objects of the meshes' resources exist, no others do, and none is deleted twice. -/
structure BuffersOwned (w : MeshWorld F V) : Prop where
  noDangling : ∀ i r res, w.resource i = some (r, res) → ∀ k, res._primitives.name k ∈ w.gl.live
  noLeak : ∀ n ∈ w.gl.live, ∃ i r res k, w.resource i = some (r, res) ∧
    res._primitives.name k = n
  wellUsed : w.gl.WellUsed

/-- What ownership needs of an operation: who destroys is the last owner, and who is assigned
to is not. -/
def KeepsBuffers (w : MeshWorld F V) : MeshOp F V → Prop
  | .destroy i => ∀ r, w.objs.live i = some ⟨some r⟩ → uses w.objs r = 1
  | .copyAssign dst src | .moveAssign dst src => dst ≠ src → ∀ r other,
      w.objs.live dst = some ⟨some r⟩ → w.objs.live src = some other → 1 < uses w.objs r
  | _ => True

variable {w w' : MeshWorld F V} {objs : Objects SharedMesh} {i r : Nat} {m : SharedMesh}
  {res : MeshRes V} {k : BufferKind} {n : GLName}

theorem holding_eq_some : w.holding (r, k) = some (n, ()) ↔
    ∃ i res, w.resource i = some (r, res) ∧ res._primitives.name k = n := by
  unfold holding
  constructor
  · intro h
    split at h
    · next hpos =>
      obtain ⟨i, hi⟩ := uses_pos_iff.mp hpos
      obtain ⟨res, hres, he⟩ := Option.map_eq_some_iff.mp h
      cases he
      exact ⟨i, res, resource_eq_some.mpr ⟨hi, hres⟩, rfl⟩
    · cases h
  · rintro ⟨i, res, h, rfl⟩
    obtain ⟨hi, hres⟩ := resource_eq_some.mp h
    rw [if_pos (uses_pos_iff.mpr ⟨i, hi⟩), hres]
    rfl

theorem OwnsBuffers.exists_resource (h : OwnsBuffers w) (hi : w.objs.live i = some ⟨some r⟩) :
    ∃ res, w.resource i = some (r, res) :=
  ⟨_, resource_eq_some.mpr ⟨hi, List.getElem?_eq_getElem (h.bound i r hi)⟩⟩

theorem OwnsBuffers.buffersOwned (h : OwnsBuffers w) : BuffersOwned w where
  noDangling i r res hr k :=
    present_eq_some.mp (h.owned.sound (holding_eq_some.mpr ⟨i, res, hr, rfl⟩))
  noLeak n hn := by
    obtain ⟨⟨r, k⟩, hr⟩ := h.owned.total (present_eq_some.mpr hn)
    obtain ⟨i, res, hi, hk⟩ := holding_eq_some.mp hr
    exact ⟨i, r, res, k, hi, hk⟩
  wellUsed := h.wellUsed

theorem holding_congr (hu : ∀ r, 0 < uses w'.objs r ↔ 0 < uses w.objs r)
    (hp : ∀ r : Nat, w'.heap[r]?.map MeshRes._primitives = w.heap[r]?.map MeshRes._primitives) :
    w'.holding = w.holding := by
  funext ⟨r, k⟩
  have hname := congrArg (Option.map fun p : Primitive => (p.name k, ())) (hp r)
  rw [Option.map_map, Option.map_map] at hname
  unfold holding
  by_cases hpos : 0 < uses w.objs r
  · rw [if_pos hpos, if_pos ((hu r).mpr hpos)]
    exact hname
  · rw [if_neg hpos, if_neg fun h => hpos ((hu r).mp h)]

/-- An operation that moves pointers around: the same resources are in use. -/
theorem OwnsBuffers.of_objs (h : OwnsBuffers w) {objs : Objects SharedMesh}
    (hu : ∀ r, 0 < uses objs r ↔ 0 < uses w.objs r) : OwnsBuffers { w with objs := objs } where
  owned := by
    have hsame : holding { w with objs := objs } = w.holding := holding_congr hu fun _ => rfl
    rw [hsame]
    exact h.owned
  wellUsed := h.wellUsed
  bound i r hi := by
    obtain ⟨j, hj⟩ := uses_pos_iff.mp ((hu r).mp (uses_pos_iff.mpr ⟨i, hi⟩))
    exact h.bound j r hj

/-! ## Construction -/

/-- The three names of a new resource go to it. -/
theorem owned_gen {hold : Nat × BufferKind → Option (GLName × Unit)} {gl : Ledger GLName}
    {names : Primitive} (h : Owned gl.tab hold) (hf : names.Fresh gl)
    (hr : ∀ k, hold (r, k) = none) :
    Owned (names.gen gl).tab (Function.update (Function.update (Function.update hold
      (r, .VAO) (some (names.name .VAO, ()))) (r, .VBO) (some (names.name .VBO, ())))
      (r, .EBO) (some (names.name .EBO, ()))) := by
  obtain ⟨-, -, -, hne, hnew⟩ := hf
  have hne' : names.name .EBO ≠ names.name .VBO := fun he => hne (GLName.buffer.inj he).symm
  unfold Primitive.gen
  rw [Ledger.tab_create, Ledger.tab_create, Ledger.tab_create]
  have h1 := h.grant (a := ()) (hr .VAO) (Ledger.tab_eq_none.mpr (hnew .VAO))
  have h2 := h1.grant (i := (r, .VBO)) (k := names.name .VBO) (a := ())
    (by rw [Function.update_of_ne (by simp), hr])
    (by rw [Function.update_of_ne (by simp [Primitive.name]), Ledger.tab_eq_none.mpr (hnew .VBO)])
  refine h2.grant (by simp [hr]) ?_
  rw [Function.update_of_ne hne', Function.update_of_ne (by simp [Primitive.name]),
    Ledger.tab_eq_none.mpr (hnew .EBO)]

theorem wellUsed_gen {gl : Ledger GLName} {names : Primitive} (h : gl.WellUsed)
    (hf : names.Fresh gl) : (names.gen gl).WellUsed := by
  obtain ⟨-, -, -, hne, hnew⟩ := hf
  refine ⟨?_, ?_, hnew .VAO, h⟩
  · have h3 := hnew .EBO
    simp only [Ledger.live_create, Finset.mem_insert, not_or]
    exact ⟨fun he => hne (GLName.buffer.inj he).symm, by simp [Primitive.name], h3⟩
  · have h2 := hnew .VBO
    simp only [Ledger.live_create, Finset.mem_insert, not_or]
    exact ⟨by simp [Primitive.name], h2⟩

/-- A new resource holds its own names, and the others hold what they did. -/
theorem holding_new (h : OwnsBuffers w) (vertices : List V) (indices : List UInt32)
    (hs : List Handle) (names : Primitive) (mgr : TextureMgr F) :
    holding { objs := w.objs.push ⟨some w.heap.length⟩
              heap := w.heap ++ [⟨vertices, indices, hs, names⟩]
              mgr := mgr
              gl := names.gen w.gl } =
      Function.update (Function.update (Function.update w.holding
        (w.heap.length, .VAO) (some (names.name .VAO, ())))
        (w.heap.length, .VBO) (some (names.name .VBO, ())))
        (w.heap.length, .EBO) (some (names.name .EBO, ())) := by
  funext ⟨r, k⟩
  by_cases hr : r = w.heap.length
  · subst hr
    have hone : 0 < uses (w.objs.push ⟨some w.heap.length⟩) w.heap.length := by
      rw [uses_push, unit_self]
      omega
    unfold holding
    rw [if_pos hone]
    cases k <;> simp
  · have hsame : uses (w.objs.push ⟨some w.heap.length⟩) r = uses w.objs r := by
      rw [uses_push, unit_other hr]
      rfl
    simp only [Function.update_apply, Prod.mk.injEq, hr, false_and, if_false]
    unfold holding
    simp only [hsame]
    by_cases hpos : 0 < uses w.objs r
    · obtain ⟨i, hi⟩ := uses_pos_iff.mp hpos
      rw [if_pos hpos, if_pos hpos, List.getElem?_append_left (h.bound i r hi)]
    · rw [if_neg hpos, if_neg hpos]

theorem ownsBuffers_new (h : OwnsBuffers w) {names : Primitive} (hf : names.Fresh w.gl)
    (vertices : List V) (indices : List UInt32) (hs : List Handle) (mgr : TextureMgr F) :
    OwnsBuffers { objs := w.objs.push ⟨some w.heap.length⟩
                  heap := w.heap ++ [⟨vertices, indices, hs, names⟩]
                  mgr := mgr
                  gl := names.gen w.gl } := by
  -- nobody refers to the place yet
  have hzero : uses w.objs w.heap.length = 0 := by
    by_contra hpos
    obtain ⟨i, hi⟩ := uses_pos_iff.mp (Nat.pos_of_ne_zero hpos)
    exact Nat.lt_irrefl _ (h.bound i _ hi)
  refine ⟨?_, wellUsed_gen h.wellUsed hf, fun i r hi => ?_⟩
  · have hnone : ∀ k, w.holding (w.heap.length, k) = none := fun k => by
      unfold holding
      rw [hzero]
      rfl
    rw [holding_new h]
    exact owned_gen h.owned hf hnone
  · rw [Objects.live_push] at hi
    rw [List.length_append, List.length_singleton]
    by_cases his : i = w.objs.size
    · rw [his, Function.update_self] at hi
      cases hi
      omega
    · rw [Function.update_of_ne his] at hi
      have := h.bound i r hi
      omega

/-! ## Destruction -/

/-- The three names of a resource that is given up are deleted. -/
theorem owned_delete {hold : Nat × BufferKind → Option (GLName × Unit)} {gl : Ledger GLName}
    {names : Primitive} (h : Owned gl.tab hold)
    (hr : ∀ k, hold (r, k) = some (names.name k, ())) :
    Owned (names.delete gl).tab (Function.update (Function.update (Function.update hold
      (r, .VAO) none) (r, .VBO) none) (r, .EBO) none) := by
  unfold Primitive.delete
  rw [Ledger.tab_delete, Ledger.tab_delete, Ledger.tab_delete]
  refine ((h.drop (hr .VAO)).drop (i := (r, .VBO)) (a := ()) ?_).drop (i := (r, .EBO)) (a := ()) ?_
  · rw [Function.update_of_ne (by simp), hr]
  · rw [Function.update_of_ne (by simp), Function.update_of_ne (by simp), hr]

theorem names_ne (h : OwnsBuffers w) (hr : w.resource i = some (r, res)) {k k' : BufferKind}
    (hk : k ≠ k') : res._primitives.name k ≠ res._primitives.name k' := by
  intro he
  have hsame : ((r, k) : Nat × BufferKind) = (r, k') :=
    h.owned.inj (a := ()) (b := ()) (holding_eq_some.mpr ⟨i, res, hr, rfl⟩)
      (holding_eq_some.mpr ⟨i, res, hr, he.symm⟩)
  exact hk (congrArg Prod.snd hsame)

theorem wellUsed_delete (h : OwnsBuffers w) (hr : w.resource i = some (r, res)) :
    (res._primitives.delete w.gl).WellUsed := by
  have hlive := h.buffersOwned.noDangling i r res hr
  refine ⟨?_, ?_, hlive .VAO, h.wellUsed⟩
  · simp only [Ledger.live_delete, Finset.mem_erase]
    exact ⟨names_ne h hr (by simp), names_ne h hr (by simp), hlive .EBO⟩
  · simp only [Ledger.live_delete, Finset.mem_erase]
    exact ⟨names_ne h hr (by simp), hlive .VBO⟩

theorem not_mem_delete (names : Primitive) (gl : Ledger GLName) :
    names.name .EBO ∉ (names.delete gl).live := by
  simp [Primitive.delete]

/-- The last owner of a resource is destroyed. -/
theorem ownsBuffers_last (h : OwnsBuffers w) (hr : w.resource i = some (r, res))
    (hone : uses w.objs r = 1) :
    OwnsBuffers { w with objs := w.objs.put i none, gl := res._primitives.delete w.gl } := by
  obtain ⟨hi, hres⟩ := resource_eq_some.mp hr
  have hzero : uses (w.objs.put i none) r = 0 := by
    have := uses_kill hi r
    rw [unit_self] at this
    omega
  have hother : ∀ r', r' ≠ r → uses (w.objs.put i none) r' = uses w.objs r' := fun r' hne => by
    have := uses_kill hi r'
    rw [unit_other hne] at this
    omega
  refine ⟨?_, wellUsed_delete h hr, fun j r' hj => ?_⟩
  · convert owned_delete h.owned fun k => holding_eq_some.mpr ⟨i, res, hr, rfl⟩ using 1
    funext ⟨r', k⟩
    by_cases hrr : r' = r
    · subst hrr
      unfold holding
      rw [hzero]
      cases k <;> simp
    · simp only [Function.update_apply, Prod.mk.injEq, hrr, false_and, if_false]
      unfold holding
      simp only [hother r' hrr]
  · rw [Objects.live_put hi] at hj
    by_cases hji : j = i
    · rw [hji, Function.update_self] at hj
      cases hj
    · rw [Function.update_of_ne hji] at hj
      exact h.bound j r' hj

/-! ## One operation -/

/-- Member functions leave the GL objects alone. -/
theorem ownsBuffers_call (h : OwnsBuffers w) (i : Nat)
    {f : MeshRes V → TextureMgr F → Option errc × MeshRes V × TextureMgr F}
    (hf : ∀ res mgr, (f res mgr).2.1._primitives = res._primitives) :
    OwnsBuffers (w.call i f).2 := by
  unfold call
  cases hr : w.resource i with
  | none => exact h
  | some p =>
    obtain ⟨r, res⟩ := p
    obtain ⟨-, hres⟩ := resource_eq_some.mp hr
    have hsame : holding { w with
        heap := w.heap.set r (f res w.mgr).2.1, mgr := (f res w.mgr).2.2 } = w.holding := by
      refine holding_congr (fun _ => Iff.rfl) fun r' => ?_
      show ((w.heap.set r (f res w.mgr).2.1)[r']?).map _ = _
      by_cases hrr : r' = r
      · subst hrr
        have hlt := (List.getElem?_eq_some_iff.mp hres).1
        rw [List.getElem?_set_self hlt, hres]
        exact congrArg some (hf res w.mgr)
      · rw [List.getElem?_set_ne (Ne.symm hrr)]
    refine ⟨?_, h.wellUsed, fun j r' hj => ?_⟩
    · rw [hsame]
      exact h.owned
    · show r' < (w.heap.set r _).length
      rw [List.length_set]
      exact h.bound j r' hj

theorem primitives_setTex (t tex : Texture2D F) (policy : UpdateMode) (res : MeshRes V)
    (mgr : TextureMgr F) : (res.setTex t tex policy mgr).2.1._primitives = res._primitives := by
  unfold MeshRes.setTex
  split_ifs <;> rfl

theorem primitives_setTexEach (t : Texture2D F) (policy : UpdateMode) (texs : List (Texture2D F))
    (res : MeshRes V) (mgr : TextureMgr F) :
    (MeshRes.setTexEach t policy texs res mgr).2.1._primitives = res._primitives := by
  induction texs generalizing res mgr with
  | nil => rfl
  | cons tex texs ih =>
    have hfst := primitives_setTex t tex policy res mgr
    unfold MeshRes.setTexEach
    split
    · next hs =>
      rw [hs] at hfst
      exact hfst
    · next hs =>
      rw [hs] at hfst
      exact (ih _ _).trans hfst

theorem primitives_setTexs (t : Texture2D F) (texs : List (Texture2D F)) (policy : UpdateMode)
    (res : MeshRes V) (mgr : TextureMgr F) :
    (res.setTexs t texs policy mgr).2.1._primitives = res._primitives := by
  unfold MeshRes.setTexs
  split
  · rfl
  · exact primitives_setTexEach t policy texs res mgr

theorem primitives_setTexHandle (h : Handle) (policy : UpdateMode) (res : MeshRes V)
    (mgr : TextureMgr F) : (res.setTexHandle h policy mgr).2.1._primitives = res._primitives := by
  unfold MeshRes.setTexHandle
  split_ifs <;> rfl

theorem ownsBuffers_construct (h : OwnsBuffers w) (vertices : List V) (indices : List UInt32)
    (t : Texture2D F) (textures : List (Texture2D F)) (names : Primitive) :
    OwnsBuffers (w.construct vertices indices t textures names) := by
  unfold construct
  split
  · next hf => exact ownsBuffers_new h hf vertices indices _ _
  · exact h

theorem ownsBuffers_constructHandles (h : OwnsBuffers w) (vertices : List V)
    (indices : List UInt32) (textures : List Handle) (names : Primitive) :
    OwnsBuffers (w.constructHandles vertices indices textures names) := by
  unfold constructHandles
  split
  · next hf => exact ownsBuffers_new h hf vertices indices textures w.mgr
  · exact h

theorem ownsBuffers_copyConstruct (h : OwnsBuffers w) (src : Nat) :
    OwnsBuffers (w.copyConstruct src) := by
  unfold copyConstruct
  cases hs : w.objs.live src with
  | none => exact h
  | some other =>
    refine h.of_objs fun r => ?_
    have hle := unit_le_uses hs r
    rw [uses_push]
    omega

theorem ownsBuffers_moveConstruct (h : OwnsBuffers w) (src : Nat) :
    OwnsBuffers (w.moveConstruct src) := by
  unfold moveConstruct
  cases hs : w.objs.live src with
  | none => exact h
  | some other =>
    refine h.of_objs fun r => ?_
    have hput := uses_put hs ⟨none⟩ r
    rw [unit_none] at hput
    rw [uses_push]
    omega

theorem ownsBuffers_copyAssign (h : OwnsBuffers w) {dst src : Nat}
    (hg : KeepsBuffers w (.copyAssign dst src)) : OwnsBuffers (w.copyAssign dst src) := by
  unfold copyAssign
  cases hd : w.objs.live dst with
  | none => exact h
  | some m =>
    cases hs : w.objs.live src with
    | none => exact h
    | some other =>
      refine h.of_objs fun r => ?_
      by_cases hne : dst = src
      · subst hne
        obtain rfl : m = other := Option.some.inj (hd.symm.trans hs)
        have := uses_put hd m r
        omega
      · exact (uses_copy hd hs r).2 fun hr => hg hne r other (by rw [hd, ← hr]) hs

theorem ownsBuffers_moveAssign (h : OwnsBuffers w) {dst src : Nat}
    (hg : KeepsBuffers w (.moveAssign dst src)) : OwnsBuffers (w.moveAssign dst src) := by
  unfold moveAssign
  cases hd : w.objs.live dst with
  | none => exact h
  | some m =>
    cases hs : w.objs.live src with
    | none => exact h
    | some other =>
      by_cases hne : dst = src
      · simp only [hne, if_true]
        exact h
      · simp only [hne, if_false]
        exact h.of_objs fun r =>
          (uses_move hne hd hs r).2 fun hr => hg hne r other (by rw [hd, ← hr]) hs

theorem ownsBuffers_destroy (h : OwnsBuffers w) {i : Nat} (hg : KeepsBuffers w (.destroy i)) :
    OwnsBuffers (w.destroy i) := by
  unfold destroy
  cases hd : w.objs.live i with
  | none => exact h
  | some m =>
    cases hr : w.resource i with
    | none =>
      -- a mesh without a resource
      have hm : m._res = none := by
        by_contra hne
        obtain ⟨r, hr'⟩ := Option.ne_none_iff_exists'.mp hne
        obtain ⟨res, hres⟩ := h.exists_resource (i := i) (r := r) (by rw [hd, ← hr'])
        rw [hres] at hr
        cases hr
      refine h.of_objs fun r => ?_
      have := uses_kill hd r
      have hzero : unit m r = 0 := by simp [unit, hm]
      omega
    | some p =>
      obtain ⟨r, res⟩ := p
      exact ownsBuffers_last h hr (hg r (resource_eq_some.mp hr).1)

theorem ownsBuffers_next (h : OwnsBuffers w) (op : MeshOp F V) (hg : KeepsBuffers w op) :
    OwnsBuffers ((meshes F V).next w op) := by
  cases op with
  | construct vertices indices t textures names =>
    exact ownsBuffers_construct h vertices indices t textures names
  | constructHandles vertices indices textures names =>
    exact ownsBuffers_constructHandles h vertices indices textures names
  | setTex i t tex policy => exact ownsBuffers_call h i (primitives_setTex t tex policy)
  | setTexs i t texs policy => exact ownsBuffers_call h i (primitives_setTexs t texs policy)
  | setTexHandle i hh policy => exact ownsBuffers_call h i (primitives_setTexHandle hh policy)
  | copyConstruct src => exact ownsBuffers_copyConstruct h src
  | copyAssign dst src => exact ownsBuffers_copyAssign h hg
  | moveConstruct src => exact ownsBuffers_moveConstruct h src
  | moveAssign dst src => exact ownsBuffers_moveAssign h hg
  | destroy i => exact ownsBuffers_destroy h hg

/-! ## What an operation needs -/

/-- A destroyed mesh deletes what another owner still has. -/
theorem destroy_needs (h : OwnsBuffers w) (hi : w.objs.live i = some ⟨some r⟩)
    (h' : BuffersOwned (w.destroy i)) : uses w.objs r = 1 := by
  obtain ⟨res, hr⟩ := h.exists_resource hi
  have hres := (resource_eq_some.mp hr).2
  have hkill := uses_kill hi r
  rw [unit_self] at hkill
  unfold destroy at h'
  rw [hi] at h'
  dsimp only at h'
  rw [hr] at h'
  by_contra hne
  obtain ⟨j, hj⟩ := uses_pos_iff.mp (show 0 < uses (w.objs.put i none) r by omega)
  exact not_mem_delete _ _ (h'.noDangling j r res (resource_eq_some.mpr ⟨hj, hres⟩) .EBO)

/-- A resource that nobody refers to any more keeps its GL objects. -/
theorem not_owned_of_lost (h : OwnsBuffers w) (hi : w.objs.live i = some ⟨some r⟩)
    {objs : Objects SharedMesh} (hzero : uses objs r = 0)
    (hold : ∀ r', 0 < uses objs r' → 0 < uses w.objs r') :
    ¬ BuffersOwned { w with objs := objs } := by
  intro h'
  obtain ⟨res, hr⟩ := h.exists_resource hi
  obtain ⟨j, r', res', k, hj, hk⟩ :=
    h'.noLeak _ (h.buffersOwned.noDangling i r res hr .VAO)
  obtain ⟨hj, hres'⟩ := resource_eq_some.mp hj
  have hpos : 0 < uses objs r' := uses_pos_iff.mpr ⟨j, hj⟩
  obtain ⟨j', hj'⟩ := uses_pos_iff.mp (hold r' hpos)
  have hsame : ((r', k) : Nat × BufferKind) = (r, .VAO) :=
    h.owned.inj (a := ()) (b := ())
      (holding_eq_some.mpr ⟨j', res', resource_eq_some.mpr ⟨hj', hres'⟩, hk⟩)
      (holding_eq_some.mpr ⟨i, res, hr, rfl⟩)
  obtain rfl : r' = r := congrArg Prod.fst hsame
  omega

theorem copyAssign_needs (h : OwnsBuffers w) {dst src : Nat} {other : SharedMesh}
    (hne : dst ≠ src) (hd : w.objs.live dst = some ⟨some r⟩) (hs : w.objs.live src = some other)
    (h' : BuffersOwned (w.copyAssign dst src)) : 1 < uses w.objs r := by
  unfold copyAssign at h'
  rw [hd, hs] at h'
  by_contra hg
  exact not_owned_of_lost h hd (uses_copy_last hne hd hs (by omega))
    (fun r' => (uses_copy hd hs r').1) h'

theorem moveAssign_needs (h : OwnsBuffers w) {dst src : Nat} {other : SharedMesh}
    (hne : dst ≠ src) (hd : w.objs.live dst = some ⟨some r⟩) (hs : w.objs.live src = some other)
    (h' : BuffersOwned (w.moveAssign dst src)) : 1 < uses w.objs r := by
  unfold moveAssign at h'
  rw [hd, hs] at h'
  dsimp only at h'
  rw [if_neg hne] at h'
  by_contra hg
  exact not_owned_of_lost h hd (uses_move_last hne hd hs (by omega))
    (fun r' => (uses_move hne hd hs r').1) h'

theorem keepsBuffers_of_owned (h : OwnsBuffers w) (op : MeshOp F V)
    (h' : BuffersOwned ((meshes F V).next w op)) : KeepsBuffers w op := by
  cases op with
  | destroy i => exact fun r hi => destroy_needs h hi h'
  | copyAssign dst src => exact fun hne r other hd hs => copyAssign_needs h hne hd hs h'
  | moveAssign dst src => exact fun hne r other hd hs => moveAssign_needs h hne hd hs h'
  | _ => trivial

/-! ## Whole runs -/

theorem ownsBuffers_init : OwnsBuffers (meshes F V).init := by
  refine ⟨?_, trivial, fun i r hi => ?_⟩
  · have hhold : holding (meshes F V).init = fun _ => none := rfl
    rw [hhold]
    show Owned (Ledger.tab []) _
    rw [Ledger.tab_nil]
    exact Owned.empty
  · rw [show (meshes F V).init.objs = ⟨[]⟩ from rfl, Objects.live_nil] at hi
    cases hi

/-- What a mesh draws with exists. -/
theorem draw_of_owned (h : BuffersOwned w) (i : Nat) (get : Handle → Option (Texture2D F))
    (s : Statics F) {d : DrawCall} (hd : ((w.view i).Draw get s).2.1 = some d) :
    .vertexArray d.VAO ∈ w.gl.live := by
  cases hr : w.resource i with
  | none =>
    unfold view Mesh2D.Draw at hd
    rw [hr] at hd
    cases hd
  | some p =>
    obtain ⟨r, res⟩ := p
    have hVAO : d.VAO = res._primitives.VAO := by
      unfold view Mesh2D.Draw at hd
      rw [hr] at hd
      dsimp only [Option.map_some] at hd
      split at hd
      · cases hd
      · cases hd
        rfl
    rw [hVAO]
    exact h.noDangling i r res hr .VAO

end MeshWorld

open MeshWorld

/-- **Exactly when buffers stay owned.** -/
theorem buffersOwned_iff (ops : List (MeshOp F V)) :
    (meshes F V).EveryState ops BuffersOwned ↔ (meshes F V).EveryStep ops KeepsBuffers :=
  Machine.everyState_iff_guard_of (fun _ h => h.buffersOwned) ownsBuffers_init
    (fun _ op h hg => ownsBuffers_next h op hg) fun _ op h h' => keepsBuffers_of_owned h op h'

/-- A copy of a mesh is destroyed, and with it the buffers of the mesh. -/
theorem copy_destroyed :
    ¬ (meshes Nat Unit).EveryState
      [.constructHandles [] [] [] ⟨1, 1, 2⟩, .copyConstruct 0, .destroy 1] BuffersOwned := by
  intro h
  have hgone := h.last.noDangling 0 0 ⟨[], [], [], ⟨1, 1, 2⟩⟩ rfl .EBO
  revert hgone
  decide

end LearnNotes.Graphics
