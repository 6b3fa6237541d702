import LearnNotes.Graphics.DrawLoop
import LearnNotes.Graphics.Names
import LearnNotes.Graphics.Ownership

/-!
# The active-unit cache and drawing

`TextureUnit::_activePos` is meant to be GL's active unit. `Mesh2D::Draw` ends with a
`glActiveTexture(GL_TEXTURE0)` that does not go through `TextureUnit`, so the two agree
after it only where the last texture it activated has unit 0. Along a run without moves
that is the only way to lose the agreement, and with it every `activate()` binds its own
unit and every draw has its textures bound and numbered: `drawsRight_iff`. The 32-bit
counters of `Draw` are the one further limit on the numbering.
-/

namespace LearnNotes.Graphics

open Lib World Memory

variable {F : Type}

/-! ## What is right -/

/-- An `activate()` that succeeds binds its texture on its unit and touches no other unit. -/
def ActivatesOwn (t : Texture2D F) (s : Statics F) : Prop :=
  (t.activate s).1 = none → (t.activate s).2.gl.binding t.unitPos = t.tex.ID ∧
    ∀ u, u ≠ t.unitPos → (t.activate s).2.gl.binding u = s.gl.binding u

/-- The elements are drawn with each texture on its unit, the units of no texture as they were,
and the `k`-th texture of a kind in the uniform numbered `k`. -/
structure DrawnRight (get : Handle → Option (Texture2D F)) (res : MeshImpl) (s : Statics F)
    (call : DrawCall) : Prop where
  resolved : ∀ h ∈ res.textures, (get h).isSome
  bound : ∀ t ∈ res.textures.filterMap get, call.binding t.unitPos = t.tex.ID
  other : ∀ u, (∀ t ∈ res.textures.filterMap get, t.unitPos ≠ u) → call.binding u = s.gl.binding u
  numbered : ∀ (K : Sampler) k t, (K.among (res.textures.filterMap get))[k]? = some t →
    call.uniforms (K.uniform (k + 1)) = some t.unitPos

/-- What a call has to do right. -/
def DrawsRight (w : World F) : Op F → Prop
  | .call i .activate => ∀ t, w.tex i = some t → ActivatesOwn t w.statics
  | .draw get mesh => ∀ res, mesh.res = some res →
      ∀ call, (mesh.Draw (w.resolve get) w.statics).2.1 = some call →
        DrawnRight (w.resolve get) res w.statics call
  | _ => True

/-! ## What it takes -/

/-- The last texture has unit 0; without textures, `_activePos` is 0 or unset. -/
def EndsOnZero (u : TextureUnit) (ts : List (Texture2D F)) : Prop :=
  match ts.getLast? with
  | some t => t.unitPos = 0
  | none => u.activePos = 0 ∨ u.activePos = SIZE_T_MAX

instance (u : TextureUnit) (ts : List (Texture2D F)) : Decidable (EndsOnZero u ts) := by
  unfold EndsOnZero
  split <;> infer_instance

/-- What a draw that issues `glDrawElements` needs for the active unit. -/
def KeepsActive (w : World F) : Op F → Prop
  | .draw get mesh => ∀ res, mesh.res = some res → Drawable (w.resolve get) w.table res.textures →
      EndsOnZero w.table (res.textures.filterMap (w.resolve get))
  | _ => True

/-- What it needs for the numbering. -/
def CountsFit (w : World F) : Op F → Prop
  | .draw get mesh => ∀ res, mesh.res = some res → Drawable (w.resolve get) w.table res.textures →
      ∀ K : Sampler, (K.among (res.textures.filterMap (w.resolve get))).length < 2 ^ 32
  | _ => True

instance (w : World F) : (op : Op F) → Decidable (KeepsActive w op)
  | .draw get mesh => inferInstanceAs (Decidable (∀ res ∈ mesh.res,
      Drawable (w.resolve get) w.table res.textures → EndsOnZero w.table _))
  | .construct _ _ | .moveConstruct _ | .moveAssign _ _ | .destroy _ | .call _ _ => .isTrue trivial

instance (w : World F) : (op : Op F) → Decidable (CountsFit w op)
  | .draw get mesh => inferInstanceAs (Decidable (∀ res ∈ mesh.res,
      Drawable (w.resolve get) w.table res.textures → ∀ K : Sampler, (K.among _).length < _))
  | .construct _ _ | .moveConstruct _ | .moveAssign _ _ | .destroy _ | .call _ _ => .isTrue trivial

/-! ## One `Draw` -/

section OneDraw

variable {get : Handle → Option (Texture2D F)} {mesh : Mesh2D} {res : MeshImpl} {s : Statics F}

/-- The textures a handle can resolve to have their units. -/
def HaveUnits (get : Handle → Option (Texture2D F)) (u : TextureUnit) : Prop :=
  ∀ h t, get h = some t → t.unitPos < u.maxUnits → t.HasUnit u

theorem draw_of_drawable (hr : mesh.res = some res) (hd : Drawable get s.unitMgr res.textures)
    (hs : s.Synced) (hu : HaveUnits get s.unitMgr) :
    mesh.Draw get s =
      (none,
        some ⟨res.VAO, res.indices.length,
          ((res.textures.filterMap get).foldl Statics.activated s).gl.binding,
          (numbered (res.textures.filterMap get) ⟨1, 1, fun _ => none, s⟩).uniforms⟩,
        let s := (res.textures.filterMap get).foldl Statics.activated s
        { s with gl := s.gl.glActiveTexture 0 }) := by
  unfold Mesh2D.Draw
  rw [hr]
  dsimp only
  rw [drawTextures_eq hd hs fun h _ t => hu h t]
  rfl

theorem draw_of_not_drawable (hr : mesh.res = some res)
    (hd : ¬ Drawable get s.unitMgr res.textures) (hs : s.Synced) (hu : HaveUnits get s.unitMgr) :
    (mesh.Draw get s).2.1 = none ∧ (mesh.Draw get s).2.2.Synced := by
  obtain ⟨he, hsync⟩ := drawTextures_error (d := ⟨1, 1, fun _ => none, s⟩) hd hs fun h _ t => hu h t
  unfold Mesh2D.Draw
  rw [hr]
  dsimp only
  split
  · next hd' => rw [hd'] at hsync; exact ⟨rfl, hsync⟩
  · next hd' => rw [hd'] at he; cases he

theorem activePos_activated (ts : List (Texture2D F)) (s : Statics F) :
    (ts.foldl Statics.activated s).unitMgr.activePos =
      match ts.getLast? with
      | some t => t.unitPos
      | none => s.unitMgr.activePos := by
  induction ts using List.reverseRecOn with
  | nil => rfl
  | append_singleton ts t _ =>
    rw [foldl_activated_append, List.getLast?_append]
    rfl

/-- After the last `glActiveTexture` the cache agrees exactly where the draw ends on unit 0. -/
theorem synced_draw (hd : Drawable get s.unitMgr res.textures) (hu : HaveUnits get s.unitMgr) :
    Statics.Synced { (res.textures.filterMap get).foldl Statics.activated s with
      gl := ((res.textures.filterMap get).foldl Statics.activated s).gl.glActiveTexture 0 } ↔
      EndsOnZero s.unitMgr (res.textures.filterMap get) := by
  unfold Statics.Synced EndsOnZero
  dsimp only
  rw [activePos_activated]
  show (_ → 0 = _) ↔ _
  split
  · next t ht =>
    -- a drawn texture has a unit, so its position is no SIZE_T_MAX
    obtain ⟨h, hh, hget⟩ := List.mem_filterMap.mp (List.mem_of_getLast? ht)
    obtain ⟨t', ht', hlt⟩ := hd h hh
    obtain rfl : t = t' := Option.some.inj (hget.symm.trans ht')
    have hne := (hu h t hget hlt).ne_max
    constructor
    · intro h0
      exact (h0 hne).symm
    · intro h0 _
      exact h0.symm
  · constructor
    · intro h0
      by_cases hmax : s.unitMgr.activePos = SIZE_T_MAX
      · exact .inr hmax
      · exact .inl (h0 hmax).symm
    · rintro (h0 | hmax) hne
      · exact h0.symm
      · exact absurd hmax hne

/-- The bindings at the draw. -/
theorem drawn_bindings (hone : ∀ h h' t t', get h = some t → get h' = some t' →
      t.unitPos = t'.unitPos → t.unitPos < s.unitMgr.maxUnits → t.tex.ID = t'.tex.ID)
    (hd : Drawable get s.unitMgr res.textures) {t : Texture2D F}
    (ht : t ∈ res.textures.filterMap get) :
    ((res.textures.filterMap get).foldl Statics.activated s).gl.binding t.unitPos = t.tex.ID := by
  refine binding_activated s (fun a ha b hb he => ?_) ht
  obtain ⟨h, hh, hga⟩ := List.mem_filterMap.mp ha
  obtain ⟨h', -, hgb⟩ := List.mem_filterMap.mp hb
  obtain ⟨a', ha', hlt⟩ := hd h hh
  obtain rfl : a = a' := Option.some.inj (hga.symm.trans ha')
  exact hone h h' a b hga hgb he hlt

/-- The numbering is right exactly where the counters do not wrap. -/
theorem numbered_iff (ts : List (Texture2D F)) (s : Statics F) :
    (∀ (K : Sampler) k t, (K.among ts)[k]? = some t →
      (numbered ts ⟨1, 1, fun _ => none, s⟩).uniforms (K.uniform (k + 1)) = some t.unitPos) ↔
      ∀ K : Sampler, (K.among ts).length < 2 ^ 32 := by
  constructor
  · intro h K
    by_contra hge
    -- the texture numbered 2 ^ 32 has no uniform of its own
    have hlt : 2 ^ 32 - 1 < (K.among ts).length := by omega
    have hval := h K (2 ^ 32 - 1) _ (List.getElem?_eq_getElem hlt)
    rw [uniforms_wrapped rfl ts K (by omega)] at hval
    cases hval
  · intro hlt K k t ht
    exact uniforms_numbered (fun K => by cases K <;> rfl) hlt ht

end OneDraw

/-! ## One operation -/

section Steps

variable [BEq F] {maxUnits : Fin (2 ^ 31)} {w : World F}

/-- The invariants of a run without moves that drawing relies on. -/
structure Settled (w : World F) : Prop where
  named : Named w
  sized : w.table.Sized
  owned : UnitsOwned w

omit [BEq F] in
theorem hasUnit_of_tex (h : Settled w) {i : Nat} {t : Texture2D F} (ht : w.tex i = some t)
    (hlt : t.unitPos < w.table.maxUnits) : t.HasUnit w.table := by
  have hne : t.unitPos ≠ SIZE_T_MAX := h.sized.ne_max (by rw [h.sized.length_units]; exact hlt)
  obtain ⟨hunit, hid⟩ := h.owned.recorded i t ht hne
  exact ⟨hlt, hne, by rw [hunit]; exact hid⟩

omit [BEq F] in
theorem haveUnits_resolve (h : Settled w) (get : Handle → Option Ptr) :
    HaveUnits (w.resolve get) w.table := by
  intro h' t ht hlt
  obtain ⟨i, -, hi⟩ := Option.bind_eq_some_iff.mp ht
  exact hasUnit_of_tex h hi hlt

omit [BEq F] in
/-- Two resolved textures on one unit have one name. -/
theorem one_of_unit (h : Settled w) (get : Handle → Option Ptr) (h₁ h₂ : Handle)
    (t₁ t₂ : Texture2D F) (hg₁ : w.resolve get h₁ = some t₁) (hg₂ : w.resolve get h₂ = some t₂)
    (he : t₁.unitPos = t₂.unitPos) (hlt : t₁.unitPos < w.table.maxUnits) :
    t₁.tex.ID = t₂.tex.ID := by
  obtain ⟨i, -, hi⟩ := Option.bind_eq_some_iff.mp hg₁
  obtain ⟨j, -, hj⟩ := Option.bind_eq_some_iff.mp hg₂
  have hne := (hasUnit_of_tex h hi hlt).ne_max
  rw [← (h.owned.recorded i t₁ hi hne).1, he, ← (h.owned.recorded j t₂ hj (he ▸ hne)).1]

theorem settled_next (h : Settled w) (op : Op F) (hm : op.isMove = false) :
    Settled ((world F maxUnits).next w op) := by
  refine ⟨named_next h.named op hm, sized_next h.sized op,
    (unitsOwned_next h.sized h.owned op).mpr ?_⟩
  unfold KeepsUnits
  split
  · cases hm
  · exact fun t ht _ hid => absurd hid (h.named.ne_zero _ t ht)
  · trivial

omit [BEq F] in
theorem synced_destroy (hs : w.statics.Synced) (i : Nat) : (w.destroy i).statics.Synced := by
  cases ht : w.tex i with
  | none => rw [destroy_dead ht]; exact hs
  | some t =>
    have hactive : (t.destroy w.statics).gl.active = w.statics.gl.active := by
      rw [destroy_gl]
      split <;> rfl
    have hpos : (t.destroy w.statics).unitMgr.activePos = w.statics.unitMgr.activePos ∨
        (t.destroy w.statics).unitMgr.activePos = SIZE_T_MAX := by
      rw [destroy_table]
      unfold TextureUnit.release
      split_ifs
      · exact .inl rfl
      · exact .inr rfl
      · exact .inl rfl
      · exact .inl rfl
    rw [destroy_statics ht]
    unfold Statics.Synced
    rw [hactive]
    intro hne
    rcases hpos with hpos | hpos
    · rw [hpos] at hne ⊢
      exact hs hne
    · exact absurd hpos hne

theorem synced_call (h : Settled w) (hs : w.statics.Synced) (i : Nat) (m : Method F) :
    ((world F maxUnits).next w (.call i m)).statics.Synced := by
  cases ht : w.tex i with
  | none => rw [next_call_dead w m ht]; exact hs
  | some t =>
    rw [next_call w m ht]
    by_cases ha : m = .activate
    · subst ha
      rw [Method.run_activate]
      by_cases hlt : t.unitPos < w.table.maxUnits
      · rw [activate_eq hs (hasUnit_of_tex h ht hlt)]
        exact synced_activated _ _
      · rw [activate_error hlt]
        exact hs
    · obtain ⟨hpos, hactive⟩ := run_active t w.statics ha
      unfold Statics.Synced
      rw [hpos, hactive]
      exact hs

/-- **One operation.** -/
theorem synced_next (h : Settled w) (hs : w.statics.Synced) (op : Op F) :
    ((world F maxUnits).next w op).statics.Synced ↔ KeepsActive w op := by
  cases op with
  | construct args n =>
    refine iff_of_true ?_ trivial
    rw [next_construct]
    by_cases hn : n = 0 ∨ n ∈ w.statics.gl.names
    · rw [construct_of_used args hn]
      exact hs
    · rw [construct_of_fresh args hn]
      exact hs
  | moveConstruct src =>
    refine iff_of_true ?_ trivial
    rw [next_moveConstruct, moveConstruct_statics]
    exact hs
  | moveAssign dst src =>
    refine iff_of_true ?_ trivial
    rw [next_moveAssign, moveAssign_statics]
    exact hs
  | destroy i => exact iff_of_true (synced_destroy hs i) trivial
  | call i m => exact iff_of_true (synced_call h hs i m) trivial
  | draw get mesh =>
    have hu := haveUnits_resolve h get
    show (mesh.Draw (w.resolve get) w.statics).2.2.Synced ↔ ∀ res, mesh.res = some res → _
    cases hr : mesh.res with
    | none =>
      have hdraw : mesh.Draw (w.resolve get) w.statics = (none, none, w.statics) := by
        unfold Mesh2D.Draw
        rw [hr]
      rw [hdraw]
      exact iff_of_true hs fun _ h => by cases h
    | some res =>
      simp only [Option.some.injEq, forall_eq']
      by_cases hd : Drawable (w.resolve get) w.table res.textures
      · rw [draw_of_drawable hr hd hs hu]
        simp only [hd, forall_const]
        exact synced_draw hd hu
      · exact iff_of_true (draw_of_not_drawable hr hd hs hu).2 fun h => absurd h hd

omit [BEq F] in
/-- **One synced operation.** -/
theorem drawsRight_step (h : Settled w) (hs : w.statics.Synced) (op : Op F) :
    DrawsRight w op ↔ CountsFit w op := by
  cases op with
  | call i m =>
    refine iff_of_true ?_ trivial
    cases m with
    | activate =>
      intro t ht
      unfold ActivatesOwn
      by_cases hlt : t.unitPos < w.table.maxUnits
      · rw [activate_eq hs (hasUnit_of_tex h ht hlt)]
        exact fun _ => ⟨Function.update_self .., fun u hu => Function.update_of_ne hu ..⟩
      · rw [activate_error hlt]
        exact fun h => by cases h
    | _ => trivial
  | draw get mesh =>
    have hu := haveUnits_resolve h get
    refine forall₂_congr fun res hr => ?_
    by_cases hd : Drawable (w.resolve get) w.table res.textures
    · rw [draw_of_drawable hr hd hs hu, ← numbered_iff _ w.statics]
      simp only [Option.some.injEq, forall_eq', hd, forall_const]
      constructor
      · exact fun h => h.numbered
      · intro hnum
        refine ⟨fun h' hh => ?_, fun t ht => ?_, fun u hu' => binding_other _ hu', hnum⟩
        · obtain ⟨t, ht, -⟩ := hd h' hh
          exact Option.isSome_iff_exists.mpr ⟨t, ht⟩
        · exact drawn_bindings (one_of_unit h get) hd ht
    · rw [(draw_of_not_drawable hr hd hs hu).1]
      exact iff_of_true (fun _ h => by cases h) fun h => absurd h hd
  | _ => exact Iff.rfl

end Steps

/-! ## Whole runs -/

variable [BEq F]

theorem everyState_settled {maxUnits : Fin (2 ^ 31)} {ops : List (Op F)}
    (hm : ∀ op ∈ ops, op.isMove = false) : (world F maxUnits).EveryState ops Settled :=
  Machine.everyState_of_guard ⟨named_init, sized_init maxUnits, unitsOwned_init maxUnits⟩
    (fun _ op h hop => settled_next h op hop) (Machine.everyStep_of_inputs hm)

/-- **Exactly when drawing is right.** -/
theorem drawsRight_iff (maxUnits : Fin (2 ^ 31)) (ops : List (Op F))
    (hm : ∀ op ∈ ops, op.isMove = false) :
    ((world F maxUnits).EveryState ops (fun w => w.statics.Synced) ∧
        (world F maxUnits).EveryStep ops DrawsRight) ↔
      (world F maxUnits).EveryStep ops fun w op => KeepsActive w op ∧ CountsFit w op := by
  have hset : (world F maxUnits).EveryState ops Settled := everyState_settled hm
  have hsync : (world F maxUnits).EveryState ops (fun w => w.statics.Synced) ↔
      (world F maxUnits).EveryStep ops KeepsActive :=
    Machine.everyState_iff_guard_under hset (fun h => absurd rfl h)
      fun _ op h hs => synced_next h hs op
  have hright : (world F maxUnits).EveryState ops (fun w => w.statics.Synced) →
      ((world F maxUnits).EveryStep ops DrawsRight ↔ (world F maxUnits).EveryStep ops CountsFit) :=
    fun hs => Machine.everyStep_congr (hset.everyStep.and hs.everyStep)
      fun _ op h => drawsRight_step h.1 h.2 op
  constructor
  · rintro ⟨hs, hr⟩
    exact (hsync.mp hs).and ((hright hs).mp hr)
  · intro hg
    have hs := hsync.mpr (hg.mono fun _ _ h => h.1)
    exact ⟨hs, (hright hs).mpr (hg.mono fun _ _ h => h.2)⟩

/-- A mesh of one texture, the object `i`. -/
def meshOf (i : Nat) : Op F :=
  .draw (fun h => if h = ⟨1, 1⟩ then some i else none) ⟨some ⟨[0, 1, 2], [⟨1, 1⟩], 1⟩⟩

/-- A diffuse texture on unit 0 is drawn and activated. -/
theorem drawsRight_unit_zero :
    (world Nat 16).EveryState
        [.construct none 1, .call 0 (.set_texName "texture_diffuse"),
          .call 0 (.acquire SIZE_T_MAX), meshOf 0, .call 0 .activate, meshOf 0]
        (fun w => w.statics.Synced) ∧
      (world Nat 16).EveryStep
        [.construct none 1, .call 0 (.set_texName "texture_diffuse"),
          .call 0 (.acquire SIZE_T_MAX), meshOf 0, .call 0 .activate, meshOf 0] DrawsRight :=
  (drawsRight_iff 16 _ (by decide)).mpr (by decide)

/-- After a mesh on unit 1 is drawn, its texture is activated onto unit 0. -/
theorem activate_other_unit :
    ¬ (world Nat 16).EveryStep
      [.construct none 1, .call 0 (.acquire SIZE_T_MAX), .construct none 2,
        .call 1 (.acquire SIZE_T_MAX), meshOf 1, .call 1 .activate] DrawsRight := by
  intro h
  have hb := (h (_, .call 1 .activate) (List.getLast_mem (by decide)) _ rfl rfl).2 0 (by decide)
  revert hb
  decide

end LearnNotes.Graphics
