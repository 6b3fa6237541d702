import LearnNotes.Graphics.Draw

/-!
# Drawing a model

`Model::Draw` draws one mesh after the other until one fails. A draw leaves GL on unit 0 and
`TextureUnit` on the unit of its last texture, so the next one may bind its first textures on unit 0
instead of their own; but there they are still bound from before. `Trails` is what the active-unit
cache is good for along a run without moves, `Drawn` what the textures of a mesh find, and
`model_drawn` says that every mesh up to the first that fails is drawn with its textures bound on
their units. What it takes is that a mesh without textures is not drawn while another texture is
bound on the active unit.
-/

namespace LearnNotes.Graphics

open Lib World Memory Mesh2D

variable {F : Type}

/-- `Model::Draw(ec, shader)` over `_meshes`: the error and the elements drawn. Without meshes `ec`
stays as it is. -/
def Model.Draw (get : Handle → Option Ptr) : Option errc → List Mesh2D → World F →
    Option errc × List DrawCall × World F
  | ec, [], w => (ec, [], w)
  | _, mesh :: _meshes, w =>
    let (reply, w) := w.draw get mesh
    match reply.ec with
    | some e => (some e, reply.drawn.toList, w)
    | none =>
      let (ec, calls, w) := Model.Draw get none _meshes w
      (ec, reply.drawn.toList ++ calls, w)

/-! ## What the cache is good for -/

/-- The texture of the unit `_activePos` names is bound there. -/
def Statics.BindsActive (s : Statics F) : Prop :=
  s.unitMgr.activePos ≠ SIZE_T_MAX →
    s.gl.binding s.unitMgr.activePos = s.unitMgr.unit s.unitMgr.activePos

/-- The unit is GL's active one; or GL is on unit 0, and the texture of the unit is bound. -/
structure Statics.Trails (s : Statics F) : Prop where
  taken : s.unitMgr.activePos ≠ SIZE_T_MAX → s.unitMgr.unit s.unitMgr.activePos ≠ 0
  active : ¬ s.Synced → s.gl.active = 0 ∧
    s.gl.binding s.unitMgr.activePos = s.unitMgr.unit s.unitMgr.activePos

/-- The texture has a unit, under its name. -/
structure Texture2D.Owns (t : Texture2D F) (u : TextureUnit) : Prop where
  unit : t.HasUnit u
  name : u.unit t.unitPos = t.tex.ID

/-- An `activate()` that finds its unit in the cache while GL is on unit 0. -/
def Statics.misbound (s : Statics F) (t : Texture2D F) : Statics F :=
  { s with gl := s.gl.glBindTexture t.tex.ID }

/-- `activate()` gets to the unit, or finds its texture bound there and binds it on unit 0. -/
theorem activate_cases {s : Statics F} {t : Texture2D F} (hs : s.Trails) (ht : t.Owns s.unitMgr) :
    t.activate s = (none, s.activated t) ∨
      (t.activate s = (none, s.misbound t) ∧ s.unitMgr.activePos = t.unitPos ∧ t.unitPos ≠ 0 ∧
        s.gl.active = 0 ∧ s.gl.binding t.unitPos = t.tex.ID) := by
  by_cases hsync : s.Synced
  · exact .inl (activate_eq hsync ht.unit)
  · obtain ⟨hactive, hbound⟩ := hs.active hsync
    unfold Texture2D.activate TextureUnit.activate
    rw [if_neg (not_le.mpr ht.unit.lt)]
    by_cases hp : s.unitMgr.activePos = t.unitPos
    · rw [if_pos (.inl hp)]
      refine .inr ⟨rfl, hp, fun h0 => ?_, hactive, ?_⟩
      · exact hsync fun _ => by rw [hactive, hp, h0]
      · rw [← hp, hbound, hp, ht.name]
    · rw [if_neg (not_or.mpr ⟨hp, ht.unit.taken⟩)]
      exact .inl rfl

/-! ## The textures of a mesh -/

/-- What the loop has done from `s` on, over the textures `ts`. -/
structure Drawn (s : Statics F) (ts : List (Texture2D F)) (s' : Statics F) : Prop where
  table : s'.unitMgr = { s.unitMgr with activePos := s'.unitMgr.activePos }
  trails : s'.Trails
  idle : ts = [] → s' = s
  ends : ∀ t ∈ ts.getLast?, s'.unitMgr.activePos = t.unitPos
  bound : ∀ t ∈ ts, s'.gl.binding t.unitPos = s.unitMgr.unit t.unitPos
  other : ∀ u, u ≠ 0 → (∀ t ∈ ts, t.unitPos ≠ u) → s'.gl.binding u = s.gl.binding u
  /-- Until the loop gets to GL, it goes over textures of one unit. -/
  front : s'.Synced ∨ ∀ t ∈ ts, t.unitPos = s'.unitMgr.activePos

theorem drawn_nil {s : Statics F} (hs : s.Trails) : Drawn s [] s where
  table := rfl
  trails := hs
  idle _ := rfl
  ends := nofun
  bound := nofun
  other _ _ _ := rfl
  front := .inr nofun

variable {s s' : Statics F} {ts : List (Texture2D F)} {t : Texture2D F}

theorem Drawn.owns (h : Drawn s ts s') (ht : t.Owns s.unitMgr) : t.Owns s'.unitMgr := by
  rw [h.table]
  exact ⟨⟨ht.unit.lt, ht.unit.ne_max, ht.unit.taken⟩, ht.name⟩

/-- **One texture.** -/
theorem Drawn.activate (h : Drawn s ts s') (ht : t.Owns s.unitMgr) :
    ∃ s'', t.activate s' = (none, s'') ∧ Drawn s (ts ++ [t]) s'' := by
  have ht' := h.owns ht
  have hunit : s'.unitMgr.unit t.unitPos = s.unitMgr.unit t.unitPos := by rw [ht'.name, ht.name]
  rcases activate_cases h.trails ht' with hact | ⟨hact, hpos, hne, hactive, hbound⟩
  · refine ⟨_, hact, ?_, ⟨fun _ => ht'.unit.taken, fun hns => ?_⟩, by simp, fun t' hlast => ?_,
      fun t' hmem => ?_, fun u hu hnone => ?_, .inl (synced_activated s' t)⟩
    · show ({ s'.unitMgr with activePos := t.unitPos } : TextureUnit) = _
      rw [h.table]
      rfl
    · exact absurd (synced_activated s' t) hns
    · rw [List.getLast?_append] at hlast
      obtain rfl : t = t' := by simpa using hlast
      rfl
    · show Function.update s'.gl.binding t.unitPos t.tex.ID t'.unitPos = _
      by_cases hu : t'.unitPos = t.unitPos
      · rw [hu, Function.update_self, ht.name]
      · rw [Function.update_of_ne hu]
        rcases List.mem_append.mp hmem with hmem | hmem
        · exact h.bound t' hmem
        · exact absurd (by rw [List.mem_singleton.mp hmem]) hu
    · show Function.update s'.gl.binding t.unitPos t.tex.ID u = _
      rw [Function.update_of_ne (Ne.symm (hnone t (by simp)))]
      exact h.other u hu fun t' ht' => hnone t' (List.mem_append_left _ ht')
  · -- GL is on unit 0, and no texture before had another unit
    have hnsync : ¬ s'.Synced := fun hsync => by
      have := hsync (by rw [hpos]; exact ht'.unit.ne_max)
      rw [hactive, hpos] at this
      exact hne this.symm
    have hfront := h.front.resolve_left hnsync
    have hbinding : ∀ u, u ≠ 0 → (s'.misbound t).gl.binding u = s'.gl.binding u := fun u hu => by
      show Function.update s'.gl.binding s'.gl.active t.tex.ID u = _
      rw [hactive, Function.update_of_ne hu]
    have hall : ∀ t' ∈ ts ++ [t], t'.unitPos = t.unitPos := fun t' hmem => by
      rcases List.mem_append.mp hmem with hmem | hmem
      · rw [hfront t' hmem, hpos]
      · rw [List.mem_singleton.mp hmem]
    refine ⟨_, hact, h.table, ⟨h.trails.taken, fun _ => ⟨hactive, ?_⟩⟩, by simp,
      fun t' hlast => ?_, fun t' hmem => ?_, fun u hu hnone => ?_, .inr fun t' hmem => ?_⟩
    · show (s'.misbound t).gl.binding s'.unitMgr.activePos = _
      rw [hpos, hbinding _ hne, hbound]
      exact (ht'.name.symm.trans (by rw [← hpos]; rfl))
    · rw [List.getLast?_append] at hlast
      obtain rfl : t = t' := by simpa using hlast
      exact hpos
    · rw [hall t' hmem, hbinding _ hne, hbound, ht.name]
    · rw [hbinding u hu]
      exact h.other u hu fun t' ht' => hnone t' (List.mem_append_left _ ht')
    · exact (hall t' hmem).trans hpos.symm

/-- The textures that handles stand for have their units. -/
def AllOwn (get : Handle → Option (Texture2D F)) (u : TextureUnit) : Prop :=
  ∀ h t, get h = some t → t.unitPos < u.maxUnits → t.Owns u

section Loop

variable {get : Handle → Option (Texture2D F)} {hs : List Handle} {d : Drawing F}

theorem Drawn.maxUnits (h : Drawn s ts s') : s'.unitMgr.maxUnits = s.unitMgr.maxUnits := by
  rw [h.table]

/-- **The loop** over a drawable list. -/
theorem Drawn.loop (h : Drawn s ts d.statics) (hown : AllOwn get s.unitMgr)
    (hd : Drawable get s.unitMgr hs) :
    ∃ s', drawTextures get hs d = (none, { numbered (hs.filterMap get) d with statics := s' }) ∧
      Drawn s (ts ++ hs.filterMap get) s' := by
  induction hs generalizing d ts with
  | nil => exact ⟨d.statics, rfl, by rw [List.filterMap_nil, List.append_nil]; exact h⟩
  | cons h' hs ih =>
    obtain ⟨t, ht, hlt⟩ := hd h' List.mem_cons_self
    have hget : get h' = some t := Option.mem_def.mp ht
    obtain ⟨s₁, hact, hdrawn⟩ := h.activate (hown h' t hget hlt)
    obtain ⟨s', hrun, hdrawn'⟩ := ih (d := setUnit t { d with statics := s₁ })
      (by rw [setUnit_statics]; exact hdrawn) fun h'' hh'' => hd h'' (List.mem_cons_of_mem _ hh'')
    refine ⟨s', ?_, ?_⟩
    · unfold drawTextures
      simp only [hget, hact]
      rw [hrun, List.filterMap_cons_some hget, setUnit_with, numbered_with]
      rfl
    · rw [List.filterMap_cons_some hget]
      simpa using hdrawn'

/-- The loop over a list that is not drawable fails. -/
theorem Drawn.loop_error (h : Drawn s ts d.statics) (hown : AllOwn get s.unitMgr)
    (hd : ¬ Drawable get s.unitMgr hs) :
    (drawTextures get hs d).1 = some .invalid_argument ∧
      ∃ ts', Drawn s ts' (drawTextures get hs d).2.statics := by
  induction hs generalizing d ts with
  | nil => exact absurd (fun h hh => by cases hh) hd
  | cons h' hs ih =>
    unfold drawTextures
    cases hget : get h' with
    | none => exact ⟨rfl, ts, h⟩
    | some t =>
      dsimp only
      by_cases hlt : t.unitPos < s.unitMgr.maxUnits
      · obtain ⟨s₁, hact, hdrawn⟩ := h.activate (hown h' t hget hlt)
        simp only [hact]
        refine ih (by rw [setUnit_statics]; exact hdrawn) fun hrest => hd fun h'' hh'' => ?_
        rcases List.mem_cons.mp hh'' with rfl | hh''
        · exact ⟨t, hget, hlt⟩
        · exact hrest h'' hh''
      · have hlt' : ¬ t.unitPos < d.statics.unitMgr.maxUnits := by rwa [h.maxUnits]
        simp only [activate_error hlt']
        exact ⟨trivial, ts, h⟩

end Loop

/-! ## One mesh -/

/-- The elements are drawn with each texture on its unit, and in the uniform of its number. -/
structure Rendered (get : Handle → Option (Texture2D F)) (res : MeshImpl) (call : DrawCall) :
    Prop where
  VAO : call.VAO = res.VAO
  count : call.count = res.indices.length
  resolved : ∀ h ∈ res.textures, (get h).isSome
  bound : ∀ t ∈ res.textures.filterMap get, call.binding t.unitPos = t.tex.ID
  numbered : (∀ K : Sampler, (K.among (res.textures.filterMap get)).length < 2 ^ 32) →
    ∀ (K : Sampler) k t, (K.among (res.textures.filterMap get))[k]? = some t →
      call.uniforms (K.uniform (k + 1)) = some t.unitPos

/-- The mesh has no textures to activate. -/
def Mesh2D.Bare (mesh : Mesh2D) : Prop := ∃ res ∈ mesh.res, res.textures = []

/-- Its textures are there and have units. -/
def Mesh2D.Draws (get : Handle → Option (Texture2D F)) (u : TextureUnit) (mesh : Mesh2D) : Prop :=
  ∀ res ∈ mesh.res, Drawable get u res.textures

instance (get : Handle → Option (Texture2D F)) (u : TextureUnit) (mesh : Mesh2D) :
    Decidable (mesh.Draws get u) := by
  unfold Mesh2D.Draws
  infer_instance

section OneMesh

variable {get : Handle → Option (Texture2D F)} {mesh : Mesh2D}

/-- What a draw leaves of the table and of the cache. -/
structure Leaves (mesh : Mesh2D) (s s' : Statics F) : Prop where
  table : s'.unitMgr = { s.unitMgr with activePos := s'.unitMgr.activePos }
  trails : s.BindsActive ∨ ¬ mesh.Bare → s'.Trails
  binds : s.BindsActive → s'.BindsActive

theorem Leaves.refl {mesh : Mesh2D} (hs : s.Trails) : Leaves mesh s s where
  table := rfl
  trails _ := hs
  binds := id

theorem Drawn.bindsActive (h : Drawn s ts s') (hs : ts ≠ [] ∨ s.BindsActive) : s'.BindsActive := by
  cases hlast : ts.getLast? with
  | none =>
    have hnil := List.getLast?_eq_none_iff.mp hlast
    rw [h.idle hnil]
    exact hs.resolve_left (not_not.mpr hnil)
  | some t =>
    intro _
    have hunit : s'.unitMgr.unit t.unitPos = s.unitMgr.unit t.unitPos := by
      rw [h.table]
      rfl
    rw [h.ends t hlast, h.bound t (List.mem_of_getLast? hlast), hunit]

/-- **A mesh that draws.** -/
theorem draw_of_draws (hs : s.Trails) (hown : AllOwn get s.unitMgr)
    (hd : mesh.Draws get s.unitMgr) :
    (mesh.Draw get s).1 = none ∧ Leaves mesh s (mesh.Draw get s).2.2 ∧
      (∀ res ∈ mesh.res, ∃ call, (mesh.Draw get s).2.1 = some call ∧ Rendered get res call) ∧
      (mesh.res = none → (mesh.Draw get s).2.1 = none) := by
  unfold Mesh2D.Draw
  cases hres : mesh.res with
  | none => exact ⟨rfl, .refl hs, nofun, fun _ => rfl⟩
  | some res =>
    have hd := hd res hres
    obtain ⟨s', hrun, hdrawn⟩ := (drawn_nil hs).loop (d := ⟨1, 1, fun _ => none, s⟩) hown hd
    rw [List.nil_append] at hdrawn
    have hbare : s.BindsActive ∨ ¬ mesh.Bare →
        res.textures.filterMap get ≠ [] ∨ s.BindsActive := by
      rintro (hb | hb)
      · exact .inr hb
      · refine .inl fun hnil => hb ⟨res, hres, ?_⟩
        by_contra hne
        obtain ⟨h, hh⟩ := List.exists_mem_of_ne_nil _ hne
        obtain ⟨t, ht, -⟩ := hd h hh
        have hmem : t ∈ res.textures.filterMap get := List.mem_filterMap.mpr ⟨h, hh, ht⟩
        rw [hnil] at hmem
        cases hmem
    dsimp only
    rw [hrun]
    refine ⟨rfl,
      ⟨hdrawn.table, fun hb => ⟨hdrawn.trails.taken, fun hns => ⟨rfl, ?_⟩⟩, fun hb => ?_⟩,
      fun r hr => ?_, nofun⟩
    · have hne : s'.unitMgr.activePos ≠ SIZE_T_MAX := fun hmax => hns fun h => absurd hmax h
      exact hdrawn.bindsActive (hbare hb) hne
    · exact hdrawn.bindsActive (hbare (.inl hb))
    · obtain rfl := Option.some.inj hr
      refine ⟨_, rfl, rfl, rfl, fun h hh => ?_, fun t ht => ?_, fun hlt K k t ht => ?_⟩
      · obtain ⟨t, ht, -⟩ := hd h hh
        exact Option.isSome_iff_exists.mpr ⟨t, ht⟩
      · obtain ⟨h, hh, hget⟩ := List.mem_filterMap.mp ht
        obtain ⟨t', ht', hlt⟩ := hd h hh
        obtain rfl : t = t' := Option.some.inj (hget.symm.trans ht')
        exact (hdrawn.bound t ht).trans (hown h t hget hlt).name
      · exact uniforms_numbered (fun K => by cases K <;> rfl) hlt ht

/-- **A mesh that does not.** -/
theorem draw_of_not_draws (hs : s.Trails) (hown : AllOwn get s.unitMgr)
    (hd : ¬ mesh.Draws get s.unitMgr) :
    (mesh.Draw get s).1 = some .invalid_argument ∧ (mesh.Draw get s).2.1 = none ∧
      (mesh.Draw get s).2.2.Trails := by
  obtain ⟨res, hres, hd⟩ : ∃ res ∈ mesh.res, ¬ Drawable get s.unitMgr res.textures := by
    unfold Mesh2D.Draws at hd
    push Not at hd
    exact hd
  obtain ⟨he, ts', hdrawn⟩ :=
    Drawn.loop_error (d := ⟨1, 1, fun _ => none, s⟩) (drawn_nil hs) hown hd
  unfold Mesh2D.Draw
  rw [Option.mem_def.mp hres]
  dsimp only
  split
  · next e d heq =>
    rw [heq] at he hdrawn
    exact ⟨he, rfl, hdrawn.trails⟩
  · next d heq =>
    rw [heq] at he
    cases he

end OneMesh

/-! ## Along a run -/

/-- A mesh without textures is drawn while the texture of the active unit is bound. -/
def TidyDraw (w : World F) : Op F → Prop
  | .draw _ mesh => mesh.Bare → w.statics.BindsActive
  | _ => True

/-- Without an active unit there is nothing to trail. -/
theorem trails_unset (hmax : s.unitMgr.activePos = SIZE_T_MAX) : s.Trails where
  taken h := absurd hmax h
  active h := absurd (fun h' => absurd hmax h') h

theorem Statics.Trails.congr (hs : s.Trails) (htable : s'.unitMgr = s.unitMgr)
    (hactive : s'.gl.active = s.gl.active)
    (hbinding : s.gl.active = 0 → s.unitMgr.activePos ≠ 0 →
      s'.gl.binding s.unitMgr.activePos = s.gl.binding s.unitMgr.activePos) : s'.Trails := by
  have hsync : s'.Synced ↔ s.Synced := by
    unfold Statics.Synced
    rw [htable, hactive]
  refine ⟨?_, fun h => ?_⟩
  · rw [htable]
    exact hs.taken
  · obtain ⟨h0, hbound⟩ := hs.active (mt hsync.mpr h)
    have hne : s.unitMgr.activePos ≠ 0 := fun he => h (hsync.mpr fun _ => h0.trans he.symm)
    rw [htable, hactive, hbinding h0 hne]
    exact ⟨h0, hbound⟩

section Steps

variable {w : World F} {maxUnits : Fin (2 ^ 31)}

theorem allOwn_resolve (h : Settled w) (get : Handle → Option Ptr) :
    AllOwn (w.resolve get) w.table := by
  intro h' t ht hlt
  obtain ⟨i, -, hi⟩ := Option.bind_eq_some_iff.mp ht
  have hunit := hasUnit_of_tex h hi hlt
  exact ⟨hunit, (h.owned.recorded i t hi hunit.ne_max).1⟩

/-- Another unit than that of a live texture is not under its name. -/
theorem unit_ne_ID (h : Settled w) {i : Nat} {t : Texture2D F} (ht : w.tex i = some t) {pos : Nat}
    (hpos : pos ≠ t.unitPos) : w.table.unit pos ≠ t.tex.ID := by
  intro heq
  have h0 := h.named.ne_zero i t ht
  obtain ⟨j, ⟨t', ht', rfl, hmax⟩, -⟩ := h.owned.noLeak pos (heq ▸ h0)
  have hid := (h.owned.recorded j t' ht' hmax).1
  obtain rfl := h.named.inj j i t' t ht' ht (hid.symm.trans heq)
  obtain rfl := Option.some.inj (ht.symm.trans ht')
  exact hpos rfl

theorem trails_destroy (h : Settled w) (hs : w.statics.Trails) (i : Nat) :
    (w.destroy i).statics.Trails := by
  cases ht : w.tex i with
  | none => rw [destroy_dead ht]; exact hs
  | some t =>
    rw [destroy_statics ht]
    by_cases hmax : t.unitPos = SIZE_T_MAX
    · refine hs.congr ?_ ?_ fun _ _ => ?_
      · rw [destroy_table, if_neg (not_not.mpr hmax)]
      · rw [destroy_gl, if_neg (not_not.mpr hmax)]
      · rw [destroy_gl, if_neg (not_not.mpr hmax)]
    · obtain ⟨hunit, hid⟩ := h.owned.recorded i t ht hmax
      have hlen : t.unitPos < w.table.units.length :=
        TextureUnit.lt_of_unit_ne_zero (by rw [hunit]; exact hid)
      have hlt : ¬ t.unitPos ≥ w.table.maxUnits := by
        rw [← h.sized.length_units]
        omega
      have htable : (t.destroy w.statics).unitMgr = { w.table with
          units := w.table.units.set t.unitPos 0
          activePos :=
            if w.table.activePos = t.unitPos then SIZE_T_MAX else w.table.activePos } := by
        rw [destroy_table, if_pos hmax, TextureUnit.release, if_neg hlt]
      by_cases hpos : w.table.activePos = t.unitPos
      · exact trails_unset (by rw [htable]; exact if_pos hpos)
      · rw [if_neg hpos] at htable
        have hunit' : (t.destroy w.statics).unitMgr.unit w.table.activePos =
            w.table.unit w.table.activePos := by
          rw [htable, TextureUnit.unit_set hlen, if_neg hpos]
        have hactive : (t.destroy w.statics).gl.active = w.statics.gl.active := by
          rw [destroy_gl, if_pos hmax]
          rfl
        have hact : (t.destroy w.statics).unitMgr.activePos = w.table.activePos := by rw [htable]
        refine ⟨fun hne => ?_, fun hns => ?_⟩
        · rw [hact] at hne ⊢
          rw [hunit']
          exact hs.taken hne
        · obtain ⟨h0, hbound⟩ := hs.active fun hsync => hns (by
            unfold Statics.Synced
            rw [hact, hactive]
            exact hsync)
          rw [hact, hunit', hactive]
          refine ⟨h0, ?_⟩
          rw [destroy_gl, if_pos hmax]
          -- the deleted name was bound elsewhere
          show (if w.statics.gl.binding w.table.activePos = t.tex.ID then 0 else _) = _
          rw [hbound, if_neg (unit_ne_ID h ht hpos)]

/-- A unit that is taken was free, so it was not the active one. -/
theorem trails_acquire (h : Settled w) (hs : w.statics.Trails) (t : Texture2D F) (pos : Nat) :
    (t.acquire pos w.statics).2.2.Trails := by
  by_cases hmax : t.unitPos = SIZE_T_MAX
  · rcases texture_acquire_cases h.sized hmax pos with ⟨e, he, -⟩ | ⟨it, hlt, h0, -, he⟩
    · rw [he]
      exact hs
    · rw [he]
      have hunit : w.table.activePos ≠ SIZE_T_MAX →
          ({ w.table with units := w.table.units.set it t.tex.ID } : TextureUnit).unit
            w.table.activePos = w.table.unit w.table.activePos := fun hne => by
        refine (TextureUnit.unit_set hlt _ w.table.activePos).trans (if_neg fun heq => ?_)
        exact hs.taken hne (heq ▸ h0)
      refine ⟨fun hne => ?_, fun hns => ?_⟩
      · exact (hunit hne).trans_ne (hs.taken hne)
      · have hne : w.table.activePos ≠ SIZE_T_MAX := fun hmax => hns fun h => absurd hmax h
        obtain ⟨hzero, hbound⟩ := hs.active hns
        exact ⟨hzero, hbound.trans (hunit hne).symm⟩
  · unfold Texture2D.acquire
    rw [if_neg hmax]
    exact hs

theorem trails_activate (h : Settled w) (hs : w.statics.Trails) {i : Nat} {t : Texture2D F}
    (ht : w.tex i = some t) : (t.activate w.statics).2.Trails := by
  by_cases hlt : t.unitPos < w.table.maxUnits
  · have hunit := hasUnit_of_tex h ht hlt
    have hown : t.Owns w.table := ⟨hunit, (h.owned.recorded i t ht hunit.ne_max).1⟩
    obtain ⟨s', hrun, hdrawn⟩ := (drawn_nil hs).activate hown
    rw [hrun]
    exact hdrawn.trails
  · rw [activate_error hlt]
    exact hs

theorem trails_call [BEq F] (h : Settled w) (hs : w.statics.Trails) (i : Nat) (m : Method F) :
    ((world F maxUnits).next w (.call i m)).statics.Trails := by
  cases ht : w.tex i with
  | none => rw [next_call_dead w m ht]; exact hs
  | some t =>
    rw [next_call w m ht]
    dsimp only
    by_cases hacq : ∃ pos, m = .acquire pos
    · obtain ⟨pos, rfl⟩ := hacq
      rw [Method.run_acquire]
      exact trails_acquire h hs t pos
    · by_cases hact : m = .activate
      · subst hact
        rw [Method.run_activate]
        exact trails_activate h hs ht
      · rcases run_statics t w.statics (not_exists.mp hacq) hact with hrun | ⟨image, params, hrun⟩
        · rw [hrun]
          exact hs
        · rw [hrun]
          refine hs.congr (bind_unitMgr t w.statics) (bind_frame t w.statics).2.1 fun h0 hne => ?_
          show (t.bind w.statics).gl.binding _ = _
          rw [bind_gl]
          split
          · show Function.update w.statics.gl.binding w.statics.gl.active t.tex.ID _ = _
            rw [h0, Function.update_of_ne hne]
          · rfl

/-- **One operation.** -/
theorem trails_next [BEq F] (h : Settled w) (hs : w.statics.Trails) (op : Op F)
    (hm : op.isMove = false) (hg : TidyDraw w op) :
    ((world F maxUnits).next w op).statics.Trails := by
  cases op with
  | construct args n =>
    rw [next_construct]
    by_cases hn : n = 0 ∨ n ∈ w.statics.gl.names
    · rw [construct_of_used args hn]
      exact hs
    · rw [construct_of_fresh args hn]
      exact hs.congr rfl rfl fun _ _ => rfl
  | moveConstruct src => cases hm
  | moveAssign dst src => cases hm
  | destroy i => exact trails_destroy h hs i
  | call i m => exact trails_call h hs i m
  | draw get mesh =>
    have hown := allOwn_resolve h get
    show (mesh.Draw (w.resolve get) w.statics).2.2.Trails
    by_cases hd : mesh.Draws (w.resolve get) w.table
    · obtain ⟨-, hleaves, -⟩ := draw_of_draws hs hown hd
      by_cases hb : mesh.Bare
      · exact hleaves.trails (.inl (hg hb))
      · exact hleaves.trails (.inr hb)
    · exact (draw_of_not_draws hs hown hd).2.2

end Steps

/-! ## A whole model -/

section Meshes

variable [BEq F] {w : World F} {get : Handle → Option Ptr}

omit [BEq F] in
/-- What a draw finds of the textures does not change with a draw. -/
theorem draws_after {mesh : Mesh2D} (hleaves : Leaves mesh w.statics s') (mesh' : Mesh2D) :
    mesh'.Draws (w.resolve get) s'.unitMgr ↔ mesh'.Draws (w.resolve get) w.table := by
  rw [hleaves.table]
  exact Iff.rfl

theorem meshes_drawn (ec : Option errc) {meshes : List Mesh2D} (h : Settled w)
    (hs : w.statics.Trails)
    (hready : w.statics.BindsActive ∨ ∀ mesh ∈ meshes, ¬ mesh.Bare) :
    ((Model.Draw get ec meshes w).1 = none ↔
        (meshes = [] → ec = none) ∧ ∀ mesh ∈ meshes, mesh.Draws (w.resolve get) w.table) ∧
      List.Forall₂ (Rendered (w.resolve get))
        ((meshes.takeWhile fun mesh => mesh.Draws (w.resolve get) w.table).filterMap (·.res))
        (Model.Draw get ec meshes w).2.1 := by
  induction meshes generalizing w ec with
  | nil => exact ⟨⟨fun h => ⟨fun _ => h, nofun⟩, fun h => h.1 rfl⟩, .nil⟩
  | cons mesh meshes ih =>
    have hown := allOwn_resolve h get
    have hset : Settled ((world F 0).next w (.draw get mesh)) :=
      settled_next h (.draw get mesh) rfl
    by_cases hd : mesh.Draws (w.resolve get) w.table
    · obtain ⟨hec, hleaves, hcall, hnone⟩ := draw_of_draws hs hown hd
      have hrun : Model.Draw get ec (mesh :: meshes) w =
          ((Model.Draw get none meshes (w.draw get mesh).2).1,
            (mesh.Draw (w.resolve get) w.statics).2.1.toList ++
              (Model.Draw get none meshes (w.draw get mesh).2).2.1,
            (Model.Draw get none meshes (w.draw get mesh).2).2.2) := by
        rw [Model.Draw]
        unfold World.draw
        simp only [hec]
      obtain ⟨hiff, hcalls⟩ := ih none (w := (w.draw get mesh).2) hset
        (hleaves.trails (hready.imp id fun hall => hall mesh List.mem_cons_self))
        (hready.imp hleaves.binds fun hall mesh' hmem => hall mesh' (List.mem_cons_of_mem _ hmem))
      have hfind : ∀ mesh' : Mesh2D,
          mesh'.Draws ((w.draw get mesh).2.resolve get) (w.draw get mesh).2.table ↔
          mesh'.Draws (w.resolve get) w.table := draws_after hleaves
      simp only [hfind] at hiff hcalls
      rw [hrun, List.takeWhile_cons_of_pos (by simpa using hd), List.forall_mem_cons]
      refine ⟨hiff.trans (by simp [hd]), ?_⟩
      cases hres : mesh.res with
      | none =>
        rw [List.filterMap_cons_none hres, hnone hres]
        exact hcalls
      | some res =>
        obtain ⟨call, hdrawn, hright⟩ := hcall res hres
        rw [List.filterMap_cons_some hres, hdrawn]
        exact .cons hright hcalls
    · obtain ⟨hec, hdrawn, -⟩ := draw_of_not_draws hs hown hd
      have hrun : Model.Draw get ec (mesh :: meshes) w =
          (some .invalid_argument, [], (w.draw get mesh).2) := by
        unfold Model.Draw World.draw
        simp only [hec, hdrawn]
        rfl
      rw [hrun, List.takeWhile_cons_of_neg (by simpa using hd)]
      exact ⟨iff_of_false nofun fun hall => hd (hall.2 mesh List.mem_cons_self), .nil⟩

end Meshes

end LearnNotes.Graphics
