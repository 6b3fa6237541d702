import LearnNotes.Graphics.World

/-!
# What a method does to the shared state

`acquire` and `activate` apart, a method leaves the shared state alone or binds its
texture and writes the images and parameters GL holds (`run_statics`). No method changes
a texture's name or the names in use, and only `acquire` the units.
-/

namespace LearnNotes.Graphics

variable {F : Type}

section Functions

variable (t : Texture2D F) (s : Statics F)

theorem bind_gl :
    (t.bind s).gl = if s.bind_id ≠ t.tex.ID then s.gl.glBindTexture t.tex.ID else s.gl := by
  unfold Texture2D.bind
  split <;> rfl

theorem bind_unitMgr : (t.bind s).unitMgr = s.unitMgr := by
  unfold Texture2D.bind
  split <;> rfl

/-- `bind()` changes bindings of the active unit and nothing else in GL. -/
theorem bind_frame : (t.bind s).gl.names = s.gl.names ∧ (t.bind s).gl.active = s.gl.active ∧
    (t.bind s).gl.image = s.gl.image ∧ (t.bind s).gl.params = s.gl.params := by
  rw [bind_gl]
  split <;> exact ⟨rfl, rfl, rfl, rfl⟩

theorem load_statics (args : PathArgs) (img : Option Image) :
    (t.load args img s).2.2 =
      match img with
      | none => s
      | some img =>
        if args.type = GL_UNSIGNED_BYTE ∨ args.type = GL_FLOAT then
          { t.bind s with gl := (t.bind s).gl.glTexSubImage2D img }
        else s := by
  unfold Texture2D.load
  cases img with
  | none => split <;> rfl
  | some img =>
    by_cases h : args.type = GL_UNSIGNED_BYTE ∨ args.type = GL_FLOAT
    · have h' : ¬ (args.type ≠ GL_UNSIGNED_BYTE ∧ args.type ≠ GL_FLOAT) := by tauto
      simp only [if_pos h, if_neg h']
      rfl
    · simp only [if_neg h, if_pos (not_or.mp h)]

theorem update_statics :
    (t.update s).2 =
      if t.needsUpdate then
        { t.bind s with gl := { (t.bind s).gl with
          params := Function.update (t.bind s).gl.params (t.bind s).gl.bound
            (t.sendConfig ((t.bind s).gl.params (t.bind s).gl.bound)).2 } }
      else s := by
  unfold Texture2D.update
  split <;> rfl

theorem acquire_frame (pos : Nat) :
    (t.acquire pos s).2.1.tex = t.tex ∧ (t.acquire pos s).2.2.gl = s.gl ∧
      (t.acquire pos s).2.2.unitMgr.activePos = s.unitMgr.activePos := by
  have hact : (s.unitMgr.acquire t.tex.ID pos).2.2.activePos = s.unitMgr.activePos := by
    unfold TextureUnit.acquire
    split_ifs
    · rfl
    · rfl
    · rfl
    · split <;> rfl
  unfold Texture2D.acquire
  split
  · split
    · next h => rw [h] at hact; exact ⟨rfl, rfl, hact⟩
    · next h => rw [h] at hact; exact ⟨rfl, rfl, hact⟩
  · exact ⟨rfl, rfl, rfl⟩

theorem activate_frame :
    (t.activate s).2.unitMgr.units = s.unitMgr.units ∧
      (t.activate s).2.unitMgr.maxUnits = s.unitMgr.maxUnits ∧
      (t.activate s).2.gl.names = s.gl.names := by
  unfold Texture2D.activate TextureUnit.activate
  split_ifs <;> exact ⟨rfl, rfl, rfl⟩

theorem destroy_table :
    (t.destroy s).unitMgr =
      if t.unitPos ≠ SIZE_T_MAX then (s.unitMgr.release t.unitPos).2 else s.unitMgr := by
  unfold Texture2D.destroy
  dsimp only
  split_ifs <;> rfl

theorem destroy_gl :
    (t.destroy s).gl = if t.unitPos ≠ SIZE_T_MAX then s.gl.glDeleteTextures t.tex.ID else s.gl := by
  unfold Texture2D.destroy
  dsimp only
  split_ifs <;> rfl

end Functions

theorem drawTextures_frame (get : Memory.Handle → Option (Texture2D F)) (hs : List Memory.Handle)
    (d : Drawing F) :
    (Mesh2D.drawTextures get hs d).2.statics.unitMgr.units = d.statics.unitMgr.units ∧
      (Mesh2D.drawTextures get hs d).2.statics.unitMgr.maxUnits = d.statics.unitMgr.maxUnits ∧
      (Mesh2D.drawTextures get hs d).2.statics.gl.names = d.statics.gl.names := by
  induction hs generalizing d with
  | nil => exact ⟨rfl, rfl, rfl⟩
  | cons h hs ih =>
    unfold Mesh2D.drawTextures
    split
    · exact ⟨rfl, rfl, rfl⟩
    · next sp _ =>
      have hact := activate_frame sp d.statics
      split
      · next hs' => simpa [hs'] using hact
      · next s hs' =>
        rw [hs'] at hact
        obtain ⟨hu, hm, hn⟩ := ih (Mesh2D.setUnit sp { d with statics := s })
        rw [hu, hm, hn, Mesh2D.setUnit_statics]
        exact hact

theorem draw_frame (get : Memory.Handle → Option (Texture2D F)) (mesh : Mesh2D) (s : Statics F) :
    (mesh.Draw get s).2.2.unitMgr.units = s.unitMgr.units ∧
      (mesh.Draw get s).2.2.unitMgr.maxUnits = s.unitMgr.maxUnits ∧
      (mesh.Draw get s).2.2.gl.names = s.gl.names := by
  unfold Mesh2D.Draw
  cases mesh.res with
  | none => exact ⟨rfl, rfl, rfl⟩
  | some res =>
    have h := drawTextures_frame get res.textures ⟨1, 1, fun _ => none, s⟩
    dsimp only
    split <;> next hd => rw [hd] at h; exact h

/-- The call reaches `bind()`. -/
def Method.callsBind (t : Texture2D F) : Method F → Prop
  | .bind => True
  | .load args img => (args.type = GL_UNSIGNED_BYTE ∨ args.type = GL_FLOAT) ∧ img.isSome
  | .update => t.needsUpdate
  | _ => False

instance (t : Texture2D F) : (m : Method F) → Decidable (m.callsBind t)
  | .bind => .isTrue trivial
  | .load _ img => inferInstanceAs (Decidable ((_ = _ ∨ _ = _) ∧ img.isSome))
  | .update => inferInstanceAs (Decidable t.needsUpdate)
  | .acquire _ | .activate | .set_texName _ | .set_config1 _ _ | .set_config _ _ => .isFalse id

section Methods

variable [BEq F] (m : Method F) (t : Texture2D F) (s : Statics F)

variable {m} in
/-- `acquire` apart, no method touches the name or the unit of its texture. -/
theorem run_texture (hm : ∀ pos, m ≠ .acquire pos) :
    (m.run t s).2.1.tex.ID = t.tex.ID ∧ (m.run t s).2.1.unitPos = t.unitPos := by
  cases m with
  | acquire pos => exact absurd rfl (hm pos)
  | load args img =>
    rw [Method.run_load]
    unfold Texture2D.load
    dsimp only
    split
    · exact ⟨rfl, rfl⟩
    · split <;> exact ⟨rfl, rfl⟩
  | set_config cfgs policy =>
    rw [Method.run_set_config]
    unfold Texture2D.set_config
    split <;> exact ⟨rfl, rfl⟩
  | update =>
    rw [Method.run_update]
    unfold Texture2D.update
    split <;> exact ⟨rfl, rfl⟩
  | _ => exact ⟨rfl, rfl⟩

theorem run_ID : (m.run t s).2.1.tex.ID = t.tex.ID := by
  by_cases hm : ∃ pos, m = .acquire pos
  · obtain ⟨pos, rfl⟩ := hm
    rw [Method.run_acquire, (acquire_frame t s pos).1]
  · exact (run_texture t s (not_exists.mp hm)).1

variable {m}

theorem run_statics_bind (hb : m.callsBind t) : ∃ image params, (m.run t s).2.2 =
    { t.bind s with gl := { (t.bind s).gl with image := image, params := params } } := by
  cases m with
  | bind => exact ⟨_, _, rfl⟩
  | load args img =>
    obtain ⟨htype, hsome⟩ := hb
    obtain ⟨img, rfl⟩ := Option.isSome_iff_exists.mp hsome
    rw [Method.run_load, load_statics]
    dsimp only
    rw [if_pos htype]
    exact ⟨_, _, rfl⟩
  | update =>
    have hn : t.needsUpdate := hb
    rw [Method.run_update, update_statics, if_pos hn]
    exact ⟨_, _, rfl⟩
  | _ => cases hb

theorem run_statics_idle (hm : ∀ pos, m ≠ .acquire pos) (ha : m ≠ .activate)
    (hb : ¬ m.callsBind t) : (m.run t s).2.2 = s := by
  cases m with
  | acquire pos => exact absurd rfl (hm pos)
  | bind => exact absurd trivial hb
  | activate => exact absurd rfl ha
  | load args img =>
    rw [Method.run_load, load_statics]
    cases img with
    | none => rfl
    | some img => exact if_neg fun h => hb ⟨h, rfl⟩
  | update =>
    have hn : ¬ t.needsUpdate := hb
    rw [Method.run_update, update_statics, if_neg hn]
  | _ => rfl

theorem run_statics (hm : ∀ pos, m ≠ .acquire pos) (ha : m ≠ .activate) :
    (m.run t s).2.2 = s ∨ ∃ image params, (m.run t s).2.2 =
      { t.bind s with gl := { (t.bind s).gl with image := image, params := params } } := by
  by_cases hb : m.callsBind t
  · exact .inr (run_statics_bind t s hb)
  · exact .inl (run_statics_idle t s hm ha hb)

/-- `acquire` apart, no method touches a unit. -/
theorem run_units (hm : ∀ pos, m ≠ .acquire pos) :
    (m.run t s).2.2.unitMgr.units = s.unitMgr.units ∧
      (m.run t s).2.2.unitMgr.maxUnits = s.unitMgr.maxUnits := by
  by_cases ha : m = .activate
  · rw [ha, Method.run_activate]
    exact ⟨(activate_frame t s).1, (activate_frame t s).2.1⟩
  · rcases run_statics t s hm ha with h | ⟨image, params, h⟩ <;> rw [h]
    · exact ⟨rfl, rfl⟩
    · simp only [bind_unitMgr]
      exact ⟨trivial, trivial⟩

/-- `activate` apart, no method changes the active unit or what the table takes it to be. -/
theorem run_active (ha : m ≠ .activate) :
    (m.run t s).2.2.unitMgr.activePos = s.unitMgr.activePos ∧
      (m.run t s).2.2.gl.active = s.gl.active := by
  by_cases hm : ∃ pos, m = .acquire pos
  · obtain ⟨pos, rfl⟩ := hm
    obtain ⟨-, hgl, hact⟩ := acquire_frame t s pos
    rw [Method.run_acquire, hact, hgl]
    exact ⟨rfl, rfl⟩
  · rcases run_statics t s (not_exists.mp hm) ha with h | ⟨image, params, h⟩ <;> rw [h]
    · exact ⟨rfl, rfl⟩
    · simp only [bind_unitMgr, (bind_frame t s).2.1]
      exact ⟨trivial, trivial⟩

theorem run_names : (m.run t s).2.2.gl.names = s.gl.names := by
  by_cases ha : m = .activate
  · rw [ha, Method.run_activate, (activate_frame t s).2.2]
  · by_cases hm : ∃ pos, m = .acquire pos
    · obtain ⟨pos, rfl⟩ := hm
      rw [Method.run_acquire, (acquire_frame t s pos).2.1]
    · rcases run_statics t s (not_exists.mp hm) ha with h | ⟨image, params, h⟩ <;> rw [h]
      exact (bind_frame t s).1

end Methods

end LearnNotes.Graphics
