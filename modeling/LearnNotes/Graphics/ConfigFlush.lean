import LearnNotes.Lib.Machine
import LearnNotes.Graphics.Texture

/-!
# What `update()` sends

One texture under `set_config` and `update`, `bind()` selecting it. `Flushed` is the
two-level dirty-flag invariant: an entry that is not dirty is in GL, and a dirty entry
raises the texture's flag. `set_config(pname, value)` raises neither flag, so it keeps
the invariant only where GL already holds the value; and `update()` leaves an entry
out of GL when another entry of its name overrides it or `apply` reads a union member
the entry does not hold. `flushed_iff_sends`: these are the only ways to lose it.
-/

namespace LearnNotes.Graphics

open Lib

variable {F : Type} [BEq F]

/-- A texture and the values GL holds for it. -/
structure Configured (F : Type) where
  texture : Texture2D F
  params : Params F

inductive ConfigCall (F : Type) where
  | set_config1 (pname : GLenum) (value : TexParam F)
  | set_config (cfgs : List (TexConfig F)) (policy : UpdateMode)
  | update

/-- The calls on a texture constructed with `tex`, GL holding `params` for it. -/
def configurator (tex : texture_t) (params : Params F) :
    Machine (Configured F) (ConfigCall F) Unit where
  init := ⟨⟨tex, [], false, SIZE_T_MAX⟩, params⟩
  step s
    | .set_config1 pname value => ((), { s with texture := s.texture.set_config1 pname value })
    | .set_config cfgs policy => ((), { s with texture := s.texture.set_config cfgs policy })
    | .update =>
      if s.texture.needsUpdate then
        let (texture, params) := s.texture.sendConfig s.params
        ((), ⟨texture, params⟩)
      else ((), s)

omit [BEq F] in
/-- `update()` after a `bind()` that selects the texture is `configurator`'s step: the texture
sends to its own parameters, and to no other's. -/
theorem update_of_selects {t : Texture2D F} {s : Statics F} (hb : (t.bind s).gl.bound = t.tex.ID)
    (hn : t.needsUpdate) :
    (t.update s).1 = (t.sendConfig ((t.bind s).gl.params t.tex.ID)).1 ∧
      (t.update s).2.gl.params t.tex.ID =
        (t.sendConfig ((t.bind s).gl.params t.tex.ID)).2 ∧
      ∀ n, n ≠ t.tex.ID → (t.update s).2.gl.params n = (t.bind s).gl.params n := by
  unfold Texture2D.update
  rw [if_pos hn]
  simp only [hb]
  exact ⟨trivial, Function.update_self .., fun n h => Function.update_of_ne h ..⟩

/-- GL holds the entry's parameter. -/
def Sent (params : Params F) (c : TexConfig F) : Prop := params c.pname = some c.param

/-- The two-level invariant. -/
structure Flushed (s : Configured F) : Prop where
  sent : ∀ c ∈ s.texture.cfgs, c.dirty = false → Sent s.params c
  flag : (∃ c ∈ s.texture.cfgs, c.dirty = true) → s.texture.dirty = true

/-- GL holds every entry's parameter. -/
def AllSent (s : Configured F) : Prop := ∀ c ∈ s.texture.cfgs, Sent s.params c

/-- What a call needs: `set_config(pname, value)` passes what GL already holds; at `update()`
every dirty entry is of the kind `apply` sends for its name and agrees with the other entries
of that name. -/
def Sends (s : Configured F) : ConfigCall F → Prop
  | .set_config1 pname value => s.params pname = some value
  | .set_config _ _ => True
  | .update =>
    ∀ d ∈ s.texture.cfgs, d.dirty = true → applied d.pname d.param = some d.param ∧
      ∀ c ∈ s.texture.cfgs, c.pname = d.pname → c.param = d.param

variable {tex : texture_t} {params : Params F} {s : Configured F}

theorem flushed_init : Flushed (configurator tex params).init where
  sent _ h := by cases h
  flag h := by simp [configurator] at h

theorem flushed_set_config1 (h : Flushed s) (pname : GLenum) (value : TexParam F) :
    Flushed ((configurator tex params).next s (.set_config1 pname value)) ↔
      s.params pname = some value := by
  have hcfgs : ((configurator tex params).next s (.set_config1 pname value)).texture.cfgs =
      s.texture.cfgs ++ [⟨value, pname, false⟩] := rfl
  constructor
  · intro h'
    exact h'.sent ⟨value, pname, false⟩ (by rw [hcfgs]; simp) rfl
  · intro hv
    refine ⟨fun c hc hd => ?_, fun ⟨c, hc, hd⟩ => ?_⟩ <;>
      rw [hcfgs, List.mem_append, List.mem_singleton] at hc
    · rcases hc with hc | rfl
      · exact h.sent c hc hd
      · exact hv
    · rcases hc with hc | rfl
      · exact h.flag ⟨c, hc, hd⟩
      · cases hd

/-- The list overloads keep the invariant under every policy. -/
theorem flushed_set_config (h : Flushed s) (cfgs : List (TexConfig F)) (policy : UpdateMode) :
    Flushed ((configurator tex params).next s (.set_config cfgs policy)) := by
  show Flushed { s with texture := s.texture.set_config cfgs policy }
  unfold Texture2D.set_config
  split
  · exact h
  · refine ⟨fun c hc hd => ?_, fun _ => rfl⟩
    rcases switch_marks policy s.texture.cfgs cfgs s.texture.dirty c hc with hold | hmark
    · exact h.sent c hold hd
    · rw [hmark] at hd
      cases hd

omit [BEq F] in
/-- A flush leaves every entry in GL exactly where the dirty entries can be sent and agree. -/
theorem flush_sent_iff {cfgs : List (TexConfig F)} {params : Params F}
    (h : ∀ c ∈ cfgs, c.dirty = false → Sent params c) :
    (∀ c ∈ cfgs, (flush cfgs params).2 c.pname = some c.param) ↔
      ∀ d ∈ cfgs, d.dirty = true → applied d.pname d.param = some d.param ∧
        ∀ c ∈ cfgs, c.pname = d.pname → c.param = d.param := by
  constructor
  · intro hs d hd hdirty
    -- the name's value is what its last dirty entry `e` sent, which is `e`'s own parameter
    obtain ⟨e, he, hp, -, hv⟩ := flush_params_of_dirty params ⟨d, hd, rfl, hdirty⟩
    have hval : ∀ c ∈ cfgs, c.pname = d.pname → c.param = e.param := fun c hc hcp =>
      applied_eq (by rw [← hv, ← hcp, hs c hc])
    have hde := hval d hd rfl
    exact ⟨by rw [← hs d hd, hv, hde], fun c hc hcp => (hval c hc hcp).trans hde.symm⟩
  · intro hg c hc
    by_cases hdirty : ∃ d ∈ cfgs, d.pname = c.pname ∧ d.dirty = true
    · obtain ⟨e, he, hp, hed, hv⟩ := flush_params_of_dirty params hdirty
      obtain ⟨ha, hagree⟩ := hg e he hed
      rw [hv, ← hp, ha, hagree c hc hp.symm]
    · have hclean : ∀ d ∈ cfgs, d.pname = c.pname → d.dirty = false := fun d hd hp => by
        by_contra hne
        exact hdirty ⟨d, hd, hp, by simpa using hne⟩
      rw [flush_params_of_clean params hclean]
      exact h c hc (hclean c hc rfl)

omit [BEq F] in
@[simp] theorem sendConfig_cfgs (t : Texture2D F) (params : Params F) :
    (t.sendConfig params).1.cfgs = t.cfgs.map fun c => { c with dirty := false } :=
  flush_cfgs t.cfgs params

/-- After an `update()` the list and GL are those of the flush. -/
theorem next_update (hn : s.texture.needsUpdate) :
    (configurator tex params).next s .update =
      ⟨(s.texture.sendConfig s.params).1, (s.texture.sendConfig s.params).2⟩ := by
  simp [Machine.next, configurator, hn]

theorem next_update_idle (hn : ¬ s.texture.needsUpdate) :
    (configurator tex params).next s .update = s := by
  simp [Machine.next, configurator, hn]

omit [BEq F] in
/-- From an idle `update()` nothing is dirty. -/
theorem clean_of_idle (h : Flushed s) (hn : ¬ s.texture.needsUpdate) :
    ∀ c ∈ s.texture.cfgs, c.dirty = false := by
  intro c hc
  by_contra hd
  exact hn ⟨List.ne_nil_of_mem hc, h.flag ⟨c, hc, by simpa using hd⟩⟩

theorem flushed_update (h : Flushed s) :
    Flushed ((configurator tex params).next s .update) ↔ Sends s .update := by
  by_cases hn : s.texture.needsUpdate
  · rw [next_update hn]
    unfold Sends
    rw [← flush_sent_iff h.sent]
    constructor
    · intro h' c hc
      exact h'.sent { c with dirty := false } (by simpa using ⟨c, hc, rfl, rfl⟩) rfl
    · intro hs
      refine ⟨fun c hc _ => ?_, fun ⟨c, hc, hd⟩ => ?_⟩ <;>
        simp only [sendConfig_cfgs, List.mem_map] at hc <;> obtain ⟨c, hc, rfl⟩ := hc
      · exact hs c hc
      · cases hd
  · rw [next_update_idle hn]
    refine iff_of_true h fun d hd hdirty => ?_
    rw [clean_of_idle h hn d hd] at hdirty
    cases hdirty

theorem allSent_update (h : Flushed s) (h' : Flushed ((configurator tex params).next s .update)) :
    AllSent ((configurator tex params).next s .update) := by
  intro c hc
  refine h'.sent c hc ?_
  by_cases hn : s.texture.needsUpdate
  · rw [next_update hn] at hc
    simp only [sendConfig_cfgs, List.mem_map] at hc
    obtain ⟨c, -, rfl⟩ := hc
    rfl
  · rw [next_update_idle hn] at hc
    exact clean_of_idle h hn c hc

/-- **Exactly when configuration is flushed.** Along every run the two-level invariant holds in
every state, and GL holds every entry after every `update()`, iff every call `Sends`. -/
theorem flushed_iff_sends (tex : texture_t) (params : Params F) (calls : List (ConfigCall F)) :
    ((configurator tex params).EveryState calls Flushed ∧
        (configurator tex params).EveryStep calls fun s c =>
          c = .update → AllSent ((configurator tex params).next s c)) ↔
      (configurator tex params).EveryStep calls Sends := by
  have hiff : (configurator tex params).EveryState calls Flushed ↔
      (configurator tex params).EveryStep calls Sends :=
    Machine.everyState_iff_guard flushed_init fun s c h => by
      cases c with
      | set_config1 pname value => exact flushed_set_config1 h pname value
      | set_config cfgs policy => exact iff_of_true (flushed_set_config h cfgs policy) trivial
      | update => exact flushed_update h
  refine ⟨fun h => hiff.mp h.1, fun hg => ⟨hiff.mpr hg, ?_⟩⟩
  have hs := (hiff.mpr hg).everyStep
  rintro ⟨s, c⟩ hp rfl
  have hsc : Flushed s := hs _ hp
  exact allSent_update hsc ((flushed_update hsc).mpr (hg _ hp))

/-- What GL holds for a texture from `glGenTextures` on, of the parameters the code sets. -/
def initialParams : Params Nat := fun pname =>
  if pname = GL_TEXTURE_MIN_FILTER then some (.I1 GL_NEAREST_MIPMAP_LINEAR)
  else if pname = GL_TEXTURE_MAG_FILTER then some (.I1 GL_LINEAR)
  else if pname = GL_TEXTURE_WRAP_S ∨ pname = GL_TEXTURE_WRAP_T then some (.I1 GL_REPEAT)
  else if pname = GL_TEXTURE_BORDER_COLOR then some (.F4 #v[0, 0, 0, 0])
  else none

/-- A filter set by name and value is not sent by the next `update()`: GL keeps its initial one. -/
theorem set_config1_not_sent :
    ¬ (configurator { ID := 1 } initialParams).EveryStep
      [.set_config1 GL_TEXTURE_MIN_FILTER (.I1 GL_LINEAR), .update]
      fun s c => c = .update → AllSent ((configurator { ID := 1 } initialParams).next s c) := by
  intro h
  have hsent := h (_, .update) (.tail _ (.head _)) rfl
    ⟨.I1 GL_LINEAR, GL_TEXTURE_MIN_FILTER, false⟩ (by decide)
  exact absurd hsent (by unfold Sent; decide)

end LearnNotes.Graphics
