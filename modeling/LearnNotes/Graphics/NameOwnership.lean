import LearnNotes.Graphics.Methods
import LearnNotes.Lib.Ownership

/-!
# Who owns a texture name

`NamesOwned` is what a run should keep: each name `glGenTextures` returned and
`glDeleteTextures` did not get yet is the name of one live texture. The destructor deletes
the name only where the texture has a unit, and move assignment writes over the name of its
target; all else keeps ownership, and where it is kept no name is deleted twice.
`namesOwned_iff`: a run keeps both exactly when it destroys only textures that have a unit
or no name, and assigns only onto nameless ones.
-/

namespace LearnNotes.Graphics

open Lib World

variable {F : Type}

/-! ## Names in GL -/

/-- The same names are in use and deleted. -/
structure SameNames (s s' : Statics F) : Prop where
  names : s'.gl.names = s.gl.names
  deleted : s'.gl.deleted = s.gl.deleted

namespace SameNames

variable {s s' s'' : Statics F}

theorem refl (s : Statics F) : SameNames s s := ⟨rfl, rfl⟩

theorem trans (h : SameNames s s') (h' : SameNames s' s'') : SameNames s s'' :=
  ⟨h'.names.trans h.names, h'.deleted.trans h.deleted⟩

end SameNames

theorem sameNames_bind (t : Texture2D F) (s : Statics F) : SameNames s (t.bind s) := by
  unfold Texture2D.bind
  split <;> exact ⟨rfl, rfl⟩

theorem sameNames_activate (t : Texture2D F) (s : Statics F) : SameNames s (t.activate s).2 := by
  unfold Texture2D.activate TextureUnit.activate
  split_ifs <;> exact ⟨rfl, rfl⟩

theorem sameNames_drawTextures (get : Memory.Handle → Option (Texture2D F))
    (hs : List Memory.Handle) (d : Drawing F) :
    SameNames d.statics (Mesh2D.drawTextures get hs d).2.statics := by
  induction hs generalizing d with
  | nil => exact .refl _
  | cons h hs ih =>
    unfold Mesh2D.drawTextures
    split
    · exact .refl _
    · next sp _ =>
      have hact := sameNames_activate sp d.statics
      split
      · next hs' =>
        rw [hs'] at hact
        exact hact
      · next s hs' =>
        rw [hs'] at hact
        have hrest := ih (Mesh2D.setUnit sp { d with statics := s })
        rw [Mesh2D.setUnit_statics] at hrest
        exact hact.trans hrest

theorem sameNames_draw (get : Memory.Handle → Option (Texture2D F)) (mesh : Mesh2D)
    (s : Statics F) : SameNames s (mesh.Draw get s).2.2 := by
  unfold Mesh2D.Draw
  cases mesh.res with
  | none => exact .refl _
  | some res =>
    have h := sameNames_drawTextures get res.textures ⟨1, 1, fun _ => none, s⟩
    dsimp only
    split <;> next hd =>
      rw [hd] at h
      exact ⟨h.names, h.deleted⟩

variable [BEq F]

theorem sameNames_run (m : Method F) (t : Texture2D F) (s : Statics F) :
    SameNames s (m.run t s).2.2 := by
  by_cases ha : m = .activate
  · rw [ha, Method.run_activate]
    exact sameNames_activate t s
  · by_cases hm : ∃ pos, m = .acquire pos
    · obtain ⟨pos, rfl⟩ := hm
      rw [Method.run_acquire]
      exact ⟨by rw [(acquire_frame t s pos).2.1], by rw [(acquire_frame t s pos).2.1]⟩
    · rcases run_statics t s (not_exists.mp hm) ha with h | ⟨image, params, h⟩ <;> rw [h]
      · exact .refl s
      · exact ⟨(sameNames_bind t s).names, (sameNames_bind t s).deleted⟩

/-! ## Ownership -/

def Texture2D.ID (t : Texture2D F) : GLuint := t.tex.ID

/-- The agreement of GL's names with the textures'. -/
def OwnsNames (w : World F) : Prop :=
  Owned (present (· ∈ w.statics.gl.names)) (named Texture2D.ID ∘ w.tex)

/-- Each name in use is that of one live texture. -/
def NamesOwned (w : World F) : Prop :=
  ∀ n ∈ w.statics.gl.names, ∃! i, ∃ t, w.tex i = some t ∧ t.tex.ID = n

/-- The operation passes only names in use to `glDeleteTextures`, none of them twice; GL
ignores name 0. -/
def DeletesOnce (maxUnits : Fin (2 ^ 31)) (w : World F) (op : Op F) : Prop :=
  ∃ ns : List GLuint, ((world F maxUnits).next w op).statics.gl.deleted =
      ns ++ w.statics.gl.deleted ∧ ns.Nodup ∧ ∀ n ∈ ns, n = 0 ∨ n ∈ w.statics.gl.names

/-- What ownership needs of an operation: a texture that is destroyed has a unit or no name,
one that is assigned to has no name. -/
def KeepsNames (w : World F) : Op F → Prop
  | .destroy i => ∀ t, w.tex i = some t → t.unitPos ≠ SIZE_T_MAX ∨ t.tex.ID = 0
  | .moveAssign dst src => dst ≠ src → ∀ o t, w.tex src = some o → w.tex dst = some t →
      t.tex.ID = 0
  | _ => True

variable {maxUnits : Fin (2 ^ 31)} {w w' : World F} {i dst src : Nat} {t o : Texture2D F}

omit [BEq F] in
theorem named_nameless (h : t.tex.ID = 0) : named Texture2D.ID (some t) = none := named_zero h

omit [BEq F] in
theorem named_ID (h : t.tex.ID ≠ 0) : named Texture2D.ID (some t) = some (t.tex.ID, ()) :=
  named_ne_zero h

omit [BEq F] in
theorem named_movedFrom : named Texture2D.ID (some (Texture2D.movedFrom : Texture2D F)) = none :=
  named_zero rfl

omit [BEq F] in
theorem OwnsNames.namesOwned (h : OwnsNames w) : NamesOwned w := fun _ hn => h.owner hn

omit [BEq F] in
theorem OwnsNames.of_same (h : OwnsNames w) (hs : SameNames w.statics w'.statics)
    (ht : named Texture2D.ID ∘ w'.tex = named Texture2D.ID ∘ w.tex) : OwnsNames w' := by
  unfold OwnsNames
  rw [ht, present_congr (p := (· ∈ w.statics.gl.names)) fun n => by rw [hs.names]]
  exact h

omit [BEq F] in
/-- A texture is replaced by one of the same name. -/
theorem named_update (hi : named Texture2D.ID (w.tex i) = named Texture2D.ID (some t)) :
    named Texture2D.ID ∘ Function.update w.tex i (some t) = named Texture2D.ID ∘ w.tex := by
  rw [Function.comp_update, ← hi]
  exact Function.update_eq_self i (named Texture2D.ID ∘ w.tex)

/-! ## One operation -/

omit [BEq F] in
theorem ownsNames_construct (h : OwnsNames w) (args : Option PathArgs) (n : GLuint) :
    OwnsNames (w.construct args n) := by
  by_cases hn : n = 0 ∨ n ∈ w.statics.gl.names
  · rw [construct_of_used args hn]
    exact h
  · obtain ⟨h0, hnew⟩ := not_or.mp hn
    have hnames : ∀ k, k ∈ (w.construct args n).statics.gl.names ↔
        k = n ∨ k ∈ w.statics.gl.names := fun k => by
      rw [construct_of_fresh args hn]
      exact List.mem_cons
    have hnamed : named Texture2D.ID (some (Texture2D.new args n w.statics).1) = some (n, ()) :=
      named_ne_zero h0
    unfold OwnsNames
    rw [tex_construct args hn, Function.comp_update, present_insert hnames, hnamed]
    exact h.grant (by rw [Function.comp_apply, tex_length, named_none])
      (present_eq_none.mpr hnew)

theorem ownsNames_call (h : OwnsNames w) (i : Nat) (m : Method F) :
    OwnsNames ((world F maxUnits).next w (.call i m)) := by
  cases ht : w.tex i with
  | none => rw [next_call_dead w m ht]; exact h
  | some t =>
    have hid : (m.run t w.statics).2.1.tex.ID = t.tex.ID := run_ID m t w.statics
    refine h.of_same ?_ ?_
    · rw [next_call w m ht]
      exact sameNames_run m t w.statics
    · rw [tex_next_call w m ht]
      refine named_update ?_
      rw [ht]
      exact named_congr hid.symm

omit [BEq F] in
theorem ownsNames_moveConstruct (h : OwnsNames w) (src : Nat) :
    OwnsNames (w.moveConstruct src) := by
  cases ho : w.tex src with
  | none =>
    unfold World.moveConstruct
    rw [ho]
    exact h
  | some o =>
    have hne : src ≠ w.objs.length := Nat.ne_of_lt (lt_of_tex ho)
    have hnone : (named Texture2D.ID ∘ w.tex) w.objs.length = none := by
      rw [Function.comp_apply, tex_length, named_none]
    unfold OwnsNames
    rw [moveConstruct_statics, tex_moveConstruct ho, Function.comp_update, Function.comp_update,
      Function.update_comm hne, named_movedFrom, ← ho]
    exact h.transfer hne hnone

omit [BEq F] in
theorem ownsNames_moveAssign (h : OwnsNames w) (hg : KeepsNames w (.moveAssign dst src)) :
    OwnsNames (w.moveAssign dst src) := by
  cases hs : w.tex src with
  | none => rw [moveAssign_dead (.inl hs)]; exact h
  | some o =>
    cases hd : w.tex dst with
    | none => rw [moveAssign_dead (.inr hd)]; exact h
    | some t =>
      by_cases hne : dst = src
      · subst hne
        refine h.of_same ?_ ?_
        · rw [moveAssign_statics]
          exact .refl _
        · rw [tex_moveAssign_self hs]
          refine named_update ?_
          rw [hs]
          rfl
      · have h0 := hg hne o t hs hd
        have hnone : (named Texture2D.ID ∘ w.tex) dst = none := by
          rw [Function.comp_apply, hd, named_nameless h0]
        unfold OwnsNames
        rw [moveAssign_statics, tex_moveAssign hs hd hne, Function.comp_update,
          Function.comp_update, named_movedFrom, ← hs]
        exact h.transfer (Ne.symm hne) hnone

omit [BEq F] in
theorem ownsNames_destroy (h : OwnsNames w) (hg : KeepsNames w (.destroy i)) :
    OwnsNames (w.destroy i) := by
  cases ht : w.tex i with
  | none => rw [destroy_dead ht]; exact h
  | some t =>
    have hgl := destroy_gl t w.statics
    rw [← destroy_statics ht] at hgl
    by_cases h0 : t.tex.ID = 0
    · have hnamed : named Texture2D.ID ∘ (w.destroy i).tex = named Texture2D.ID ∘ w.tex := by
        have hnone : (named Texture2D.ID ∘ w.tex) i = none := by
          rw [Function.comp_apply, ht, named_nameless h0]
        rw [tex_destroy ht, Function.comp_update, named_none, ← hnone, Function.update_eq_self]
      -- GL ignores name 0, which is not in use
      have hzero : 0 ∉ w.statics.gl.names := fun hz => by
        obtain ⟨j, hj⟩ := h.total (present_eq_some.mpr hz)
        exact (named_eq_some.mp hj).1 rfl
      unfold OwnsNames
      rw [hnamed, present_congr (p := (· ∈ w.statics.gl.names)) fun n => ?_]
      · exact h
      · rw [hgl, h0]
        split
        · show n ∈ w.statics.gl.names.filter (· != 0) ↔ _
          simp only [List.mem_filter, bne_iff_ne, and_iff_left_iff_imp]
          exact fun hn => fun h' => hzero (h' ▸ hn)
        · rfl
    · have hunit := (hg t ht).resolve_right h0
      rw [if_pos hunit] at hgl
      have hnames : ∀ n, n ∈ (w.destroy i).statics.gl.names ↔
          n ≠ t.tex.ID ∧ n ∈ w.statics.gl.names := fun n => by
        rw [hgl]
        show n ∈ w.statics.gl.names.filter (· != t.tex.ID) ↔ _
        simp [and_comm]
      unfold OwnsNames
      rw [present_erase hnames, tex_destroy ht, Function.comp_update, named_none]
      exact h.drop (by rw [Function.comp_apply, ht, named_ID h0])

theorem ownsNames_next (h : OwnsNames w) (op : Op F) (hg : KeepsNames w op) :
    OwnsNames ((world F maxUnits).next w op) := by
  cases op with
  | construct args n => exact ownsNames_construct h args n
  | moveConstruct src => exact ownsNames_moveConstruct h src
  | moveAssign dst src => exact ownsNames_moveAssign h hg
  | destroy i => exact ownsNames_destroy h hg
  | call i m => exact ownsNames_call h i m
  | draw get mesh => exact h.of_same (sameNames_draw (w.resolve get) mesh w.statics) rfl

omit [BEq F] in
/-- A destroyed texture without a unit leaves its name behind. -/
theorem destroy_needs (h : OwnsNames w) (ht : w.tex i = some t)
    (h' : NamesOwned (w.destroy i)) : t.unitPos ≠ SIZE_T_MAX ∨ t.tex.ID = 0 := by
  by_contra hg
  obtain ⟨hunit, h0⟩ := not_or.mp hg
  have hlive : t.tex.ID ∈ (w.destroy i).statics.gl.names := by
    rw [destroy_statics ht, destroy_gl, if_neg hunit]
    exact h.exists_name ht h0
  refine h.no_owner ht h0 (fun j b hb he => ?_) (h' _ hlive).exists
  rw [tex_destroy ht] at hb
  by_cases hji : j = i
  · rw [hji, Function.update_self] at hb
    cases hb
  · rw [Function.update_of_ne hji] at hb
    exact ⟨j, b, hji, hb, he⟩

omit [BEq F] in
/-- The name of the texture assigned to is left behind. -/
theorem moveAssign_needs (h : OwnsNames w) (hne : dst ≠ src) (hs : w.tex src = some o)
    (hd : w.tex dst = some t) (h' : NamesOwned (w.moveAssign dst src)) : t.tex.ID = 0 := by
  by_contra h0
  have hlive : t.tex.ID ∈ (w.moveAssign dst src).statics.gl.names := by
    rw [moveAssign_statics]
    exact h.exists_name hd h0
  refine h.no_owner hd h0 (fun j b hb he => ?_) (h' _ hlive).exists
  rw [tex_moveAssign hs hd hne] at hb
  by_cases hjs : j = src
  · rw [hjs, Function.update_self] at hb
    cases hb
    exact absurd he.symm h0
  · rw [Function.update_of_ne hjs] at hb
    by_cases hjd : j = dst
    · rw [hjd, Function.update_self] at hb
      cases hb
      exact ⟨src, o, Ne.symm hne, hs, he⟩
    · rw [Function.update_of_ne hjd] at hb
      exact ⟨j, b, hjd, hb, he⟩

theorem keepsNames_of_owned (h : OwnsNames w) (op : Op F)
    (h' : NamesOwned ((world F maxUnits).next w op)) : KeepsNames w op := by
  cases op with
  | destroy i => exact fun t ht => destroy_needs h ht h'
  | moveAssign dst src => exact fun hne o t hs hd => moveAssign_needs h hne hs hd h'
  | _ => trivial

/-- An operation that leaves the deleted names alone. -/
theorem deletesOnce_of_same {op : Op F}
    (h : ((world F maxUnits).next w op).statics.gl.deleted = w.statics.gl.deleted) :
    DeletesOnce maxUnits w op := ⟨[], h, List.nodup_nil, nofun⟩

theorem deletesOnce (h : OwnsNames w) (op : Op F) : DeletesOnce maxUnits w op := by
  cases op with
  | construct args n =>
    refine deletesOnce_of_same ?_
    rw [next_construct]
    by_cases hn : n = 0 ∨ n ∈ w.statics.gl.names
    · rw [construct_of_used args hn]
    · rw [construct_of_fresh args hn]
      rfl
  | moveConstruct src =>
    refine deletesOnce_of_same ?_
    rw [next_moveConstruct, moveConstruct_statics]
  | moveAssign dst src =>
    refine deletesOnce_of_same ?_
    rw [next_moveAssign, moveAssign_statics]
  | destroy i =>
    cases ht : w.tex i with
    | none =>
      refine deletesOnce_of_same ?_
      rw [next_destroy, destroy_dead ht]
    | some t =>
      have hgl := destroy_gl t w.statics
      rw [← destroy_statics ht] at hgl
      by_cases hunit : t.unitPos = SIZE_T_MAX
      · refine deletesOnce_of_same ?_
        rw [next_destroy, hgl, if_neg (not_not.mpr hunit)]
      · refine ⟨[t.tex.ID], ?_, List.nodup_singleton _, fun n hn => ?_⟩
        · rw [next_destroy, hgl, if_pos hunit]
          rfl
        · rw [List.mem_singleton.mp hn, or_iff_not_imp_left]
          exact h.exists_name ht
  | call i m =>
    refine deletesOnce_of_same ?_
    cases ht : w.tex i with
    | none => rw [next_call_dead w m ht]
    | some t =>
      rw [next_call w m ht]
      exact (sameNames_run m t w.statics).deleted
  | draw get mesh =>
    exact deletesOnce_of_same (sameNames_draw (w.resolve get) mesh w.statics).deleted

/-! ## Whole runs -/

theorem ownsNames_init : OwnsNames (world F maxUnits).init := by
  have hpresent : present (· ∈ (world F maxUnits).init.statics.gl.names) = fun _ => none := by
    funext n
    exact present_eq_none.mpr List.not_mem_nil
  unfold OwnsNames
  rw [hpresent]
  exact Owned.empty

/-- **Exactly when names stay owned**, each deleted once. -/
theorem namesOwned_iff (maxUnits : Fin (2 ^ 31)) (ops : List (Op F)) :
    (world F maxUnits).EveryState ops NamesOwned ∧
        (world F maxUnits).EveryStep ops (DeletesOnce maxUnits) ↔
      (world F maxUnits).EveryStep ops KeepsNames := by
  have hiff : (world F maxUnits).EveryState ops NamesOwned ↔
      (world F maxUnits).EveryStep ops KeepsNames :=
    Machine.everyState_iff_guard_of (fun _ h => h.namesOwned) ownsNames_init
      (fun _ op h hg => ownsNames_next h op hg) fun _ op h h' => keepsNames_of_owned h op h'
  constructor
  · exact fun h => hiff.mp h.1
  · intro hg
    have howns := Machine.everyState_of_guard (M := world F maxUnits) ownsNames_init
      (fun _ op h hg => ownsNames_next h op hg) hg
    exact ⟨hiff.mpr hg, fun p hp => deletesOnce (howns.everyStep p hp) p.2⟩

/-- A texture that never acquired a unit leaves its name undeleted. -/
theorem destroy_leaks_name :
    ¬ ((world Nat 16).EveryState [.construct none 1, .destroy 0] NamesOwned ∧
      (world Nat 16).EveryStep [.construct none 1, .destroy 0] (DeletesOnce 16)) := by
  rintro ⟨h, -⟩
  obtain ⟨i, ⟨t, ht, -⟩, -⟩ := h.last 1 (by decide)
  match i with
  | 0 => cases ht
  | i + 1 => cases ht

end LearnNotes.Graphics
