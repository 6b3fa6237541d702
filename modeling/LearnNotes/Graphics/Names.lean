import LearnNotes.Graphics.Methods

/-!
# Texture names

A live texture that was never moved has a `glGenTextures` name of its own: `Named` holds
along every run without moves. Only construction and destruction touch the names.
-/

namespace LearnNotes.Graphics

open Lib World

variable {F : Type}

def Op.isMove : Op F → Bool
  | .moveConstruct _ => true
  | .moveAssign _ _ => true
  | _ => false

def Op.isDraw : Op F → Bool
  | .draw _ _ => true
  | _ => false

/-- Without moves every live texture has its own name. -/
structure Named (w : World F) : Prop where
  ne_zero : ∀ i t, w.tex i = some t → t.tex.ID ≠ 0
  mem_names : ∀ i t, w.tex i = some t → t.tex.ID ∈ w.statics.gl.names
  inj : ∀ i j t t', w.tex i = some t → w.tex j = some t' → t.tex.ID = t'.tex.ID → i = j

variable [BEq F] {maxUnits : Fin (2 ^ 31)} {w : World F}

omit [BEq F] in
theorem named_construct (h : Named w) (args : Option PathArgs) (n : GLuint) :
    Named (w.construct args n) := by
  by_cases hn : n = 0 ∨ n ∈ w.statics.gl.names
  · rw [construct_of_used args hn]
    exact h
  · obtain ⟨h0, hf⟩ := not_or.mp hn
    have htex := tex_construct args hn
    have hnames : (w.construct args n).statics.gl.names = n :: w.statics.gl.names := by
      rw [construct_of_fresh args hn]
      rfl
    -- a live texture afterwards is the new one or an old one
    have hcase : ∀ i t, (w.construct args n).tex i = some t →
        (i = w.objs.length ∧ t.tex.ID = n) ∨ (i ≠ w.objs.length ∧ w.tex i = some t) := by
      intro i t ht
      rw [htex] at ht
      by_cases hi : i = w.objs.length
      · rw [hi, Function.update_self] at ht
        cases ht
        exact .inl ⟨hi, rfl⟩
      · rw [Function.update_of_ne hi] at ht
        exact .inr ⟨hi, ht⟩
    refine ⟨fun i t ht => ?_, fun i t ht => ?_, fun i j t t' ht ht' he => ?_⟩
    · rcases hcase i t ht with ⟨-, rfl⟩ | ⟨-, ht⟩
      · exact h0
      · exact h.ne_zero i t ht
    · rw [hnames]
      rcases hcase i t ht with ⟨-, rfl⟩ | ⟨-, ht⟩
      · exact List.mem_cons_self
      · exact List.mem_cons_of_mem _ (h.mem_names i t ht)
    · rcases hcase i t ht with ⟨rfl, rfl⟩ | ⟨-, ht⟩ <;>
        rcases hcase j t' ht' with ⟨rfl, hn'⟩ | ⟨-, ht'⟩
      · rfl
      · exact absurd (he ▸ h.mem_names j t' ht') hf
      · exact absurd ((he.trans hn') ▸ h.mem_names i t ht) hf
      · exact h.inj i j t t' ht ht' he

omit [BEq F] in
theorem named_destroy (h : Named w) (i : Nat) : Named (w.destroy i) := by
  cases ht : w.tex i with
  | none => rw [destroy_dead ht]; exact h
  | some t =>
    have hlive : ∀ j t', (w.destroy i).tex j = some t' → j ≠ i ∧ w.tex j = some t' := by
      intro j t' hj
      rw [tex_destroy ht] at hj
      by_cases hji : j = i
      · rw [hji, Function.update_self] at hj
        cases hj
      · rw [Function.update_of_ne hji] at hj
        exact ⟨hji, hj⟩
    refine ⟨fun j t' hj => h.ne_zero j t' (hlive j t' hj).2, fun j t' hj => ?_,
      fun j k t' t'' hj hk => h.inj j k t' t'' (hlive j t' hj).2 (hlive k t'' hk).2⟩
    obtain ⟨hji, hj⟩ := hlive j t' hj
    have hmem := h.mem_names j t' hj
    rw [destroy_statics ht, destroy_gl]
    split
    · refine List.mem_filter.mpr ⟨hmem, ?_⟩
      simpa using fun he => hji (h.inj j i t' t hj ht he)
    · exact hmem

/-- After a call the live textures are those before, by the same names. -/
theorem live_of_call (i : Nat) (m : Method F) {j : Nat} {t' : Texture2D F}
    (hj : ((world F maxUnits).next w (.call i m)).tex j = some t') :
    ∃ t'', w.tex j = some t'' ∧ t''.tex.ID = t'.tex.ID := by
  cases ht : w.tex i with
  | none =>
    rw [next_call_dead w m ht] at hj
    exact ⟨t', hj, rfl⟩
  | some t =>
    rw [tex_next_call w m ht] at hj
    by_cases hji : j = i
    · rw [hji, Function.update_self] at hj
      cases hj
      exact ⟨t, hji ▸ ht, (run_ID m t w.statics).symm⟩
    · rw [Function.update_of_ne hji] at hj
      exact ⟨t', hj, rfl⟩

theorem named_call (h : Named w) (i : Nat) (m : Method F) :
    Named ((world F maxUnits).next w (.call i m)) := by
  cases ht : w.tex i with
  | none => rw [next_call_dead w m ht]; exact h
  | some t =>
    have hnames := run_names (m := m) t w.statics
    have hgl : ((world F maxUnits).next w (.call i m)).statics.gl.names = w.statics.gl.names := by
      rw [next_call w m ht]
      exact hnames
    refine ⟨fun j t' hj => ?_, fun j t' hj => ?_, fun j k t' t'' hj hk he => ?_⟩
    · obtain ⟨u, hu, hid⟩ := live_of_call i m hj
      rw [← hid]
      exact h.ne_zero j u hu
    · obtain ⟨u, hu, hid⟩ := live_of_call i m hj
      rw [← hid, hgl]
      exact h.mem_names j u hu
    · obtain ⟨u, hu, hid⟩ := live_of_call i m hj
      obtain ⟨v, hv, hid'⟩ := live_of_call i m hk
      exact h.inj j k u v hu hv (by rw [hid, hid', he])

theorem named_next (h : Named w) (op : Op F) (hm : op.isMove = false) :
    Named ((world F maxUnits).next w op) := by
  cases op with
  | construct args n => exact named_construct h args n
  | moveConstruct src => cases hm
  | moveAssign dst src => cases hm
  | destroy i => exact named_destroy h i
  | call i m => exact named_call h i m
  | draw get mesh =>
    have hnames : ((world F maxUnits).next w (.draw get mesh)).statics.gl.names =
        w.statics.gl.names := (draw_frame (w.resolve get) mesh w.statics).2.2
    exact ⟨h.ne_zero, fun i t ht => hnames ▸ h.mem_names i t ht, h.inj⟩

theorem named_init : Named (world F maxUnits).init :=
  have hnone : ∀ i, (world F maxUnits).init.tex i = none := fun _ => rfl
  ⟨fun i _ h => absurd (hnone i ▸ h) nofun, fun i _ h => absurd (hnone i ▸ h) nofun,
    fun i _ _ _ h => absurd (hnone i ▸ h) nofun⟩

/-- **Names along a run without moves.** -/
theorem everyState_named {ops : List (Op F)} (hm : ∀ op ∈ ops, op.isMove = false) :
    (world F maxUnits).EveryState ops Named :=
  Machine.everyState_of_guard named_init (fun _ op h hop => named_next h op hop)
    (Machine.everyStep_of_inputs hm)

end LearnNotes.Graphics
