import LearnNotes.Graphics.Names

/-!
# The bind cache

`Texture2D::_bind_id` remembers the name of the last `bind()`, and `bind()` does nothing
for that name. `activate()` and the destructor rebind without telling it, so a cache hit
says nothing about the active unit. Where no texture is moved and nothing is drawn, the
active unit's binding is the texture that `glBindTexture` was last called for
(`ActiveBinding`), and so `bind()` selects its texture exactly where a cache hit finds that
texture last bound: `bindsOwn_iff`.
-/

namespace LearnNotes.Graphics

open Lib World

variable {F : Type}

/-! ## `bind()` and the methods that call it -/

/-- The call reaches a `glBindTexture`. -/
def Method.issues (t : Texture2D F) (s : Statics F) : Method F → Prop
  | .activate => t.unitPos < s.unitMgr.maxUnits
  | m => m.callsBind t ∧ s.bind_id ≠ t.tex.ID

instance (t : Texture2D F) (s : Statics F) : (m : Method F) → Decidable (m.issues t s)
  | .activate => inferInstanceAs (Decidable (_ < _))
  | .bind | .load _ _ | .update | .acquire _ | .set_texName _ | .set_config1 _ _
  | .set_config _ _ => inferInstanceAs (Decidable (Method.callsBind t _ ∧ _ ≠ _))

theorem issues_iff {m : Method F} {t : Texture2D F} {s : Statics F} (h : m ≠ .activate) :
    m.issues t s ↔ m.callsBind t ∧ s.bind_id ≠ t.tex.ID := by
  cases m with
  | activate => exact absurd rfl h
  | _ => exact Iff.rfl

/-- `bind()` selects its texture, unless the cache is hit while another one is bound. -/
theorem bind_bound_iff (t : Texture2D F) (s : Statics F) :
    (t.bind s).gl.bound = t.tex.ID ↔ (s.bind_id = t.tex.ID → s.gl.bound = t.tex.ID) := by
  unfold Texture2D.bind
  split
  · next h => simp [GLState.bound, GLState.glBindTexture, h]
  · next h => simp [not_not.mp h]

/-- The GL state between two calls: what is bound where, and on which unit. -/
structure SameBindings (gl gl' : GLState F) : Prop where
  active : gl'.active = gl.active
  binding : gl'.binding = gl.binding

theorem SameBindings.bound {gl gl' : GLState F} (h : SameBindings gl gl') :
    gl'.bound = gl.bound := by
  unfold GLState.bound
  rw [h.active, h.binding]

/-- A `glBindTexture` of `n`, the active unit having possibly changed before it. -/
structure Binds (n : GLuint) (gl gl' : GLState F) : Prop where
  bound : gl'.bound = n
  binding : ∀ u, gl'.binding u = gl.binding u ∨ gl'.binding u = n

theorem binds_glBindTexture (n : GLuint) (gl : GLState F) (pos : Nat) :
    Binds n gl ((gl.glActiveTexture pos).glBindTexture n) := by
  refine ⟨by simp [GLState.bound, GLState.glBindTexture], fun u => ?_⟩
  by_cases hu : u = pos
  · exact .inr (by simp [GLState.glBindTexture, GLState.glActiveTexture, hu])
  · exact .inl (by simp [GLState.glBindTexture, GLState.glActiveTexture, hu])

/-- What `activate()` does to GL: an error leaves it, else the texture is bound. -/
theorem activate_gl (t : Texture2D F) (s : Statics F) :
    (¬ t.unitPos < s.unitMgr.maxUnits → (t.activate s).2.gl = s.gl) ∧
      (t.unitPos < s.unitMgr.maxUnits →
        ∃ pos, (t.activate s).2.gl = (s.gl.glActiveTexture pos).glBindTexture t.tex.ID) := by
  unfold Texture2D.activate TextureUnit.activate
  constructor
  · intro h
    rw [if_pos (not_lt.mp h)]
  · intro h
    rw [if_neg (not_le.mpr h)]
    split_ifs
    · exact ⟨s.gl.active, rfl⟩
    · exact ⟨t.unitPos, rfl⟩

section Methods

variable [BEq F]

theorem run_gl_bind {m : Method F} {t : Texture2D F} (s : Statics F) (hb : m.callsBind t) :
    SameBindings (t.bind s).gl (m.run t s).2.2.gl := by
  obtain ⟨image, params, h⟩ := run_statics_bind t s hb
  rw [h]
  exact ⟨rfl, rfl⟩

theorem run_gl_idle {m : Method F} {t : Texture2D F} (s : Statics F) (ha : m ≠ .activate)
    (hb : ¬ m.callsBind t) : (m.run t s).2.2.gl = s.gl := by
  by_cases hm : ∃ pos, m = .acquire pos
  · obtain ⟨pos, rfl⟩ := hm
    exact (acquire_frame t s pos).2.1
  · rw [run_statics_idle t s (not_exists.mp hm) ha hb]

theorem run_same (m : Method F) (t : Texture2D F) (s : Statics F) (h : ¬ m.issues t s) :
    SameBindings s.gl (m.run t s).2.2.gl := by
  by_cases ha : m = .activate
  · subst ha
    rw [Method.run_activate, (activate_gl t s).1 h]
    exact ⟨rfl, rfl⟩
  · by_cases hb : m.callsBind t
    · -- a cache hit
      have hid : ¬ s.bind_id ≠ t.tex.ID := fun hne => h ((issues_iff ha).mpr ⟨hb, hne⟩)
      have hsame := run_gl_bind s hb
      rwa [bind_gl, if_neg hid] at hsame
    · rw [run_gl_idle s ha hb]
      exact ⟨rfl, rfl⟩

theorem run_binds (m : Method F) (t : Texture2D F) (s : Statics F) (h : m.issues t s) :
    Binds t.tex.ID s.gl (m.run t s).2.2.gl := by
  by_cases ha : m = .activate
  · subst ha
    obtain ⟨pos, hpos⟩ := (activate_gl t s).2 h
    rw [Method.run_activate, hpos]
    exact binds_glBindTexture ..
  · have h := (issues_iff ha).mp h
    have hsame := run_gl_bind s h.1
    rw [bind_gl, if_pos h.2] at hsame
    have hb := binds_glBindTexture t.tex.ID s.gl s.gl.active
    exact ⟨hsame.bound.trans hb.bound, fun u => by rw [hsame.binding]; exact hb.binding u⟩

end Methods

/-! ## The texture last bound -/

/-- The texture `glBindTexture` is called for, by a `bind()` that misses the cache or an
`activate()` that succeeds. -/
def binder (w : World F) : Op F → Option Nat
  | .call i m =>
    match w.tex i with
    | none => none
    | some t => if m.issues t w.statics then some i else none
  | _ => none

theorem binder_dead {w : World F} {i : Nat} (m : Method F) (h : w.tex i = none) :
    binder w (.call i m) = none := by
  simp only [binder, h]

theorem binder_call {w : World F} {i : Nat} {t : Texture2D F} (m : Method F)
    (h : w.tex i = some t) :
    binder w (.call i m) = if m.issues t w.statics then some i else none := by
  simp only [binder, h]

/-- The world and the texture last bound in the run so far. -/
def traced (F : Type) [BEq F] (maxUnits : Fin (2 ^ 31)) :
    Machine (World F × Option Nat) (Op F) Reply :=
  (world F maxUnits).withHistory none fun last w op => (binder w op).or last

/-- The active unit's binding is the texture last bound. -/
structure ActiveBinding (w : World F) (last : Option Nat) : Prop where
  named : Named w
  bindings : ∀ u, w.statics.gl.binding u = 0 ∨ w.statics.gl.binding u ∈ w.statics.gl.names
  bound_iff : ∀ i t, w.tex i = some t → (w.statics.gl.bound = t.tex.ID ↔ last = some i)
  last_lt : ∀ i, last = some i → i < w.objs.length

section Steps

variable [BEq F] {maxUnits : Fin (2 ^ 31)} {w : World F} {last : Option Nat}

omit [BEq F] in
theorem activeBinding_construct (h : ActiveBinding w last) (args : Option PathArgs) (n : GLuint) :
    ActiveBinding (w.construct args n) last := by
  have hnamed := named_construct h.named args n
  by_cases hn : n = 0 ∨ n ∈ w.statics.gl.names
  · rw [construct_of_used args hn]
    exact h
  · obtain ⟨h0, hf⟩ := not_or.mp hn
    have htex := tex_construct args hn
    have hw := construct_of_fresh args hn
    refine ⟨hnamed, fun u => ?_, fun i t ht => ?_, fun i hi => ?_⟩
    · rw [hw]
      exact (h.bindings u).imp_right fun hm => List.mem_cons_of_mem n hm
    · have hb : (w.construct args n).statics.gl.bound = w.statics.gl.bound := by
        rw [hw]
        rfl
      rw [hb]
      rw [htex] at ht
      by_cases hi : i = w.objs.length
      · -- the new name is bound nowhere, the new object was never bound
        rw [hi, Function.update_self] at ht
        cases ht
        refine iff_of_false (fun he => ?_) fun hl => absurd (h.last_lt i hl) (by omega)
        have hbn : w.statics.gl.bound = n := he
        rcases h.bindings w.statics.gl.active with hz | hm
        · exact h0 (hbn.symm.trans hz)
        · exact hf (hbn ▸ hm)
      · rw [Function.update_of_ne hi] at ht
        exact h.bound_iff i t ht
    · have := h.last_lt i hi
      rw [hw, List.length_append]
      omega

omit [BEq F] in
/-- Deleting a name leaves every other binding, and every other name. -/
theorem binding_glDeleteTextures {gl : GLState F} (n : GLuint) {u : Nat}
    (h : gl.binding u = 0 ∨ gl.binding u ∈ gl.names) :
    (gl.glDeleteTextures n).binding u = 0 ∨
      (gl.glDeleteTextures n).binding u ∈ (gl.glDeleteTextures n).names := by
  unfold GLState.glDeleteTextures
  dsimp only
  split
  · exact .inl rfl
  · next hne =>
    exact h.imp_right fun hm => List.mem_filter.mpr ⟨hm, by simpa using hne⟩

omit [BEq F] in
theorem activeBinding_destroy (h : ActiveBinding w last) (i : Nat) :
    ActiveBinding (w.destroy i) last := by
  have hnamed := named_destroy h.named i
  cases ht : w.tex i with
  | none => rw [destroy_dead ht]; exact h
  | some t =>
    have hlen : (w.destroy i).objs.length = w.objs.length := by
      unfold World.destroy World.set
      rw [ht]
      simp
    have hgl : (w.destroy i).statics.gl = if t.unitPos ≠ SIZE_T_MAX then
        w.statics.gl.glDeleteTextures t.tex.ID else w.statics.gl := by
      rw [← destroy_gl, destroy_statics ht]
    refine ⟨hnamed, fun u => ?_, fun j t' hj => ?_, fun j hj => by rw [hlen]; exact h.last_lt j hj⟩
    · rw [hgl]
      split
      · exact binding_glDeleteTextures t.tex.ID (h.bindings u)
      · exact h.bindings u
    · rw [tex_destroy ht] at hj
      have hji : j ≠ i := fun e => by
        rw [e, Function.update_self] at hj
        cases hj
      rw [Function.update_of_ne hji] at hj
      have hiff := h.bound_iff j t' hj
      rw [hgl]
      split
      · by_cases hb : w.statics.gl.bound = t.tex.ID
        · -- the deleted name was bound: the binding is 0 now, and `i` was last
          have hlast : last = some i := (h.bound_iff i t ht).mp hb
          have hb0 : (w.statics.gl.glDeleteTextures t.tex.ID).bound = 0 := if_pos hb
          rw [hb0, hlast]
          exact iff_of_false (fun e => h.named.ne_zero j t' hj e.symm)
            fun e => hji (Option.some.inj e).symm
        · have hb' : (w.statics.gl.glDeleteTextures t.tex.ID).bound = w.statics.gl.bound :=
            if_neg hb
          rw [hb']
          exact hiff
      · exact hiff

section Call

variable {i : Nat} {t : Texture2D F} {m : Method F}

theorem length_objs_call (ht : w.tex i = some t) :
    ((world F maxUnits).next w (.call i m)).objs.length = w.objs.length := by
  rw [next_call w m ht]
  simp [World.set]

/-- A call that binds: its object is the last to have. -/
theorem activeBinding_binds (h : ActiveBinding w last) (ht : w.tex i = some t)
    (hb : Binds t.tex.ID w.statics.gl (m.run t w.statics).2.2.gl) :
    ActiveBinding ((world F maxUnits).next w (.call i m)) (some i) := by
  have hgl : ((world F maxUnits).next w (.call i m)).statics = (m.run t w.statics).2.2 := by
    rw [next_call w m ht]
  refine ⟨named_call h.named i m, fun u => ?_, fun j t' hj => ?_, fun j hj => ?_⟩
  · rw [hgl, run_names]
    rcases hb.binding u with e | e
    · rw [e]
      exact h.bindings u
    · rw [e]
      exact .inr (h.named.mem_names i t ht)
  · obtain ⟨u, hu, hid'⟩ := live_of_call i m hj
    rw [hgl, hb.bound, ← hid', Option.some.injEq]
    exact ⟨fun e => h.named.inj i j t u ht hu e, fun e => by
      subst e
      rw [ht] at hu
      cases hu
      rfl⟩
  · cases hj
    rw [length_objs_call ht]
    exact lt_of_tex ht

/-- A call that does not. -/
theorem activeBinding_idle (h : ActiveBinding w last) (ht : w.tex i = some t)
    (hb : SameBindings w.statics.gl (m.run t w.statics).2.2.gl) :
    ActiveBinding ((world F maxUnits).next w (.call i m)) last := by
  have hgl : ((world F maxUnits).next w (.call i m)).statics = (m.run t w.statics).2.2 := by
    rw [next_call w m ht]
  refine ⟨named_call h.named i m, fun u => ?_, fun j t' hj => ?_, fun j hj => ?_⟩
  · rw [hgl, run_names, hb.binding]
    exact h.bindings u
  · obtain ⟨u, hu, hid'⟩ := live_of_call i m hj
    rw [hgl, hb.bound, ← hid']
    exact h.bound_iff j u hu
  · rw [length_objs_call ht]
    exact h.last_lt j hj

end Call

theorem activeBinding_call (h : ActiveBinding w last) (i : Nat) (m : Method F) :
    ActiveBinding ((world F maxUnits).next w (.call i m)) ((binder w (.call i m)).or last) := by
  cases ht : w.tex i with
  | none =>
    rw [next_call_dead w m ht, binder_dead m ht]
    exact h
  | some t =>
    rw [binder_call m ht]
    split
    · next hiss =>
      rw [Option.some_or]
      exact activeBinding_binds h ht (run_binds m t w.statics hiss)
    · next hiss =>
      rw [Option.none_or]
      exact activeBinding_idle h ht (run_same m t w.statics hiss)

/-- **One operation.** -/
theorem activeBinding_next (h : ActiveBinding w last) (op : Op F) (hm : op.isMove = false)
    (hd : op.isDraw = false) :
    ActiveBinding ((world F maxUnits).next w op) ((binder w op).or last) := by
  cases op with
  | construct args n => exact activeBinding_construct h args n
  | moveConstruct src => cases hm
  | moveAssign dst src => cases hm
  | destroy i => exact activeBinding_destroy h i
  | call i m => exact activeBinding_call h i m
  | draw get mesh => cases hd

theorem activeBinding_init : ActiveBinding (world F maxUnits).init none :=
  ⟨named_init, fun _ => .inl rfl, fun i t h => absurd (named_init.ne_zero i t h) (by cases h),
    fun _ h => by cases h⟩

end Steps

/-! ## `bind()` along a run -/

/-- A call that reaches `bind()` has its own texture bound afterwards, and writes to no other. -/
def BindsOwn [BEq F] (w : World F) : Op F → Prop
  | .call i m => ∀ t ∈ w.tex i, m.callsBind t →
    (t.bind w.statics).gl.bound = t.tex.ID ∧
      ∀ n, n ≠ t.tex.ID → (m.run t w.statics).2.2.gl.image n = w.statics.gl.image n ∧
        (m.run t w.statics).2.2.gl.params n = w.statics.gl.params n
  | _ => True

/-- A cache hit finds its texture last bound. -/
def CacheAgrees (w : World F) (last : Option Nat) : Op F → Prop
  | .call i m => ∀ t ∈ w.tex i, m.callsBind t → w.statics.bind_id = t.tex.ID → last = some i
  | _ => True

instance (w : World F) (last : Option Nat) : (op : Op F) → Decidable (CacheAgrees w last op)
  | .call i m => inferInstanceAs (Decidable (∀ t ∈ w.tex i, m.callsBind t → _ → _))
  | .construct _ _ | .moveConstruct _ | .moveAssign _ _ | .destroy _ | .draw _ _ => .isTrue trivial

variable [BEq F]

/-- With its own texture bound, a call writes to no other. -/
theorem run_contents (m : Method F) (t : Texture2D F) (s : Statics F) (hm : m.callsBind t)
    (hb : (t.bind s).gl.bound = t.tex.ID) (n : GLuint) (hn : n ≠ t.tex.ID) :
    (m.run t s).2.2.gl.image n = s.gl.image n ∧ (m.run t s).2.2.gl.params n = s.gl.params n := by
  obtain ⟨-, -, himg, hpar⟩ := bind_frame t s
  cases m with
  | bind => exact ⟨by rw [Method.run_bind, himg], by rw [Method.run_bind, hpar]⟩
  | load args img =>
    obtain ⟨htype, hsome⟩ := hm
    obtain ⟨img, rfl⟩ := Option.isSome_iff_exists.mp hsome
    rw [Method.run_load, load_statics]
    dsimp only
    rw [if_pos htype]
    unfold GLState.glTexSubImage2D
    exact ⟨by simp [hb, hn, himg], by rw [hpar]⟩
  | update =>
    have hn' : t.needsUpdate := hm
    rw [Method.run_update, update_statics, if_pos hn']
    exact ⟨by rw [himg], by simp [hb, hn, hpar]⟩
  | _ => cases hm

/-- **Exactly when `bind()` selects its texture.** -/
theorem bindsOwn_iff (maxUnits : Fin (2 ^ 31)) (ops : List (Op F))
    (hm : ∀ op ∈ ops, op.isMove = false) (hd : ∀ op ∈ ops, op.isDraw = false) :
    (world F maxUnits).EveryStep ops BindsOwn ↔
      (traced F maxUnits).EveryStep ops fun s => CacheAgrees s.1 s.2 := by
  have hinv : (traced F maxUnits).EveryState ops fun s => ActiveBinding s.1 s.2 :=
    Machine.everyState_of_guard activeBinding_init
      (fun _ op h hop => activeBinding_next h op hop.1 hop.2)
      ((Machine.everyStep_of_inputs hm).and (Machine.everyStep_of_inputs hd))
  rw [← Machine.everyStep_withHistory none fun last w op => (binder w op).or last]
  refine Machine.everyStep_congr hinv.everyStep fun s op h => ?_
  cases op with
  | call i m =>
    refine forall₂_congr fun t ht => forall_congr' fun hcall => ?_
    have hbound := h.bound_iff i t (Option.mem_def.mp ht)
    constructor
    · intro hb hid
      exact hbound.mp ((bind_bound_iff t s.1.statics).mp hb.1 hid)
    · intro hc
      have hb := (bind_bound_iff t s.1.statics).mpr fun hid => hbound.mpr (hc hid)
      exact ⟨hb, fun n hn => run_contents m t s.1.statics hcall hb n hn⟩
  | _ => exact Iff.rfl

/-- Two textures each loaded before the other is activated: every `bind()` selects its own. -/
theorem bindsOwn_two_textures :
    (world Nat 16).EveryStep
      [.construct none 1, .construct none 2, .call 0 .bind, .call 1 .bind,
        .call 1 (.acquire SIZE_T_MAX), .call 1 .activate, .call 1 .bind, .call 0 .bind] BindsOwn :=
  (bindsOwn_iff 16 _ (by decide) (by decide)).mpr (by decide)

/-- `activate()` of another texture on the active unit leaves the cache hit wrong. -/
theorem bind_not_own :
    ¬ (world Nat 16).EveryStep
      [.construct none 1, .construct none 2, .call 0 .bind, .call 1 (.acquire SIZE_T_MAX),
        .call 1 .activate, .call 0 .bind] BindsOwn := by
  intro h
  have hb := (h (_, .call 0 .bind) (List.getLast_mem (by decide)) _ rfl trivial).1
  revert hb
  decide

end LearnNotes.Graphics
