import LearnNotes.Lib.Machine
import LearnNotes.Graphics.Mesh

/-!
# Runs over many textures

`world maxUnits` serves any sequence of constructions, moves, destructions, method calls
and draws over any number of `Texture2D` objects, which share one `TextureUnit`, one bind
cache and one GL. An object is its place in the list of all objects constructed so far; a
destroyed one leaves `none` there, and an operation on it is no call at all.
-/

namespace LearnNotes.Graphics

open Lib Memory

structure World (F : Type) where
  objs : List (Option (Texture2D F))
  statics : Statics F

/-- The methods a live texture is called with. -/
inductive Method (F : Type) where
  | acquire (pos : Nat)
  | bind
  | activate
  | load (args : PathArgs) (img : Option Image)
  | set_texName (name : String)
  | set_config1 (pname : GLenum) (value : TexParam F)
  | set_config (cfgs : List (TexConfig F)) (policy : UpdateMode)
  | update

inductive Op (F : Type) where
  | construct (args : Option PathArgs) (n : GLuint)
  | moveConstruct (src : Nat)
  | moveAssign (dst src : Nat)
  | destroy (i : Nat)
  | call (i : Nat) (m : Method F)
  | draw (get : Handle → Option Ptr) (mesh : Mesh2D)

/-- What an operation gives back: the error code left and the elements drawn. -/
structure Reply where
  ec : Option errc := none
  drawn : Option DrawCall := none

variable {F : Type} [BEq F]

def Method.run (m : Method F) (t : Texture2D F) (s : Statics F) :
    Option errc × Texture2D F × Statics F :=
  match m with
  | .acquire pos => t.acquire pos s
  | .bind => (none, t, t.bind s)
  | .activate => let (ec, s) := t.activate s; (ec, t, s)
  | .load args img => t.load args img s
  | .set_texName name => (none, { t with tex := { t.tex with name := name } }, s)
  | .set_config1 pname value => (none, t.set_config1 pname value, s)
  | .set_config cfgs policy => (none, t.set_config cfgs policy, s)
  | .update => let (t, s) := t.update s; (none, t, s)

namespace Method

variable (t : Texture2D F) (s : Statics F)

@[simp] theorem run_acquire (pos : Nat) : (acquire pos).run t s = t.acquire pos s := rfl

@[simp] theorem run_bind : bind.run t s = (none, t, t.bind s) := rfl

@[simp] theorem run_activate : activate.run t s = ((t.activate s).1, t, (t.activate s).2) := rfl

@[simp] theorem run_load (args : PathArgs) (img : Option Image) :
    (load args img).run t s = t.load args img s := rfl

@[simp] theorem run_set_config (cfgs : List (TexConfig F)) (policy : UpdateMode) :
    (set_config cfgs policy).run t s = (none, t.set_config cfgs policy, s) := rfl

@[simp] theorem run_update : update.run t s = (none, (t.update s).1, (t.update s).2) := rfl

end Method

namespace World

/-- The live object `i`. -/
def tex (w : World F) (i : Nat) : Option (Texture2D F) := w.objs[i]?.join

def set (i : Nat) (t : Option (Texture2D F)) (w : World F) : World F :=
  { w with objs := w.objs.set i t }

def modify (i : Nat) (f : Texture2D F → Texture2D F) (w : World F) : World F :=
  { w with objs := w.objs.modify i (Option.map f) }

/-- Construction; `glGenTextures` returns a fresh name and never 0. -/
def construct (args : Option PathArgs) (n : GLuint) (w : World F) : World F :=
  if n = 0 ∨ n ∈ w.statics.gl.names then w
  else
    let (t, s) := Texture2D.new args n w.statics
    ⟨w.objs ++ [some t], s⟩

def moveConstruct (src : Nat) (w : World F) : World F :=
  match w.tex src with
  | none => w
  | some o =>
    let w := w.set src (some Texture2D.movedFrom)
    { w with objs := w.objs ++ [some o] }

/-- `operator=(Texture2D&&)`, in the order of its assignments: `dst` may be `src`. -/
def moveAssign (dst src : Nat) (w : World F) : World F :=
  match w.tex src, w.tex dst with
  | some o, some _ =>
    let w := w.modify src fun other => { other with tex := {}, cfgs := [] }
    let w := w.modify dst fun _ => o
    w.modify src fun other => { other with dirty := false, unitPos := SIZE_T_MAX }
  | _, _ => w

def destroy (i : Nat) (w : World F) : World F :=
  match w.tex i with
  | none => w
  | some t => { w.set i none with statics := t.destroy w.statics }

def call (i : Nat) (m : Method F) (w : World F) : Reply × World F :=
  match w.tex i with
  | none => ({}, w)
  | some t =>
    let (ec, t, s) := m.run t w.statics
    ({ ec := ec }, { w.set i (some t) with statics := s })

/-- The live object a handle stands for; `get` is `TextureMgr().get`. -/
def resolve (get : Handle → Option Ptr) (w : World F) (h : Handle) : Option (Texture2D F) :=
  (get h).bind w.tex

def draw (get : Handle → Option Ptr) (mesh : Mesh2D) (w : World F) : Reply × World F :=
  let (ec, drawn, s) := mesh.Draw (w.resolve get) w.statics
  (⟨ec, drawn⟩, { w with statics := s })

/-! ## What an operation does to the objects -/

variable {w : World F} {i j dst src : Nat} {t o : Texture2D F}

omit [BEq F]

theorem lt_of_tex (h : w.tex i = some t) : i < w.objs.length := by
  by_contra hi
  simp [tex, List.getElem?_eq_none (not_lt.mp hi)] at h

@[simp] theorem tex_length : w.tex w.objs.length = none := by simp [tex]

theorem tex_set (h : w.tex i = some t) (t' : Option (Texture2D F)) :
    (w.set i t').tex = Function.update w.tex i t' := by
  have hi := lt_of_tex h
  funext j
  unfold tex set
  by_cases hji : j = i
  · subst hji
    simp [hi]
  · simp [hji, List.getElem?_set_ne (Ne.symm hji)]

theorem tex_modify (f : Texture2D F → Texture2D F) (h : w.tex i = some t) :
    (w.modify i f).tex = Function.update w.tex i (some (f t)) := by
  funext j
  unfold tex at h ⊢
  unfold modify
  simp only [List.getElem?_modify]
  by_cases hji : j = i
  · subst hji
    cases ho : w.objs[j]? with
    | none => simp [ho] at h
    | some o =>
      simp only [ho, Option.join_some] at h
      simp [h]
  · simp [hji, Ne.symm hji]

theorem tex_append (o : Option (Texture2D F)) (s : Statics F) :
    tex ⟨w.objs ++ [o], s⟩ = Function.update w.tex w.objs.length o := by
  funext j
  unfold tex
  rcases lt_trichotomy j w.objs.length with hj | rfl | hj
  · simp [List.getElem?_append_left hj, Function.update_of_ne (Nat.ne_of_lt hj)]
  · simp
  · rw [Function.update_of_ne (Nat.ne_of_gt hj), List.getElem?_eq_none (by simp; omega),
      List.getElem?_eq_none (by omega)]

theorem construct_of_fresh (args : Option PathArgs) {n : GLuint}
    (hn : ¬ (n = 0 ∨ n ∈ w.statics.gl.names)) :
    w.construct args n = ⟨w.objs ++ [some (Texture2D.new args n w.statics).1],
      { w.statics with gl := w.statics.gl.glGenTextures n }⟩ := by
  unfold construct
  rw [if_neg hn]
  rfl

theorem construct_of_used (args : Option PathArgs) {n : GLuint}
    (hn : n = 0 ∨ n ∈ w.statics.gl.names) : w.construct args n = w := by
  unfold construct
  rw [if_pos hn]

theorem tex_construct (args : Option PathArgs) {n : GLuint}
    (hn : ¬ (n = 0 ∨ n ∈ w.statics.gl.names)) :
    (w.construct args n).tex =
      Function.update w.tex w.objs.length (some (Texture2D.new args n w.statics).1) := by
  rw [construct_of_fresh args hn]
  exact tex_append _ _

theorem tex_moveConstruct (h : w.tex src = some o) :
    (w.moveConstruct src).tex =
      Function.update (Function.update w.tex src (some Texture2D.movedFrom)) w.objs.length
        (some o) := by
  have hlen : (w.set src (some Texture2D.movedFrom)).objs.length = w.objs.length := by simp [set]
  unfold moveConstruct
  rw [h, ← tex_set h, ← hlen]
  exact tex_append _ _

theorem tex_moveAssign (hs : w.tex src = some o) (hd : w.tex dst = some t) (hne : dst ≠ src) :
    (w.moveAssign dst src).tex =
      Function.update (Function.update w.tex dst (some o)) src (some Texture2D.movedFrom) := by
  unfold moveAssign
  simp only [hs, hd]
  have h1 := tex_modify (fun other => { other with tex := {}, cfgs := [] }) hs
  have hd1 : (w.modify src fun other => { other with tex := {}, cfgs := [] }).tex dst = some t := by
    rw [h1, Function.update_of_ne hne, hd]
  have h2 := tex_modify (fun _ => o) hd1
  have hs2 : ((w.modify src fun other => { other with tex := {}, cfgs := [] }).modify dst
      fun _ => o).tex src = some { o with tex := {}, cfgs := [] } := by
    rw [h2, Function.update_of_ne (Ne.symm hne), h1, Function.update_self]
  rw [tex_modify _ hs2, h2, h1, Function.update_comm hne, Function.update_idem,
    Function.update_comm (Ne.symm hne)]
  rfl

/-- Self-move keeps the texture and drops its unit. -/
theorem tex_moveAssign_self (hs : w.tex src = some o) :
    (w.moveAssign src src).tex =
      Function.update w.tex src (some { o with dirty := false, unitPos := SIZE_T_MAX }) := by
  unfold moveAssign
  simp only [hs]
  have h1 := tex_modify (fun other => { other with tex := {}, cfgs := [] }) hs
  have h2 := tex_modify (fun _ => o) (h1 ▸ Function.update_self (f := w.tex) ..)
  rw [tex_modify _ (h2 ▸ Function.update_self ..), h2, h1]
  simp

theorem moveAssign_statics : (w.moveAssign dst src).statics = w.statics := by
  unfold moveAssign
  split <;> rfl

theorem moveConstruct_statics : (w.moveConstruct src).statics = w.statics := by
  unfold moveConstruct
  split <;> rfl

theorem destroy_statics (h : w.tex i = some t) : (w.destroy i).statics = t.destroy w.statics := by
  unfold destroy
  rw [h]

theorem destroy_dead (h : w.tex i = none) : w.destroy i = w := by
  unfold destroy
  rw [h]

theorem moveAssign_dead (h : w.tex src = none ∨ w.tex dst = none) : w.moveAssign dst src = w := by
  unfold moveAssign
  split
  · next ho ht => simp [ho, ht] at h
  · rfl

theorem tex_destroy (h : w.tex i = some t) :
    (w.destroy i).tex = Function.update w.tex i none := by
  unfold destroy
  rw [h, ← tex_set h]
  rfl

end World

open World

/-- All the textures of a program; `maxUnits` is what `glGetIntegerv` returns. -/
def world (F : Type) [BEq F] (maxUnits : Fin (2 ^ 31)) : Machine (World F) (Op F) Reply where
  init := ⟨[], ⟨.new maxUnits, 0, ⟨[], [], 0, fun _ => 0, fun _ => none, fun _ _ => none⟩⟩⟩
  step w
    | .construct args n => ({}, w.construct args n)
    | .moveConstruct src => ({}, w.moveConstruct src)
    | .moveAssign dst src => ({}, w.moveAssign dst src)
    | .destroy i => ({}, w.destroy i)
    | .call i m => w.call i m
    | .draw get mesh => w.draw get mesh

section Steps

variable {maxUnits : Fin (2 ^ 31)} (w : World F) {i : Nat} {t : Texture2D F}

@[simp] theorem next_construct (args : Option PathArgs) (n : GLuint) :
    (world F maxUnits).next w (.construct args n) = w.construct args n := rfl

@[simp] theorem next_moveConstruct (src : Nat) :
    (world F maxUnits).next w (.moveConstruct src) = w.moveConstruct src := rfl

@[simp] theorem next_moveAssign (dst src : Nat) :
    (world F maxUnits).next w (.moveAssign dst src) = w.moveAssign dst src := rfl

@[simp] theorem next_destroy (i : Nat) : (world F maxUnits).next w (.destroy i) = w.destroy i := rfl

theorem next_call_dead (m : Method F) (h : w.tex i = none) :
    (world F maxUnits).next w (.call i m) = w := by
  show (w.call i m).2 = w
  unfold call
  rw [h]

theorem next_call (m : Method F) (h : w.tex i = some t) :
    (world F maxUnits).next w (.call i m) =
      { w.set i (some (m.run t w.statics).2.1) with statics := (m.run t w.statics).2.2 } := by
  show (w.call i m).2 = _
  unfold call
  rw [h]

theorem tex_next_call (m : Method F) (h : w.tex i = some t) :
    ((world F maxUnits).next w (.call i m)).tex =
      Function.update w.tex i (some (m.run t w.statics).2.1) := by
  rw [next_call w m h, ← tex_set h]
  rfl

end Steps

end LearnNotes.Graphics
