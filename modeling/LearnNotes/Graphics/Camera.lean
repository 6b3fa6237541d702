import Mathlib.Algebra.Order.Ring.Rat
import Mathlib.Order.Lattice
import LearnNotes.Lib.Machine

/-!
# The limits of the camera

`Camera` keeps its pitch between -89 and 89 degrees and its zoom between 1 and 45. `mouseMove` and
`mouseScroll` clamp the field twice. `setPitch` and `setZoom` clamp their argument twice, and the
second assignment undoes the first: `next_inLimits_iff`. A run stays within the limits iff no call
of these two needs the bound that was lost (`inLimits_iff`).

`GLfloat` is any linear order with the decimal literals in their order; what the operations
compute is left open. A NaN is not in the order.
-/

namespace LearnNotes.Graphics.Gl

open Lib

structure vec3 (F : Type) where
  x : F
  y : F
  z : F

/-- The operations of `GLfloat` and of `glm` the camera uses. -/
structure GLfloat (F : Type) [LinearOrder F] where
  /-- A literal such as `89.0F`, rounded. -/
  lit : ℚ → F
  lit_mono : Monotone lit
  add : F → F → F
  sub : F → F → F
  mul : F → F → F
  radians : F → F
  cosf : F → F
  sinf : F → F
  normalize : vec3 F → vec3 F
  cross : vec3 F → vec3 F → vec3 F

section

variable {F : Type} [LinearOrder F] (A : GLfloat F)

namespace vec3

def add (v w : vec3 F) : vec3 F := ⟨A.add v.x w.x, A.add v.y w.y, A.add v.z w.z⟩

def sub (v w : vec3 F) : vec3 F := ⟨A.sub v.x w.x, A.sub v.y w.y, A.sub v.z w.z⟩

def scale (v : vec3 F) (s : F) : vec3 F := ⟨A.mul v.x s, A.mul v.y s, A.mul v.z s⟩

def ofLit (x y z : ℚ) : vec3 F := ⟨A.lit x, A.lit y, A.lit z⟩

end vec3

/-! ## `Camera` -/

def YAW : ℚ := -90
def PITCH : ℚ := 0
def SPEED : ℚ := 5 / 2
def SEN : ℚ := 1 / 10
def ZOOM : ℚ := 45

structure Camera (F : Type) where
  position : vec3 F
  front : vec3 F
  up : vec3 F
  right : vec3 F
  worldUp : vec3 F
  yaw : F
  pitch : F
  moveSpeed : F
  mouseSen : F
  zoom : F

inductive Movement where
  | FRONT
  | BACK
  | LEFT
  | RIGHT
  deriving DecidableEq

namespace Camera

def updateCameraVectors (c : Camera F) : Camera F :=
  let front : vec3 F :=
    { x := A.mul (A.cosf (A.radians c.yaw)) (A.cosf (A.radians c.pitch))
      y := A.sinf (A.radians c.pitch)
      z := A.mul (A.sinf (A.radians c.yaw)) (A.cosf (A.radians c.pitch)) }
  let c := { c with front := A.normalize front }
  let c := { c with right := A.normalize (A.cross c.front c.worldUp) }
  { c with up := A.normalize (A.cross c.right c.front) }

def new (position worldup : vec3 F) (yaw pitch : F) : Camera F :=
  updateCameraVectors A
    { position := position
      front := vec3.ofLit A 0 0 (-1)
      up := vec3.ofLit A 0 0 0
      right := vec3.ofLit A 0 0 0
      worldUp := worldup
      yaw := yaw
      pitch := pitch
      moveSpeed := A.lit SPEED
      mouseSen := A.lit SEN
      zoom := A.lit ZOOM }

/-- The constructor with its default arguments. -/
def default : Camera F :=
  new A (vec3.ofLit A 0 0 0) (vec3.ofLit A 0 1 0) (A.lit YAW) (A.lit PITCH)

def setPosition (position : vec3 F) (c : Camera F) : Camera F := { c with position := position }

def setYaw (yaw : F) (c : Camera F) : Camera F := { c with yaw := yaw }

/-- Both assignments read the argument. -/
def setPitch (pitch : F) (c : Camera F) : Camera F :=
  let c := { c with pitch := min pitch (A.lit 89) }
  { c with pitch := max pitch (A.lit (-89)) }

def setMoveSpeed (moveSpeed : F) (c : Camera F) : Camera F := { c with moveSpeed := moveSpeed }

def setMouseSen (mouseSen : F) (c : Camera F) : Camera F := { c with mouseSen := mouseSen }

/-- Both assignments read the argument. -/
def setZoom (zoom : F) (c : Camera F) : Camera F :=
  let c := { c with zoom := max zoom (A.lit 1) }
  { c with zoom := min zoom (A.lit 45) }

def keyboard (direction : Movement) (deltaTime : F) (c : Camera F) : Camera F :=
  let velocity := A.mul c.moveSpeed deltaTime
  match direction with
  | .FRONT => { c with position := c.position.add A (c.front.scale A velocity) }
  | .BACK => { c with position := c.position.sub A (c.front.scale A velocity) }
  | .LEFT => { c with position := c.position.sub A (c.right.scale A velocity) }
  | .RIGHT => { c with position := c.position.add A (c.right.scale A velocity) }

def mouseMove (xoffset yoffset : F) (constrainPitch : Bool) (c : Camera F) : Camera F :=
  let xoffset := A.mul xoffset c.mouseSen
  let yoffset := A.mul yoffset c.mouseSen
  let c := { c with yaw := A.add c.yaw xoffset }
  let c := { c with pitch := A.add c.pitch yoffset }
  let c :=
    if constrainPitch then
      let c := { c with pitch := min c.pitch (A.lit 89) }
      { c with pitch := max c.pitch (A.lit (-89)) }
    else c
  c.updateCameraVectors A

def mouseScroll (yoffset : F) (c : Camera F) : Camera F :=
  let c := { c with zoom := A.sub c.zoom yoffset }
  let c := { c with zoom := max c.zoom (A.lit 1) }
  { c with zoom := min c.zoom (A.lit 45) }

def update (c : Camera F) : Camera F := c.updateCameraVectors A

end Camera

/-! ## Runs -/

/-- The public calls that change a camera; `mouseMove` with its default `constrainPitch`. -/
inductive Call (F : Type) where
  | setPosition (position : vec3 F)
  | setYaw (yaw : F)
  | setPitch (pitch : F)
  | setMoveSpeed (moveSpeed : F)
  | setMouseSen (mouseSen : F)
  | setZoom (zoom : F)
  | keyboard (direction : Movement) (deltaTime : F)
  | mouseMove (xoffset yoffset : F)
  | mouseScroll (yoffset : F)
  | update

def Camera.call (c : Camera F) : Call F → Camera F
  | .setPosition position => c.setPosition position
  | .setYaw yaw => c.setYaw yaw
  | .setPitch pitch => c.setPitch A pitch
  | .setMoveSpeed moveSpeed => c.setMoveSpeed moveSpeed
  | .setMouseSen mouseSen => c.setMouseSen mouseSen
  | .setZoom zoom => c.setZoom A zoom
  | .keyboard direction deltaTime => c.keyboard A direction deltaTime
  | .mouseMove xoffset yoffset => c.mouseMove A xoffset yoffset true
  | .mouseScroll yoffset => c.mouseScroll A yoffset
  | .update => c.update A

def camera : Machine (Camera F) (Call F) Unit where
  init := Camera.default A
  step c call := ((), c.call A call)

theorem next_camera (c : Camera F) (call : Call F) : (camera A).next c call = c.call A call := rfl

/-! ## The limits -/

def InLimits (c : Camera F) : Prop :=
  (A.lit (-89) ≤ c.pitch ∧ c.pitch ≤ A.lit 89) ∧ A.lit 1 ≤ c.zoom ∧ c.zoom ≤ A.lit 45

/-- The bound that the setter does not enforce is met by its argument. -/
def Call.InRange : Call F → Prop
  | .setPitch pitch => pitch ≤ A.lit 89
  | .setZoom zoom => A.lit 1 ≤ zoom
  | _ => True

variable {A} {c : Camera F}

theorem inLimits_updateCameraVectors :
    InLimits A (c.updateCameraVectors A) ↔ InLimits A c := Iff.rfl

theorem inLimits_default : InLimits A (Camera.default A) := by
  have hpitch : A.lit (-89) ≤ A.lit PITCH ∧ A.lit PITCH ≤ A.lit 89 :=
    ⟨A.lit_mono (by decide), A.lit_mono (by decide)⟩
  have hzoom : A.lit 1 ≤ A.lit ZOOM ∧ A.lit ZOOM ≤ A.lit 45 :=
    ⟨A.lit_mono (by decide), A.lit_mono (by decide)⟩
  exact ⟨hpitch, hzoom⟩

/-- Both bounds of a field clamped twice hold, in either order of the two. -/
theorem clamped {lo hi : F} (h : lo ≤ hi) (x : F) :
    (lo ≤ max (min x hi) lo ∧ max (min x hi) lo ≤ hi) ∧
      lo ≤ min (max x lo) hi ∧ min (max x lo) hi ≤ hi :=
  ⟨⟨le_max_right _ _, max_le (min_le_right _ _) h⟩,
    le_min (le_max_right _ _) h, min_le_right _ _⟩

theorem setPitch_inLimits_iff (h : InLimits A c) (pitch : F) :
    InLimits A (c.setPitch A pitch) ↔ pitch ≤ A.lit 89 := by
  have hle : A.lit (-89) ≤ A.lit 89 := A.lit_mono (by decide)
  constructor
  · intro hlim
    exact (le_max_left _ _).trans hlim.1.2
  · intro hp
    exact ⟨⟨le_max_right _ _, max_le hp hle⟩, h.2⟩

theorem setZoom_inLimits_iff (h : InLimits A c) (zoom : F) :
    InLimits A (c.setZoom A zoom) ↔ A.lit 1 ≤ zoom := by
  have hle : A.lit 1 ≤ A.lit 45 := A.lit_mono (by decide)
  constructor
  · intro hlim
    exact hlim.2.1.trans (min_le_left _ _)
  · intro hz
    exact ⟨h.1, le_min hz hle, min_le_right _ _⟩

theorem mouseMove_inLimits (h : InLimits A c) (xoffset yoffset : F) :
    InLimits A (c.mouseMove A xoffset yoffset true) :=
  inLimits_updateCameraVectors.mpr ⟨(clamped (A.lit_mono (by decide)) _).1, h.2⟩

theorem mouseScroll_inLimits (h : InLimits A c) (yoffset : F) :
    InLimits A (c.mouseScroll A yoffset) :=
  ⟨h.1, (clamped (A.lit_mono (by decide)) _).2⟩

theorem keyboard_inLimits (h : InLimits A c) (direction : Movement) (deltaTime : F) :
    InLimits A (c.keyboard A direction deltaTime) := by
  cases direction <;> exact h

/-- **One call keeps the limits iff it is in range.** -/
theorem next_inLimits_iff (h : InLimits A c) (call : Call F) :
    InLimits A ((camera A).next c call) ↔ call.InRange A := by
  rw [next_camera]
  cases call with
  | setPitch pitch => exact setPitch_inLimits_iff h pitch
  | setZoom zoom => exact setZoom_inLimits_iff h zoom
  | mouseMove xoffset yoffset => exact iff_of_true (mouseMove_inLimits h xoffset yoffset) trivial
  | mouseScroll yoffset => exact iff_of_true (mouseScroll_inLimits h yoffset) trivial
  | keyboard direction deltaTime =>
    exact iff_of_true (keyboard_inLimits h direction deltaTime) trivial
  | update => exact iff_of_true (inLimits_updateCameraVectors.mpr h) trivial
  | setPosition | setYaw | setMoveSpeed | setMouseSen => exact iff_of_true h trivial

variable (A) in
/-- **The camera stays within its limits iff every `setPitch` is given at most 89 and every
`setZoom` at least 1.** -/
theorem inLimits_iff (calls : List (Call F)) :
    (camera A).EveryState calls (InLimits A) ↔ ∀ call ∈ calls, call.InRange A := by
  rw [← (camera A).everyStep_inputs]
  apply Machine.everyState_iff_guard inLimits_default
  intro c call h
  exact next_inLimits_iff h call

end

/-- Rationals for floats. -/
def rational : GLfloat ℚ where
  lit := id
  lit_mono := monotone_id
  add := (· + ·)
  sub := (· - ·)
  mul := (· * ·)
  radians := id
  cosf := id
  sinf := id
  normalize := id
  cross v _ := v

/-- `setPitch(100)` leaves a pitch of 100. -/
theorem setPitch_hundred :
    ¬ (camera rational).EveryState [.setPitch 100] (InLimits rational) := by
  intro h
  have hpitch : ((camera rational).after [.setPitch 100]).pitch = 100 := by decide
  have hlim := h.last.1.2
  rw [hpitch] at hlim
  exact absurd hlim (by decide)

end LearnNotes.Graphics.Gl
