import LearnNotes.Lib.Clocked

/-!
# The flip-flops of `D-FF.v`, `D-FF_SyncR.v` and `D-FF_AyncR.v`

Three registers of four bits on one clock: without a reset, with one that waits for the clock and
with one that does not. `q` is what the last edge of the sensitivity list loaded. `resets_agree`:
the two with a reset agree after every edge of the clock, and go on to agree until the next edge of
`rst`; the asynchronous one loads there what `rst` makes of the pins, and the synchronous one keeps
what it has until the next edge of the clock.
-/

namespace LearnNotes.Verilog

open Lib

namespace Dflipflop

abbrev Word := Vector Logic 4

/-- `clk`, `rst` and `d`. -/
structure Pins where
  clk : Logic
  rst : Logic
  d : Word
  deriving DecidableEq

/-- One of them changes. -/
inductive Change where
  | clk (v : Logic)
  | rst (v : Logic)
  | d (w : Word)

def Pins.drive (p : Pins) : Change → Pins
  | .clk v => { p with clk := v }
  | .rst v => { p with rst := v }
  | .d w => { p with d := w }

def clkEdge (p p' : Pins) : Bool := Logic.posedge p.clk p'.clk

def rstEdge (p p' : Pins) : Bool := Logic.posedge p.rst p'.rst

/-- `if (rst) 4'b0000 else d`. -/
def resetOr (p : Pins) : Word := if p.rst = .one then Vector.replicate 4 .zero else p.d

/-- `Dflipflop`. -/
def plain : Design Pins Change Word where
  drive := Pins.drive
  wakes := clkEdge
  assigns p _ := p.d

/-- `DflipflopSyncReset`. -/
def syncReset : Design Pins Change Word where
  drive := Pins.drive
  wakes := clkEdge
  assigns p _ := resetOr p

/-- `DflipflopAsyncReset`. -/
def asyncReset : Design Pins Change Word where
  drive := Pins.drive
  wakes p p' := clkEdge p p' || rstEdge p p'
  assigns p _ := resetOr p

/-- `q` after a waveform, from the pins and the register at power-up. -/
def q (D : Design Pins Change Word) (pins : Pins) (q₀ : Word) (changes : List Change) : Word :=
  ((D.machine pins q₀).after changes).2

variable {pins : Pins} {q₀ : Word} {changes : List Change}

theorem q_plain : q plain pins q₀ changes = ((plain.lastWake pins changes).map Pins.d).getD q₀ :=
  Design.regs_of_forgetful Pins.d (fun _ _ => rfl) pins q₀ changes

theorem q_syncReset :
    q syncReset pins q₀ changes = ((syncReset.lastWake pins changes).map resetOr).getD q₀ :=
  Design.regs_of_forgetful resetOr (fun _ _ => rfl) pins q₀ changes

theorem q_asyncReset :
    q asyncReset pins q₀ changes = ((asyncReset.lastWake pins changes).map resetOr).getD q₀ :=
  Design.regs_of_forgetful resetOr (fun _ _ => rfl) pins q₀ changes

/-! ## Between two edges of the clock -/

/-- There was an edge of `rst` since the last one of the clock, `b` saying so of the start. -/
def rstSince (b : Bool) (pins : Pins) : List Change → Bool
  | [] => b
  | c :: changes =>
    rstSince (if clkEdge pins (pins.drive c) then false else b || rstEdge pins (pins.drive c))
      (pins.drive c) changes

/-- An edge of `rst` is forgotten at an edge of the clock only. -/
theorem lastWake_of_rstSince (h : rstSince true pins changes = false) :
    ∃ p, syncReset.lastWake pins changes = some p := by
  induction changes generalizing pins with
  | nil => cases h
  | cons c changes ih =>
    rw [rstSince] at h
    rw [Design.lastWake]
    by_cases hclk : clkEdge pins (pins.drive c) = true
    · have hwake : syncReset.wakes pins (syncReset.drive pins c) = true := hclk
      rw [if_pos hwake]
      cases syncReset.lastWake (syncReset.drive pins c) changes with
      | none => exact ⟨pins.drive c, rfl⟩
      | some p => exact ⟨p, rfl⟩
    · rw [if_neg hclk, Bool.true_or] at h
      obtain ⟨p, hp⟩ := ih h
      exact ⟨p, Option.or_eq_some_iff.mpr (.inl hp)⟩

theorem lastWake_agree {b : Bool} (h : rstSince b pins changes = false) :
    asyncReset.lastWake pins changes = syncReset.lastWake pins changes := by
  induction changes generalizing b pins with
  | nil => rfl
  | cons c changes ih =>
    rw [rstSince] at h
    have hrest : asyncReset.lastWake (asyncReset.drive pins c) changes =
        syncReset.lastWake (syncReset.drive pins c) changes := ih h
    rw [Design.lastWake, Design.lastWake, hrest]
    by_cases hclk : clkEdge pins (pins.drive c) = true
    · have hsync : syncReset.wakes pins (syncReset.drive pins c) = true := hclk
      have hasync : asyncReset.wakes pins (asyncReset.drive pins c) = true :=
        Bool.or_eq_true_iff.mpr (.inl hclk)
      rw [if_pos hsync, if_pos hasync]
      rfl
    · rw [if_neg hclk] at h
      by_cases hrst : rstEdge pins (pins.drive c) = true
      · -- the clock has an edge behind this one
        rw [hrst, Bool.or_true] at h
        obtain ⟨p, hp⟩ := lastWake_of_rstSince h
        have hlast : syncReset.lastWake (syncReset.drive pins c) changes = some p := hp
        rw [hlast]
        rfl
      · have hsync : ¬ syncReset.wakes pins (syncReset.drive pins c) = true := hclk
        have hasync : ¬ asyncReset.wakes pins (asyncReset.drive pins c) = true := by
          intro hwake
          exact (Bool.or_eq_true_iff.mp hwake).elim hclk hrst
        rw [if_neg hsync, if_neg hasync]

/-- The pins after a waveform. -/
def pinsAfter (pins : Pins) (changes : List Change) : Pins := changes.foldl Pins.drive pins

/-- One more change. -/
theorem q_concat {D : Design Pins Change Word} (hD : D.drive = Pins.drive) (c : Change) :
    q D pins q₀ (changes ++ [c]) =
      if D.wakes (pinsAfter pins changes) ((pinsAfter pins changes).drive c) then
        D.wake (q D pins q₀ changes) ((pinsAfter pins changes).drive c)
      else q D pins q₀ changes := by
  have hconcat := D.regs_concat pins q₀ changes c
  unfold Design.pinsAfter at hconcat
  rw [hD] at hconcat
  exact hconcat

/-- **The two resets**, after a waveform and at one more change. -/
theorem resets_agree (pins : Pins) (q₀ : Word) (changes : List Change) (c : Change) :
    let p := pinsAfter pins changes
    (rstSince false pins changes = false →
        q asyncReset pins q₀ changes = q syncReset pins q₀ changes) ∧
      q syncReset pins q₀ (changes ++ [c]) =
        (if clkEdge p (p.drive c) then resetOr (p.drive c) else q syncReset pins q₀ changes) ∧
      q asyncReset pins q₀ (changes ++ [c]) =
        (if clkEdge p (p.drive c) || rstEdge p (p.drive c) then resetOr (p.drive c)
        else q asyncReset pins q₀ changes) := by
  refine ⟨fun h => ?_, q_concat rfl c, q_concat rfl c⟩
  rw [q_asyncReset, q_syncReset, lastWake_agree h]

/-- `rst` rises between two edges of the clock. -/
example :
    let p : Pins := ⟨.zero, .zero, Vector.replicate 4 .one⟩
    let rise : List Change := [.clk .one, .clk .zero, .rst .one]
    q asyncReset p (Vector.replicate 4 .x) rise = Vector.replicate 4 .zero ∧
      q syncReset p (Vector.replicate 4 .x) rise = Vector.replicate 4 .one := by
  decide

end Dflipflop

end LearnNotes.Verilog
