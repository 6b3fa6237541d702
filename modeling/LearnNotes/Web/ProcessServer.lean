import Mathlib.Data.Finset.Card
import LearnNotes.Lib.Termination

/-!
# The reaping loop of `process_server`

`callback` in `web/process_server.cpp` asks `waitpid(-1, NULL, WNOHANG)` for exited children and
leaves its loop at -1, which the kernel answers where there is no child at all. While a child is
still running the answer is 0, and the loop goes on asking: `reaps_iff`, whichever child is answered
first. The message behind the loop takes -1 for either case.
-/

namespace LearnNotes.Web.ProcessServer

open Lib Relation

/-- The children by process id. -/
structure Children where
  exited : Finset Nat
  running : Finset Nat

/-- `waitpid(-1, NULL, WNOHANG)`: what it returns, and the children left. -/
inductive Waitpid (c : Children) : Int → Children → Prop where
  | reaped (pid : Nat) : pid ∈ c.exited →
      Waitpid c pid { c with exited := c.exited.erase pid }
  | stillRunning : c.exited = ∅ → c.running ≠ ∅ → Waitpid c 0 c
  | noChild : c.exited = ∅ → c.running = ∅ → Waitpid c (-1) c

inductive Message where
  | warning
  | info (pid : Int)

/-- What is printed. -/
def Message.text : Message → String
  | warning => "[Warning] The child process is still running, " ++
      "or the child process has been fully cleaned up."
  | info pid => "[Info] child process die, pid = " ++ toString pid ++ "\n"

/-- `callback` in its loop, or behind it. -/
structure Callback where
  children : Children
  printed : List Message := []
  looping : Bool := true

/-- The body of the loop, where `waitpid` has returned `pid` and left `children`. -/
def Callback.body (s : Callback) (pid : Int) (children : Children) : Callback :=
  if pid = -1 then
    { s with children := children, printed := s.printed ++ [.warning], looping := false }
  else { s with children := children, printed := s.printed ++ [.info pid] }

inductive Step (s : Callback) : Callback → Prop where
  | turn {pid : Int} {children : Children} : s.looping = true →
      Waitpid s.children pid children → Step s (s.body pid children)

/-- The loop ends, whatever `waitpid` chooses, and has then reaped each exited child once. -/
def Reaps (c : Children) : Prop :=
  Terminates Step { children := c } ∧
    ∀ s, ReflTransGen Step { children := c } s → Final Step s →
      s.looping = false ∧ s.children.exited = ∅ ∧
        ∃ pids : List Nat, pids.Nodup ∧ (∀ pid, pid ∈ pids ↔ pid ∈ c.exited) ∧
          s.printed = pids.map (fun pid : Nat => Message.info pid) ++ [.warning]

/-! ## One turn -/

variable {s t : Callback} {c : Children}

/-- What a turn does, by what is left of the children. -/
theorem step_cases (h : Step s t) :
    s.looping = true ∧
      ((∃ pid ∈ s.children.exited,
          t = { s with
            children := { s.children with exited := s.children.exited.erase pid }
            printed := s.printed ++ [.info pid] }) ∨
        (s.children.exited = ∅ ∧ s.children.running ≠ ∅ ∧
          t = { s with printed := s.printed ++ [.info 0] }) ∨
        (s.children.exited = ∅ ∧ s.children.running = ∅ ∧
          t = { s with printed := s.printed ++ [.warning], looping := false })) := by
  obtain ⟨hloop, hwait⟩ := h
  refine ⟨hloop, ?_⟩
  cases hwait with
  | reaped pid hpid => exact .inl ⟨pid, hpid, if_neg (by omega)⟩
  | stillRunning hexited hrunning => exact .inr (.inl ⟨hexited, hrunning, if_neg (by decide)⟩)
  | noChild hexited hrunning => exact .inr (.inr ⟨hexited, hrunning, if_pos rfl⟩)

/-- The loop is never stuck. -/
theorem exists_step (h : s.looping = true) : ∃ t, Step s t := by
  by_cases hexited : s.children.exited = ∅
  · by_cases hrunning : s.children.running = ∅
    · exact ⟨_, .turn h (.noChild hexited hrunning)⟩
    · exact ⟨_, .turn h (.stillRunning hexited hrunning)⟩
  · obtain ⟨pid, hpid⟩ := Finset.nonempty_iff_ne_empty.mpr hexited
    exact ⟨_, .turn h (.reaped pid hpid)⟩

/-! ## With a child still running -/

/-- The loop with a child still running goes on, and still has it. -/
theorem runs_on (h : s.looping = true ∧ s.children.running ≠ ∅) :
    ∃ t, Step s t ∧ t.looping = true ∧ t.children.running ≠ ∅ := by
  obtain ⟨hloop, hrunning⟩ := h
  obtain ⟨t, ht⟩ := exists_step hloop
  refine ⟨t, ht, ?_⟩
  rcases (step_cases ht).2 with ⟨pid, -, rfl⟩ | ⟨-, -, rfl⟩ | ⟨-, hempty, -⟩
  · exact ⟨hloop, hrunning⟩
  · exact ⟨hloop, hrunning⟩
  · exact absurd hempty hrunning

/-! ## With exited children only -/

/-- `pids` are the children reaped so far. -/
structure Reaped (c : Children) (s : Callback) (pids : List Nat) : Prop where
  nodup : pids.Nodup
  split : ∀ pid, pid ∈ c.exited ↔ pid ∈ pids ∨ pid ∈ s.children.exited
  apart : ∀ pid ∈ pids, pid ∉ s.children.exited
  running : s.children.running = ∅
  printed : s.printed = pids.map (fun pid : Nat => Message.info pid) ++
    if s.looping then [] else [.warning]
  left : s.looping = false → s.children.exited = ∅

/-- Turns left. -/
def turnsLeft (s : Callback) : Nat := if s.looping then s.children.exited.card + 1 else 0

theorem Reaped.step {pids : List Nat} (h : Reaped c s pids) (hst : Step s t) :
    (∃ pids, Reaped c t pids) ∧ turnsLeft t < turnsLeft s := by
  obtain ⟨hloop, hcases⟩ := step_cases hst
  have hprinted := h.printed
  rw [hloop, if_pos rfl, List.append_nil] at hprinted
  rcases hcases with ⟨pid, hpid, rfl⟩ | ⟨-, hrunning, -⟩ | ⟨hexited, hrunning, rfl⟩
  · refine ⟨⟨pids ++ [pid], ?_, ?_, ?_, h.running, ?_, ?_⟩, ?_⟩
    · exact List.nodup_append.mpr ⟨h.nodup, List.nodup_singleton pid, fun p hp q hq hpq => by
        rw [List.mem_singleton.mp hq] at hpq
        exact h.apart p hp (hpq ▸ hpid)⟩
    · intro p
      rw [h.split, List.mem_append, List.mem_singleton, Finset.mem_erase]
      by_cases hp : p = pid
      · simp [hp, hpid]
      · simp [hp]
    · intro p hp
      rw [Finset.mem_erase]
      rcases List.mem_append.mp hp with hp | hp
      · exact fun hmem => h.apart p hp hmem.2
      · exact fun hmem => hmem.1 (List.mem_singleton.mp hp)
    · simp [hprinted, hloop]
    · intro hstop
      rw [hloop] at hstop
      cases hstop
    · have hcard := Finset.card_erase_lt_of_mem hpid
      simp only [turnsLeft, hloop, if_true]
      omega
  · exact absurd h.running hrunning
  · refine ⟨⟨pids, h.nodup, h.split, h.apart, h.running, ?_, fun _ => hexited⟩, ?_⟩
    · simp [hprinted]
    · simp [turnsLeft, hloop]

theorem reaped_start (hc : c.running = ∅) : Reaped c { children := c } [] where
  nodup := List.nodup_nil
  split pid := by simp
  apart pid h := absurd h List.not_mem_nil
  running := hc
  printed := rfl
  left h := by cases h

/-- **`callback` ends, with every exited child reaped, iff no child is still running.** -/
theorem reaps_iff (c : Children) : Reaps c ↔ c.running = ∅ := by
  constructor
  · intro h
    by_contra hrunning
    exact not_terminates_of_progress (fun s => runs_on) ⟨rfl, hrunning⟩ h.1
  · intro hc
    have hstep : ∀ s t, (∃ pids, Reaped c s pids) → Step s t →
        (∃ pids, Reaped c t pids) ∧ turnsLeft t < turnsLeft s := fun s t ⟨_, h⟩ => h.step
    refine ⟨terminates_of_measure turnsLeft hstep ⟨[], reaped_start hc⟩, fun s hs hfinal => ?_⟩
    obtain ⟨pids, h⟩ := invariant_of_step (fun s t h hst => (hstep s t h hst).1)
      ⟨[], reaped_start hc⟩ hs
    have hstop : s.looping = false := by
      by_contra hloop
      obtain ⟨t, ht⟩ := exists_step (Bool.eq_true_of_not_eq_false hloop)
      exact hfinal t ht
    have hleft := h.left hstop
    refine ⟨hstop, hleft, pids, h.nodup, fun pid => ?_, ?_⟩
    · rw [h.split, hleft]
      simp
    · rw [h.printed, hstop]
      rfl

/-- One client has gone, one is being served. -/
def oneOfTwo : Children where
  exited := {7}
  running := {8}

/-- The loop prints that process 0 has died, again and again. -/
theorem oneOfTwo_unreaped : ¬ Reaps oneOfTwo := by
  rintro ⟨hends, -⟩
  exact not_terminates_of_progress (fun s => runs_on) ⟨rfl, by decide⟩ hends

end LearnNotes.Web.ProcessServer
