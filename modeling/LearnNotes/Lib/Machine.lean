import Mathlib.Data.List.Infix
import Mathlib.Data.List.Induction

/-!
# Machines and their runs

A `Machine` answers every input with an output and moves on. `after is` is the
state the inputs `is` lead to, `steps is` lists every step of that run with the
state it started from, `outs is` the answers. The rules here turn facts about
one step into facts about whole runs:

* `everyState_of_step`: an invariant of the step holds along every run;
* `everyState_of_guard`: the same where each step has to meet a guard;
* `everyState_iff_guard`: where the guard is exactly what a step needs, a run
  keeps the invariant iff each of its steps meets the guard;
* `everyState_iff_guard_of`: the same for a property the invariant implies;
* `after_of_guard`: where one missed guard is never made good;
* `trace_of_step`: an invariant that also reads the answers given so far;
* `withHistory`: a variable that records the run for a specification to read;
* `sim`: a step simulation makes two machines answer alike.
-/

namespace Lib

universe u v w

/-- `step s i` is the answer to `i` in state `s` and the next state. -/
structure Machine (σ : Type u) (ι : Type v) (ο : Type w) where
  init : σ
  step : σ → ι → ο × σ

namespace Machine

variable {σ : Type u} {ι : Type v} {ο : Type w} (M : Machine σ ι ο)

def next (s : σ) (i : ι) : σ := (M.step s i).2

def out (s : σ) (i : ι) : ο := (M.step s i).1

/-- The state the inputs lead to from `s`. -/
def afterFrom (s : σ) (is : List ι) : σ := is.foldl M.next s

def after (is : List ι) : σ := M.afterFrom M.init is

/-- The steps of a run from `s`: the state before, and the input. -/
def stepsFrom (s : σ) : List ι → List (σ × ι)
  | [] => []
  | i :: is => (s, i) :: stepsFrom (M.next s i) is

def steps (is : List ι) : List (σ × ι) := M.stepsFrom M.init is

/-- The answers of a run. -/
def outs (is : List ι) : List ο := (M.steps is).map fun p => M.out p.1 p.2

/-- Every state of the run satisfies `P`, the first and the last included. -/
def EveryState (is : List ι) (P : σ → Prop) : Prop := ∀ pre, pre <+: is → P (M.after pre)

instance (is : List ι) (P : σ → Prop) [DecidablePred P] : Decidable (M.EveryState is P) :=
  decidable_of_iff (∀ pre ∈ is.inits, P (M.after pre)) (by simp [EveryState])

/-- Every step of the run meets `G`. -/
def EveryStep (is : List ι) (G : σ → ι → Prop) : Prop := ∀ p ∈ M.steps is, G p.1 p.2

instance (is : List ι) (G : σ → ι → Prop) [∀ s i, Decidable (G s i)] :
    Decidable (M.EveryStep is G) :=
  inferInstanceAs (Decidable (∀ p ∈ M.steps is, G p.1 p.2))

variable {M} {is js : List ι} {i : ι} {s : σ}

@[simp] theorem afterFrom_nil : M.afterFrom s [] = s := rfl

@[simp] theorem afterFrom_cons : M.afterFrom s (i :: is) = M.afterFrom (M.next s i) is := rfl

theorem afterFrom_append : M.afterFrom s (is ++ js) = M.afterFrom (M.afterFrom s is) js := by
  simp [afterFrom]

@[simp] theorem after_nil : M.after [] = M.init := rfl

theorem after_append : M.after (is ++ js) = M.afterFrom (M.after is) js := afterFrom_append

theorem after_snoc : M.after (is ++ [i]) = M.next (M.after is) i := after_append

@[simp] theorem stepsFrom_nil : M.stepsFrom s [] = [] := rfl

@[simp] theorem stepsFrom_cons :
    M.stepsFrom s (i :: is) = (s, i) :: M.stepsFrom (M.next s i) is := rfl

theorem stepsFrom_append :
    M.stepsFrom s (is ++ js) = M.stepsFrom s is ++ M.stepsFrom (M.afterFrom s is) js := by
  induction is generalizing s with
  | nil => rfl
  | cons i is ih => simp [ih]

theorem steps_append : M.steps (is ++ js) = M.steps is ++ M.stepsFrom (M.after is) js :=
  stepsFrom_append

theorem steps_snoc : M.steps (is ++ [i]) = M.steps is ++ [(M.after is, i)] := steps_append

@[simp] theorem steps_nil : M.steps [] = [] := rfl

@[simp] theorem outs_nil : M.outs [] = [] := rfl

theorem outs_snoc : M.outs (is ++ [i]) = M.outs is ++ [M.out (M.after is) i] := by
  simp [outs, steps_snoc]

@[simp] theorem length_outs : (M.outs is).length = is.length := by
  induction is using List.reverseRecOn with
  | nil => rfl
  | append_singleton is i ih => simp [outs_snoc, ih]

/-- A step of a run is a split of its inputs. -/
theorem mem_steps {p : σ × ι} :
    p ∈ M.steps is ↔ ∃ pre post, is = pre ++ p.2 :: post ∧ p.1 = M.after pre := by
  constructor
  · intro hp
    induction is using List.reverseRecOn with
    | nil => cases hp
    | append_singleton is i ih =>
      rw [steps_snoc, List.mem_append, List.mem_singleton] at hp
      rcases hp with hp | rfl
      · obtain ⟨pre, post, rfl, hs⟩ := ih hp
        exact ⟨pre, post ++ [i], by simp, hs⟩
      · exact ⟨is, [], rfl, rfl⟩
  · rintro ⟨pre, post, rfl, hs⟩
    rw [steps_append, stepsFrom_cons, ← hs]
    simp

/-! ## States along a run -/

theorem EveryState.last {P : σ → Prop} (h : M.EveryState is P) : P (M.after is) :=
  h is (List.prefix_refl is)

theorem EveryState.restrict {P : σ → Prop} (h : M.EveryState is P) {pre : List ι}
    (hpre : pre <+: is) : M.EveryState pre P := fun q hq => h q (hq.trans hpre)

@[simp] theorem everyState_nil {P : σ → Prop} : M.EveryState [] P ↔ P M.init := by
  simp [EveryState]

theorem everyState_snoc {P : σ → Prop} :
    M.EveryState (is ++ [i]) P ↔ M.EveryState is P ∧ P (M.next (M.after is) i) := by
  simp only [EveryState, List.prefix_concat_iff, ← after_snoc]
  constructor
  · intro h
    exact ⟨fun pre hpre => h pre (.inr hpre), h _ (.inl rfl)⟩
  · rintro ⟨h, hl⟩ pre (rfl | hpre)
    · exact hl
    · exact h pre hpre

@[simp] theorem everyStep_nil {G : σ → ι → Prop} : M.EveryStep [] G := by
  simp [EveryStep]

theorem everyStep_snoc {G : σ → ι → Prop} :
    M.EveryStep (is ++ [i]) G ↔ M.EveryStep is G ∧ G (M.after is) i := by
  simp [EveryStep, steps_snoc, or_imp, forall_and]

theorem EveryStep.mono {G H : σ → ι → Prop} (h : M.EveryStep is G)
    (hGH : ∀ s i, G s i → H s i) : M.EveryStep is H := fun p hp => hGH _ _ (h p hp)

/-- A fact about the inputs, read at each step. -/
theorem everyStep_of_inputs {G : ι → Prop} (h : ∀ i ∈ is, G i) : M.EveryStep is fun _ => G := by
  intro p hp
  obtain ⟨pre, post, rfl, -⟩ := mem_steps.mp hp
  exact h p.2 (by simp)

theorem everyStep_inputs {G : ι → Prop} : (M.EveryStep is fun _ => G) ↔ ∀ i ∈ is, G i := by
  refine ⟨fun h i hi => ?_, everyStep_of_inputs⟩
  obtain ⟨pre, post, rfl⟩ := List.append_of_mem hi
  exact h (M.after pre, i) (mem_steps.mpr ⟨pre, post, rfl, rfl⟩)

theorem EveryStep.and {G H : σ → ι → Prop} (hG : M.EveryStep is G) (hH : M.EveryStep is H) :
    M.EveryStep is fun s i => G s i ∧ H s i := fun p hp => ⟨hG p hp, hH p hp⟩

/-- Two step properties that agree at the steps of a run. -/
theorem everyStep_congr {I G H : σ → ι → Prop} (hI : M.EveryStep is I)
    (h : ∀ s i, I s i → (G s i ↔ H s i)) : M.EveryStep is G ↔ M.EveryStep is H :=
  forall₂_congr fun p hp => h _ _ (hI p hp)

/-- A state invariant, read at the start of each step. -/
theorem EveryState.everyStep {P : σ → Prop} (h : M.EveryState is P) :
    M.EveryStep is fun s _ => P s := by
  rintro ⟨s, i⟩ hp
  obtain ⟨pre, post, rfl, rfl⟩ := mem_steps.mp hp
  exact h pre (List.prefix_append _ _)

/-- The same, read at the end of each step. -/
theorem EveryState.everyStep_next {P : σ → Prop} (h : M.EveryState is P) :
    M.EveryStep is fun s i => P (M.next s i) := by
  rintro ⟨s, i⟩ hp
  obtain ⟨pre, post, rfl, rfl⟩ := mem_steps.mp hp
  rw [← after_snoc]
  exact h _ ⟨post, by simp⟩

/-! ## Invariant rules -/

/-- **Guarded invariant.** Steps that meet the guard keep `P`. -/
theorem everyState_of_guard {P : σ → Prop} {G : σ → ι → Prop} (h0 : P M.init)
    (hstep : ∀ s i, P s → G s i → P (M.next s i)) (hg : M.EveryStep is G) :
    M.EveryState is P := by
  induction is using List.reverseRecOn with
  | nil => simpa using h0
  | append_singleton is i ih =>
    obtain ⟨hg, hi⟩ := everyStep_snoc.mp hg
    have hs := ih hg
    exact everyState_snoc.mpr ⟨hs, hstep _ _ hs.last hi⟩

/-- **Invariant.** What every step keeps holds along every run. -/
theorem everyState_of_step {P : σ → Prop} (h0 : P M.init)
    (hstep : ∀ s i, P s → P (M.next s i)) : M.EveryState is P :=
  everyState_of_guard (G := fun _ _ => True) h0 (fun s i h _ => hstep s i h) fun _ _ => trivial

/-- **Exact guard.** Where the guard is what one step from a state with the invariant `I`
needs to keep `P`, a run keeps `P` iff every step meets the guard. -/
theorem everyState_iff_guard_under {I P : σ → Prop} {G : σ → ι → Prop}
    (hI : M.EveryState is I) (h0 : P M.init)
    (hstep : ∀ s i, I s → P s → (P (M.next s i) ↔ G s i)) :
    M.EveryState is P ↔ M.EveryStep is G := by
  induction is using List.reverseRecOn with
  | nil => simpa using h0
  | append_singleton is i ih =>
    obtain ⟨hI, -⟩ := everyState_snoc.mp hI
    rw [everyState_snoc, everyStep_snoc, ← ih hI]
    exact and_congr_right fun hs => hstep _ _ hI.last hs.last

/-- **Exact guard for a weaker property.** In a run whose steps satisfy `I`, those that meet
the guard keep the invariant `P`, and one from `P` that ends in the weaker `Q` met it. -/
theorem everyState_iff_guard_of_under {I : σ → ι → Prop} {P Q : σ → Prop} {G : σ → ι → Prop}
    (hI : M.EveryStep is I) (hPQ : ∀ s, P s → Q s) (h0 : P M.init)
    (hkeep : ∀ s i, I s i → P s → G s i → P (M.next s i))
    (hneed : ∀ s i, I s i → P s → Q (M.next s i) → G s i) :
    M.EveryState is Q ↔ M.EveryStep is G := by
  have hrun : ∀ js, M.EveryStep js I → M.EveryStep js G → M.EveryState js P := fun js hI hG =>
    everyState_of_guard h0 (fun s i hP hIG => hkeep s i hIG.1 hP hIG.2) (hI.and hG)
  constructor
  · intro hQ
    induction is using List.reverseRecOn with
    | nil => exact everyStep_nil
    | append_singleton is i ih =>
      obtain ⟨hI, hi⟩ := everyStep_snoc.mp hI
      obtain ⟨hQ, hlast⟩ := everyState_snoc.mp hQ
      have hG := ih hI hQ
      exact everyStep_snoc.mpr ⟨hG, hneed _ _ hi (hrun is hI hG).last hlast⟩
  · exact fun hG pre hpre => hPQ _ (hrun is hI hG pre hpre)

theorem everyState_iff_guard_of {P Q : σ → Prop} {G : σ → ι → Prop} (hPQ : ∀ s, P s → Q s)
    (h0 : P M.init) (hkeep : ∀ s i, P s → G s i → P (M.next s i))
    (hneed : ∀ s i, P s → Q (M.next s i) → G s i) :
    M.EveryState is Q ↔ M.EveryStep is G :=
  everyState_iff_guard_of_under (I := fun _ _ => True) (fun _ _ => trivial) hPQ h0
    (fun s i _ => hkeep s i) fun s i _ => hneed s i

theorem everyState_iff_guard {P : σ → Prop} {G : σ → ι → Prop} (h0 : P M.init)
    (hstep : ∀ s i, P s → (P (M.next s i) ↔ G s i)) :
    M.EveryState is P ↔ M.EveryStep is G :=
  everyState_iff_guard_under (I := fun _ => True) (fun _ _ => trivial) h0
    fun s i _ => hstep s i

/-- **Point of no return.** Where a step that misses the guard leads from `P` to `B`, and `B`
stays, a run ends in `P` while its steps meet the guard and in `B` once one has missed it. -/
theorem after_of_guard (is : List ι) {P B : σ → Prop} {G : σ → ι → Prop} (h0 : P M.init)
    (hkeep : ∀ s i, P s → G s i → P (M.next s i)) (hfall : ∀ s i, P s → ¬ G s i → B (M.next s i))
    (hstay : ∀ s i, B s → B (M.next s i)) :
    (M.EveryStep is G → P (M.after is)) ∧ (¬ M.EveryStep is G → B (M.after is)) := by
  refine ⟨fun hG => (everyState_of_guard h0 hkeep hG).last, ?_⟩
  induction is using List.reverseRecOn with
  | nil => exact fun h => absurd everyStep_nil h
  | append_singleton is i ih =>
    intro h
    rw [after_snoc]
    by_cases hG : M.EveryStep is G
    · refine hfall _ _ (everyState_of_guard h0 hkeep hG).last fun hi => h ?_
      exact everyStep_snoc.mpr ⟨hG, hi⟩
    · exact hstay _ _ (ih hG)

/-- **Trace invariant.** The same for a relation between states and the answers given so far. -/
theorem trace_of_step {P : σ → List ο → Prop} (h0 : P M.init [])
    (hstep : ∀ s os i, P s os → P (M.next s i) (os ++ [M.out s i])) :
    P (M.after is) (M.outs is) := by
  induction is using List.reverseRecOn with
  | nil => exact h0
  | append_singleton is i ih =>
    rw [after_snoc, outs_snoc]
    exact hstep _ _ i ih

/-! ## Other names for inputs and outputs -/

section Relabel

variable {ι' : Type v} {ο' : Type w} (f : ι' → ι) (g : ο → ο')

def relabel (M : Machine σ ι ο) (f : ι' → ι) (g : ο → ο') : Machine σ ι' ο' where
  init := M.init
  step s i := (g (M.out s (f i)), M.next s (f i))

@[simp] theorem next_relabel (i : ι') : (M.relabel f g).next s i = M.next s (f i) := rfl

@[simp] theorem out_relabel (i : ι') : (M.relabel f g).out s i = g (M.out s (f i)) := rfl

theorem after_relabel (is : List ι') : (M.relabel f g).after is = M.after (is.map f) := by
  induction is using List.reverseRecOn with
  | nil => rfl
  | append_singleton is i ih =>
    rw [List.map_append, List.map_singleton, after_snoc, after_snoc, next_relabel, ih]

theorem outs_relabel (is : List ι') : (M.relabel f g).outs is = (M.outs (is.map f)).map g := by
  induction is using List.reverseRecOn with
  | nil => rfl
  | append_singleton is i ih =>
    rw [List.map_append, List.map_singleton, outs_snoc, outs_snoc, List.map_append,
      List.map_singleton, out_relabel, after_relabel, ih]

end Relabel

/-! ## History variables -/

section History

variable {γ : Type w} (h0 : γ) (note : γ → σ → ι → γ)

/-- The machine with a record of its run, which the steps do not read. -/
def withHistory (M : Machine σ ι ο) (h0 : γ) (note : γ → σ → ι → γ) : Machine (σ × γ) ι ο where
  init := (M.init, h0)
  step s i := (M.out s.1 i, M.next s.1 i, note s.2 s.1 i)

@[simp] theorem next_withHistory (s : σ × γ) :
    (M.withHistory h0 note).next s i = (M.next s.1 i, note s.2 s.1 i) := rfl

/-- The record changes no run. -/
theorem after_withHistory : ((M.withHistory h0 note).after is).1 = M.after is := by
  induction is using List.reverseRecOn with
  | nil => rfl
  | append_singleton is i ih => rw [after_snoc, after_snoc, next_withHistory, ih]

theorem everyStep_withHistory {G : σ → ι → Prop} :
    ((M.withHistory h0 note).EveryStep is fun s => G s.1) ↔ M.EveryStep is G := by
  induction is using List.reverseRecOn with
  | nil => simp
  | append_singleton is i ih => rw [everyStep_snoc, everyStep_snoc, ih, after_withHistory]

end History

/-! ## Simulation -/

variable {σ' : Type u} {A : Machine σ' ι ο}

/-- **Simulation.** A relation kept by equal steps with equal answers relates
the states of whole runs, and the runs answer alike. -/
theorem sim {R : σ → σ' → Prop} (h0 : R M.init A.init)
    (hstep : ∀ s a i, R s a → M.out s i = A.out a i ∧ R (M.next s i) (A.next a i)) :
    M.outs is = A.outs is ∧ R (M.after is) (A.after is) := by
  induction is using List.reverseRecOn with
  | nil => exact ⟨rfl, h0⟩
  | append_singleton is i ih =>
    obtain ⟨ho, hr⟩ := ih
    obtain ⟨ho', hr'⟩ := hstep _ _ i hr
    rw [outs_snoc, outs_snoc, after_snoc, after_snoc, ho, ho']
    exact ⟨rfl, hr'⟩

end Machine

end Lib
