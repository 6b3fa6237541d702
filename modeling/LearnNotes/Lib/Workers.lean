import Mathlib.Data.List.Nodup
import Mathlib.Data.List.Perm.Basic
import LearnNotes.Lib.Machine

/-!
# Tasks shared out among workers

Every worker has a list of tasks and does one of them at each of its turns; a schedule says whose
turn it is. What is done is at any time the tasks that the workers had turns for, in some order
(`done_perm`), and the memory is what the tasks make of it in that order (`memory_eq`). Where the
order of tasks does not matter, every schedule with turns enough ends as the plain loop over all
tasks does (`memory_eq_foldl`).
-/

namespace Lib.Workers

universe u v w

variable {ι : Type u} {τ : Type v} {σ : Type w}

structure State (ι : Type u) (τ : Type v) (σ : Type w) where
  memory : σ
  /-- How many tasks each has done. -/
  turn : ι → Nat := fun _ => 0
  done : List τ := []

variable [DecidableEq ι] (tasks : ι → List τ) (act : σ → τ → σ)

/-- A turn of worker `k`. -/
def work (s : State ι τ σ) (k : ι) : State ι τ σ :=
  match (tasks k)[s.turn k]? with
  | none => s
  | some t =>
    { memory := act s.memory t
      turn := Function.update s.turn k (s.turn k + 1)
      done := s.done ++ [t] }

def workers (memory : σ) : Machine (State ι τ σ) ι Unit where
  init := { memory := memory }
  step s k := ((), work tasks act s k)

/-- What the workers have turns for. -/
def upTo (turn : ι → Nat) (ids : List ι) : List τ := ids.flatMap fun k => (tasks k).take (turn k)

variable {tasks act} {s : State ι τ σ} {k : ι} {ids : List ι} {memory : σ} {is : List ι}

theorem upTo_update_of_notMem (turn : ι → Nat) (n : Nat) (h : k ∉ ids) :
    upTo tasks (Function.update turn k n) ids = upTo tasks turn ids := by
  unfold upTo
  refine List.flatMap_congr fun j hj => ?_
  rw [Function.update_of_ne (ne_of_mem_of_not_mem hj h)]

/-- One more turn. -/
theorem upTo_succ {turn : ι → Nat} {t : τ} (hids : ids.Nodup) (hk : k ∈ ids)
    (ht : (tasks k)[turn k]? = some t) :
    (upTo tasks (Function.update turn k (turn k + 1)) ids).Perm (upTo tasks turn ids ++ [t]) := by
  obtain ⟨before, after, rfl⟩ := List.append_of_mem hk
  have hnd := List.nodup_middle.mp hids
  have hnot : k ∉ before ++ after := (List.nodup_cons.mp hnd).1
  have hbefore : k ∉ before := fun h => hnot (List.mem_append_left _ h)
  have hafter : k ∉ after := fun h => hnot (List.mem_append_right _ h)
  have htake : (tasks k).take (turn k + 1) = (tasks k).take (turn k) ++ [t] := by
    rw [List.take_add_one, ht]
    rfl
  have hsplit : ∀ turn' : ι → Nat, upTo tasks turn' (before ++ k :: after) =
      upTo tasks turn' before ++ ((tasks k).take (turn' k) ++ upTo tasks turn' after) := by
    intro turn'
    unfold upTo
    rw [List.flatMap_append, List.flatMap_cons]
  rw [hsplit, hsplit, upTo_update_of_notMem turn _ hbefore, upTo_update_of_notMem turn _ hafter,
    Function.update_self, htake, List.append_assoc, List.append_assoc, List.append_assoc]
  exact (List.perm_append_comm.append_left _).append_left _

theorem work_of_none (h : (tasks k)[s.turn k]? = none) : work tasks act s k = s := by
  unfold work
  rw [h]

theorem work_of_some {t : τ} (h : (tasks k)[s.turn k]? = some t) :
    work tasks act s k =
      { memory := act s.memory t
        turn := Function.update s.turn k (s.turn k + 1)
        done := s.done ++ [t] } := by
  unfold work
  rw [h]

theorem memory_work (h : s.memory = s.done.foldl act memory) (k : ι) :
    (work tasks act s k).memory = (work tasks act s k).done.foldl act memory := by
  cases ht : (tasks k)[s.turn k]? with
  | none =>
    rw [work_of_none ht]
    exact h
  | some t =>
    rw [work_of_some ht, List.foldl_append, ← h]
    rfl

/-- **The memory** is what the tasks done have made of it. -/
theorem memory_eq (memory : σ) (is : List ι) :
    ((workers tasks act memory).after is).memory =
      ((workers tasks act memory).after is).done.foldl act memory := by
  have hrun : (workers tasks act memory).EveryState is
      fun s => s.memory = s.done.foldl act memory :=
    Machine.everyState_of_step rfl fun s k h => memory_work h k
  exact hrun.last

theorem done_work (hids : ids.Nodup) (hall : ∀ k, k ∈ ids)
    (h : s.done.Perm (upTo tasks s.turn ids)) (k : ι) :
    (work tasks act s k).done.Perm (upTo tasks (work tasks act s k).turn ids) := by
  cases ht : (tasks k)[s.turn k]? with
  | none =>
    rw [work_of_none ht]
    exact h
  | some t =>
    rw [work_of_some ht]
    exact (h.append_right [t]).trans (upTo_succ hids (hall k) ht).symm

theorem done_upTo (hids : ids.Nodup) (hall : ∀ k, k ∈ ids) (memory : σ) (is : List ι) :
    ((workers tasks act memory).after is).done.Perm
      (upTo tasks ((workers tasks act memory).after is).turn ids) := by
  have hnone : upTo tasks (fun _ => 0) ids = [] := by
    rw [upTo, List.flatMap_eq_nil_iff]
    exact fun _ _ => List.take_zero
  have hrun : (workers tasks act memory).EveryState is
      fun s => s.done.Perm (upTo tasks s.turn ids) := by
    refine Machine.everyState_of_step ?_ fun s k h => done_work hids hall h k
    show ([] : List τ).Perm (upTo tasks (fun _ => 0) ids)
    rw [hnone]
  exact hrun.last

/-- How far each worker is. -/
theorem turn_eq (memory : σ) (is : List ι) (k : ι) :
    ((workers tasks act memory).after is).turn k = min (is.count k) (tasks k).length := by
  induction is using List.reverseRecOn with
  | nil => exact (Nat.zero_min _).symm
  | append_singleton is j ih =>
    rw [Machine.after_snoc, List.count_append]
    show (work tasks act ((workers tasks act memory).after is) j).turn k = _
    generalize (workers tasks act memory).after is = s at ih
    cases ht : (tasks j)[s.turn j]? with
    | none =>
      have hend := List.getElem?_eq_none_iff.mp ht
      rw [work_of_none ht, ih]
      by_cases hj : j = k
      · subst hj
        omega
      · rw [List.count_singleton, if_neg (by simpa using hj), Nat.add_zero]
    | some t =>
      have hlt := (List.getElem?_eq_some_iff.mp ht).1
      rw [work_of_some ht]
      show Function.update s.turn j (s.turn j + 1) k = _
      by_cases hj : j = k
      · subst hj
        rw [Function.update_self, List.count_singleton_self]
        omega
      · rw [Function.update_of_ne (Ne.symm hj), ih, List.count_singleton,
          if_neg (by simpa using hj), Nat.add_zero]

/-- **What is done** after a schedule. -/
theorem done_perm (hids : ids.Nodup) (hall : ∀ k, k ∈ ids) (memory : σ) (is : List ι) :
    ((workers tasks act memory).after is).done.Perm
      (ids.flatMap fun k => (tasks k).take (is.count k)) := by
  have hturn : upTo tasks ((workers tasks act memory).after is).turn ids =
      ids.flatMap fun k => (tasks k).take (is.count k) := by
    unfold upTo
    refine List.flatMap_congr fun k _ => ?_
    rw [turn_eq, List.take_eq_take_iff]
    omega
  rw [← hturn]
  exact done_upTo hids hall memory is

/-- No task is done twice. -/
theorem nodup_done (hids : ids.Nodup) (hall : ∀ k, k ∈ ids) (hnd : (ids.flatMap tasks).Nodup)
    (memory : σ) (is : List ι) : ((workers tasks act memory).after is).done.Nodup := by
  refine (done_perm hids hall memory is).nodup_iff.mpr (hnd.sublist ?_)
  clear hids hall hnd
  induction ids with
  | nil => exact List.Sublist.refl _
  | cons k ids ih =>
    rw [List.flatMap_cons, List.flatMap_cons]
    exact (List.take_sublist _ _).append ih

/-- **Turns enough** for all tasks, and for an order that does not matter. -/
theorem memory_eq_foldl (hids : ids.Nodup) (hall : ∀ k, k ∈ ids)
    (hcomm : ∀ m t t', act (act m t) t' = act (act m t') t) (memory : σ) {is : List ι}
    (henough : ∀ k, (tasks k).length ≤ is.count k) {plain : List τ}
    (hplain : plain.Perm (ids.flatMap tasks)) :
    ((workers tasks act memory).after is).memory = plain.foldl act memory := by
  have hdone : ((workers tasks act memory).after is).done.Perm _ := done_perm hids hall memory is
  have hfull : (ids.flatMap fun k => (tasks k).take (is.count k)) = ids.flatMap tasks :=
    List.flatMap_congr fun k _ => List.take_of_length_le (henough k)
  rw [hfull] at hdone
  rw [memory_eq]
  exact (hdone.trans hplain.symm).foldl_eq' (fun t _ t' _ m => hcomm m t t') memory

end Lib.Workers
