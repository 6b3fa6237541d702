import Mathlib.Data.List.Basic
import Mathlib.Logic.Function.Basic

/-!
# Leases: keys issued once

An allocator's history as events: `issue k a` hands out the key `k` for the
object `a`, `revoke k` takes it back, `quiet` changes nothing. `table` is the
key-to-object map the events leave. When no key is issued twice, a key maps to
the object it was issued for until it is revoked, and to nothing from then on
(`table_of_issue`).
-/

namespace Lib.Lease

universe u v

inductive Event (κ : Type u) (α : Type v) where
  | issue (k : κ) (a : α)
  | revoke (k : κ)
  | quiet
  deriving DecidableEq

variable {κ : Type u} {α : Type v} [DecidableEq κ]

/-- One event's effect on the map. -/
def apply (m : κ → Option α) : Event κ α → κ → Option α
  | .issue k a => Function.update m k (some a)
  | .revoke k => Function.update m k none
  | .quiet => m

def tableFrom (m : κ → Option α) (es : List (Event κ α)) : κ → Option α := es.foldl apply m

/-- The map after the events. -/
def table (es : List (Event κ α)) : κ → Option α := tableFrom (fun _ => none) es

/-- The keys handed out, oldest first. -/
def issued (es : List (Event κ α)) : List κ :=
  es.filterMap fun
    | .issue k _ => some k
    | _ => none

variable {m : κ → Option α} {es fs : List (Event κ α)} {e : Event κ α} {k : κ} {a : α}

theorem tableFrom_append : tableFrom m (es ++ fs) = tableFrom (tableFrom m es) fs := by
  simp [tableFrom]

theorem table_append : table (es ++ fs) = tableFrom (table es) fs := tableFrom_append

theorem table_snoc : table (es ++ [e]) = apply (table es) e := table_append

omit [DecidableEq κ] in
@[simp] theorem issued_nil : issued ([] : List (Event κ α)) = [] := rfl

omit [DecidableEq κ] in
theorem issued_append : issued (es ++ fs) = issued es ++ issued fs := by
  simp [issued, List.filterMap_append]

omit [DecidableEq κ] in
@[simp] theorem issued_issue : issued (.issue k a :: es) = k :: issued es := rfl

omit [DecidableEq κ] in
@[simp] theorem issued_revoke : issued (.revoke k :: es) = issued es := rfl

omit [DecidableEq κ] in
@[simp] theorem issued_quiet : issued (.quiet :: es) = issued es := rfl

/-- Events that neither issue nor revoke `k` keep its entry. -/
theorem tableFrom_kept (hk : k ∉ issued es) (hr : .revoke k ∉ es) : tableFrom m es k = m k := by
  induction es generalizing m with
  | nil => rfl
  | cons e es ih =>
    rw [List.mem_cons, not_or] at hr
    show tableFrom (apply m e) es k = m k
    cases e with
    | issue j a =>
      rw [issued_issue, List.mem_cons, not_or] at hk
      rw [ih hk.2 hr.2, apply, Function.update_of_ne hk.1]
    | revoke j =>
      rw [ih hk hr.2, apply, Function.update_of_ne fun h => hr.1 (by rw [h])]
    | quiet => rw [ih hk hr.2, apply]

/-- A revoked key that is not issued again maps to nothing. -/
theorem tableFrom_revoked (hk : k ∉ issued es) (hr : .revoke k ∈ es) :
    tableFrom m es k = none := by
  induction es generalizing m with
  | nil => cases hr
  | cons e es ih =>
    show tableFrom (apply m e) es k = none
    have hk' : k ∉ issued es := fun h => hk (by cases e <;> simp [h])
    by_cases hmem : .revoke k ∈ es
    · exact ih hk' hmem
    · obtain rfl : .revoke k = e := (List.mem_cons.mp hr).resolve_right hmem
      rw [tableFrom_kept hk' hmem, apply, Function.update_self]

omit [DecidableEq κ] in
theorem notMem_issued_of_nodup (hnd : (issued (es ++ .issue k a :: fs)).Nodup) :
    k ∉ issued fs := by
  rw [issued_append, issued_issue] at hnd
  exact (List.nodup_cons.mp (List.nodup_append.mp hnd).2.1).1

/-- **A lease runs from its issue to its first revocation.** -/
theorem table_of_issue (hnd : (issued (es ++ .issue k a :: fs)).Nodup) :
    (.revoke k ∉ fs → table (es ++ .issue k a :: fs) k = some a) ∧
      (.revoke k ∈ fs → table (es ++ .issue k a :: fs) k = none) := by
  have hk := notMem_issued_of_nodup hnd
  rw [List.append_cons, table_append]
  refine ⟨fun hr => ?_, tableFrom_revoked hk⟩
  rw [tableFrom_kept hk hr, table_snoc, apply, Function.update_self]

end Lib.Lease
