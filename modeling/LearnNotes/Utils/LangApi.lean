import LearnNotes.Lib.Machine
import LearnNotes.Utils.ErrorCategory

/-!
# The C functions of `utils/lang.cpp`

`skl_i18n_find_ex` and `skl_i18n_last_error_message`, called by any threads in any order. The global
loader is made by the first call that needs it and never again, and that call ends the process where
making it throws; the text of the last error is one of the thread. `find_ex_contract`: what a call
answers depends on its arguments and on the files there were at the first call with both arguments,
and the text is that of the thread's own last call; the result -3 does not occur.

The files and the candidates are those there are when the call is made. A string in C has no NUL.
-/

namespace LearnNotes.Utils

open Lib

variable {Thread : Type} [DecidableEq Thread]

/-- What a call finds: the files, and the candidates unless `current_path` throws. -/
structure Surroundings where
  disk : FileSystem
  candidates : Option (List String)

/-- What `global_i18n_loader` makes of it, `none` where it ends the process. -/
def Surroundings.loader (found : Surroundings) : Option I18NLoader :=
  found.candidates.bind (global_i18n_loader found.disk)

/-- A call: null pointers are `none` and `false`. -/
inductive ApiCall (Thread : Type) where
  | find_ex (thread : Thread) (submodule : Option String) (code : UInt32)
      (out_message out_size : Bool) (found : Surroundings)
  | last_error (thread : Thread)

/-- What a call returns, and what stands behind the out pointers that are not null; or nothing any
more. -/
inductive ApiAnswer where
  | found (ret : Int) (out_message : Option (Option String)) (out_size : Option Nat)
  | text (msg : String)
  | terminated

/-- `loader` inside of `global_i18n_loader`, and `g_last_i18n_error`. -/
structure ApiState (Thread : Type) where
  loader : Option I18NLoader := none
  last : Thread → String := fun _ => ""
  /-- `std::terminate` was called. -/
  terminated : Bool := false

namespace ApiState

def set_last_i18n_error (thread : Thread) (msg : String) (s : ApiState Thread) : ApiState Thread :=
  { s with last := Function.update s.last thread msg }

/-- `skl_i18n_find_ex`. -/
def find_ex (thread : Thread) (submodule : Option String) (code : UInt32)
    (out_message out_size : Bool) (found : Surroundings) (s : ApiState Thread) :
    ApiAnswer × ApiState Thread :=
  let message := if out_message then some none else none
  let size := if out_size then some 0 else none
  match submodule, out_message with
  | some submodule, true =>
    match s.loader.or found.loader with
    | none => (.terminated, { s with terminated := true })
    | some loader =>
      let s := { s with loader := some loader }
      if !loader.loaded then
        (.found (-2) message size, s.set_last_i18n_error thread "i18n loader not loaded")
      else
        let (ec, found) := loader.find submodule code
        if ec.isSet then
          (.found (-3) message size,
            s.set_last_i18n_error thread (utils_message loader (Int32.ofInt ec.value)))
        else if found.isEmpty then
          (.found 1 message size, s.set_last_i18n_error thread "message not found")
        else
          (.found 0 (some (some found)) (if out_size then some found.utf8ByteSize else none),
            s.set_last_i18n_error thread "")
  | _, _ => (.found (-1) message size, s.set_last_i18n_error thread "invalid argument")

/-- `skl_i18n_last_error_message`. -/
def last_error (thread : Thread) (s : ApiState Thread) : ApiAnswer := .text (s.last thread)

/-- A process that has ended answers nothing. -/
def call (s : ApiState Thread) (c : ApiCall Thread) : ApiAnswer × ApiState Thread :=
  if s.terminated then (.terminated, s)
  else
    match c with
    | .find_ex thread submodule code out_message out_size found =>
      s.find_ex thread submodule code out_message out_size found
    | .last_error thread => (s.last_error thread, s)

end ApiState

/-- The process. -/
def langApi (Thread : Type) [DecidableEq Thread] :
    Machine (ApiState Thread) (ApiCall Thread) ApiAnswer where
  init := {}
  step := ApiState.call

/-! ## What a call has to answer -/

/-- What a call would make the loader of. -/
def ApiCall.asks : ApiCall Thread → Option Surroundings
  | .find_ex _ (some _) _ true _ found => some found
  | _ => none

/-- What these calls, and one that finds `found` next, make the loader of. -/
def askedOf (calls : List (ApiCall Thread)) (found : Surroundings) : Surroundings :=
  (calls.findSome? ApiCall.asks).getD found

/-- The answer to a call with both arguments. -/
def answerOf (loader : I18NLoader) (submodule : String) (code : UInt32) (out_size : Bool) :
    ApiAnswer :=
  if loader.loaded = false then .found (-2) (some none) (if out_size then some 0 else none)
  else if (loader.find submodule code).2 = "" then
    .found 1 (some none) (if out_size then some 0 else none)
  else
    .found 0 (some (some (loader.find submodule code).2))
      (if out_size then some (loader.find submodule code).2.utf8ByteSize else none)

/-- The text of a result. -/
def errorText (ret : Int) : String :=
  if ret = 0 then ""
  else if ret = 1 then "message not found"
  else if ret = -2 then "i18n loader not loaded"
  else "invalid argument"

/-- The record of each thread's last result. -/
def results (h : Thread → Option Int) (s : ApiState Thread) (c : ApiCall Thread) :
    Thread → Option Int :=
  match c, (s.call c).1 with
  | .find_ex thread .., .found ret _ _ => Function.update h thread (some ret)
  | _, _ => h

/-- What the record and the calls made say of the state. -/
structure ApiState.Records (h : Thread → Option Int) (calls : List (ApiCall Thread))
    (s : ApiState Thread) : Prop where
  loader : s.loader = (calls.findSome? ApiCall.asks).bind Surroundings.loader
  terminated : s.terminated = true ↔ ∃ found, calls.findSome? ApiCall.asks = some found ∧
    found.loader = none
  last : ∀ thread, s.last thread = ((h thread).map errorText).getD ""

section Contract

variable {s : ApiState Thread} {h : Thread → Option Int} {calls : List (ApiCall Thread)}

/-- **A call with both arguments**, once there is a loader. -/
theorem find_ex_some {s : ApiState Thread} {found : Surroundings} {loader : I18NLoader}
    (hloader : s.loader.or found.loader = some loader) (thread : Thread) (submodule : String)
    (code : UInt32) (out_size : Bool) :
    ∃ ret out_message size,
      answerOf loader submodule code out_size = .found ret out_message size ∧
        s.find_ex thread (some submodule) code true out_size found =
          (.found ret out_message size,
            { s with loader := some loader
                     last := Function.update s.last thread (errorText ret) }) := by
  have hec : (loader.find submodule code).1.isSet = false := by
    rw [I18NLoader.find_fst]
    rfl
  have hempty :
      (loader.find submodule code).2.isEmpty = true ↔ (loader.find submodule code).2 = "" :=
    String.isEmpty_iff
  unfold ApiState.find_ex answerOf
  dsimp only
  rw [hloader]
  dsimp only
  rw [hec]
  cases loader.loaded with
  | false => exact ⟨_, _, _, rfl, rfl⟩
  | true =>
    rw [if_neg (show ¬ true = false by decide), if_neg (show ¬ (!true) = true by decide),
      if_neg (show ¬ false = true by decide)]
    by_cases hmsg : (loader.find submodule code).2 = ""
    · rw [if_pos hmsg, if_pos (hempty.mpr hmsg)]
      exact ⟨_, _, _, rfl, rfl⟩
    · rw [if_neg hmsg, if_neg (mt hempty.mp hmsg)]
      exact ⟨_, _, _, rfl, rfl⟩

/-- The same where none can be made. -/
theorem find_ex_throws {s : ApiState Thread} {found : Surroundings}
    (hloader : s.loader.or found.loader = none) (thread : Thread) (submodule : String)
    (code : UInt32) (out_size : Bool) :
    s.find_ex thread (some submodule) code true out_size found =
      (.terminated, { s with terminated := true }) := by
  unfold ApiState.find_ex
  dsimp only
  rw [hloader]

/-- A call without one of them. -/
theorem find_ex_null (s : ApiState Thread) (thread : Thread) {submodule : Option String}
    (code : UInt32) {out_message : Bool} (out_size : Bool) (found : Surroundings)
    (hnull : submodule = none ∨ out_message = false) :
    s.find_ex thread submodule code out_message out_size found =
      (.found (-1) (if out_message then some none else none) (if out_size then some 0 else none),
        { s with last := Function.update s.last thread (errorText (-1)) }) := by
  unfold ApiState.find_ex
  rcases hnull with rfl | rfl
  · rfl
  · cases submodule <;> rfl

omit [DecidableEq Thread] in
theorem asks_null {thread : Thread} {submodule : Option String} {code : UInt32}
    {out_message out_size : Bool} {found : Surroundings}
    (hnull : submodule = none ∨ out_message = false) :
    (ApiCall.find_ex thread submodule code out_message out_size found).asks = none := by
  rcases hnull with rfl | rfl
  · rfl
  · cases submodule <;> rfl

omit [DecidableEq Thread] in
theorem findSome?_asks_append (calls : List (ApiCall Thread)) (c : ApiCall Thread) :
    (calls ++ [c]).findSome? ApiCall.asks = (calls.findSome? ApiCall.asks).or c.asks := by
  rw [List.findSome?_append]
  cases hc : c.asks <;> simp [hc]

theorem records_update {thread : Thread} {ret : Int} {last : Thread → String}
    (hlast : ∀ thread, last thread = ((h thread).map errorText).getD "") (thread' : Thread) :
    Function.update last thread (errorText ret) thread' =
      ((Function.update h thread (some ret) thread').map errorText).getD "" := by
  by_cases ht : thread' = thread
  · rw [ht, Function.update_self, Function.update_self]
    rfl
  · rw [Function.update_of_ne ht, Function.update_of_ne ht, hlast]

omit [DecidableEq Thread] in
/-- A call that asks for nothing new leaves loader and process alone. -/
theorem ApiState.Records.keep (hs : s.Records h calls) {c : ApiCall Thread}
    (hc : calls.findSome? ApiCall.asks ≠ none ∨ c.asks = none) {h' : Thread → Option Int}
    {last : Thread → String} (hlast : ∀ thread, last thread = ((h' thread).map errorText).getD "") :
    ApiState.Records h' (calls ++ [c]) { s with last := last } := by
  have hasks : (calls ++ [c]).findSome? ApiCall.asks = calls.findSome? ApiCall.asks := by
    rw [findSome?_asks_append]
    rcases hc with hc | hc
    · obtain ⟨found, hfound⟩ := Option.ne_none_iff_exists'.mp hc
      rw [hfound]
      rfl
    · rw [hc, Option.or_none]
  exact ⟨by rw [hasks]; exact hs.loader, by rw [hasks]; exact hs.terminated, hlast⟩

omit [DecidableEq Thread] in
/-- Whoever asks next gets the loader of the first who asked. -/
theorem ApiState.Records.asked (hs : s.Records h calls) (hlive : s.terminated = false)
    (found : Surroundings) : s.loader.or found.loader = (askedOf calls found).loader := by
  rw [hs.loader, askedOf]
  cases hfirst : calls.findSome? ApiCall.asks with
  | none => rfl
  | some first =>
    rw [Option.bind_some, Option.getD_some]
    cases hloader : first.loader with
    | some loader => rfl
    | none =>
      rw [hs.terminated.mpr ⟨first, hfirst, hloader⟩] at hlive
      cases hlive

/-- **One call.** -/
theorem ApiState.Records.call (hs : s.Records h calls) (c : ApiCall Thread) :
    (s.call c).2.Records (results h s c) (calls ++ [c]) := by
  cases hlive : s.terminated with
  | true =>
    have hcall : s.call c = (.terminated, s) := if_pos hlive
    have hresults : results h s c = h := by
      unfold results
      rw [hcall]
      cases c <;> rfl
    obtain ⟨found, hfound, -⟩ := hs.terminated.mp hlive
    rw [hresults, hcall]
    exact hs.keep (.inl (by rw [hfound]; exact Option.some_ne_none _)) hs.last
  | false =>
    have hterm : ¬ s.terminated = true := by rw [hlive]; exact Bool.false_ne_true
    cases c with
    | last_error thread =>
      have hcall : s.call (.last_error thread) = (s.last_error thread, s) := if_neg hterm
      have hresults : results h s (.last_error thread) = h := by
        unfold results
        rw [hcall]
      rw [hresults, hcall]
      exact hs.keep (.inr rfl) hs.last
    | find_ex thread submodule code out_message out_size found =>
      have hcall : s.call (.find_ex thread submodule code out_message out_size found) =
          s.find_ex thread submodule code out_message out_size found := if_neg hterm
      unfold results
      rw [hcall]
      by_cases hnull : submodule = none ∨ out_message = false
      · rw [find_ex_null s thread code out_size found hnull]
        exact hs.keep (.inr (asks_null hnull)) (records_update hs.last)
      · obtain ⟨hsub, hout⟩ := not_or.mp hnull
        obtain ⟨submodule, rfl⟩ := Option.ne_none_iff_exists'.mp hsub
        obtain rfl : out_message = true := by simpa using hout
        have hasks : (calls ++ [ApiCall.find_ex thread (some submodule) code true out_size
            found]).findSome? ApiCall.asks = some (askedOf calls found) := by
          rw [findSome?_asks_append, askedOf]
          cases calls.findSome? ApiCall.asks <;> rfl
        have hasked := hs.asked hlive found
        cases hor : s.loader.or found.loader with
        | none =>
          rw [find_ex_throws hor]
          rw [hor] at hasked
          obtain ⟨hnone, -⟩ := Option.or_eq_none_iff.mp hor
          refine ⟨?_, iff_of_true rfl ⟨_, hasks, hasked.symm⟩, hs.last⟩
          rw [hasks, hnone]
          exact hasked
        | some loader =>
          obtain ⟨ret, message, size, -, hfind⟩ :=
            find_ex_some hor thread submodule code out_size
          rw [hfind]
          rw [hor] at hasked
          refine ⟨by rw [hasks]; exact hasked, iff_of_false hterm ?_, records_update hs.last⟩
          rintro ⟨first, hfirst, hthrows⟩
          rw [Option.some.inj (hasks.symm.trans hfirst), hthrows] at hasked
          cases hasked

end Contract

/-- The process with the record of each thread's last result. -/
def recorded (Thread : Type) [DecidableEq Thread] :
    Machine (ApiState Thread × (Thread → Option Int)) (ApiCall Thread) ApiAnswer :=
  (langApi Thread).withHistory (fun _ => none) results

theorem records_after (calls : List (ApiCall Thread)) :
    ((recorded Thread).after calls).1.Records ((recorded Thread).after calls).2 calls := by
  induction calls using List.reverseRecOn with
  | nil => exact ⟨rfl, iff_of_false Bool.false_ne_true (by rintro ⟨_, h, -⟩; cases h), fun _ => rfl⟩
  | append_singleton calls c ih =>
    rw [Machine.after_snoc]
    exact ih.call c

/-- **The contract**, in every run: the process has ended iff the first call with both arguments
found nothing it could make a loader of. Where it has not, a call with a null pointer fails; any
other answers from the loader of the first such call, or ends the process if it is the first; the
text is that of the thread's own last result. -/
theorem find_ex_contract (calls : List (ApiCall Thread)) (thread : Thread) :
    let s := ((recorded Thread).after calls).1
    (s.terminated = true ↔
        ∃ found, calls.findSome? ApiCall.asks = some found ∧ found.loader = none) ∧
      (s.terminated = true → ∀ c, s.call c = (.terminated, s)) ∧
      (s.terminated = false →
        (∀ submodule code out_message out_size found, submodule = none ∨ out_message = false →
          (s.call (.find_ex thread submodule code out_message out_size found)).1 =
            .found (-1) (if out_message then some none else none)
              (if out_size then some 0 else none)) ∧
        (∀ submodule code out_size found,
          (s.call (.find_ex thread (some submodule) code true out_size found)).1 =
            (askedOf calls found).loader.elim .terminated
              (answerOf · submodule code out_size)) ∧
        (s.call (.last_error thread)).1 =
          .text ((((recorded Thread).after calls).2 thread).elim "" errorText)) := by
  intro s
  have hs := records_after calls
  refine ⟨hs.terminated, fun hterm c => if_pos hterm, fun hlive => ?_⟩
  have hterm : ¬ s.terminated = true := by rw [hlive]; exact Bool.false_ne_true
  have hcall : ∀ submodule code out_message out_size found,
      s.call (.find_ex thread submodule code out_message out_size found) =
        s.find_ex thread submodule code out_message out_size found :=
    fun _ _ _ _ _ => if_neg hterm
  refine ⟨fun submodule code out_message out_size found hnull => ?_,
    fun submodule code out_size found => ?_, ?_⟩
  · rw [hcall, find_ex_null s thread code out_size found hnull]
  · rw [hcall, ← hs.asked hlive found]
    cases hor : s.loader.or found.loader with
    | none =>
      rw [find_ex_throws hor]
      rfl
    | some loader =>
      obtain ⟨ret, message, size, hanswer, hfind⟩ :=
        find_ex_some hor thread submodule code out_size
      rw [hfind, Option.elim_some, hanswer]
  · have hlast : s.call (.last_error thread) = (s.last_error thread, s) := if_neg hterm
    rw [hlast]
    show ApiAnswer.text (s.last thread) = _
    rw [hs.last]
    cases ((recorded Thread).after calls).2 thread <;> rfl

end LearnNotes.Utils
