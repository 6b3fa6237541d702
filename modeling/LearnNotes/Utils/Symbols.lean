import LearnNotes.Utils.DynLib

/-!
# What a library gives out

`DynLib::symbol` looks a name up in the library of an object, and `SKL_I18N_loader` fills the two
pointers of an api with it. A pointer is good as long as the library stays loaded, and that is for
the system to count: `calls` is what a run asks of it, `StaysLoaded` that the count has not been 0
in between. `api_callable`: this is so until a step in which the one object that holds the library
gives it up; an `open` of the same library on it is one.
-/

namespace LearnNotes.Utils

open Lib

/-- `errc::dl_symbol_not_found`. -/
def dl_symbol_not_found : UInt16 := 0x0302

variable {H A : Type} [DecidableEq H]

namespace DynLib

/-- The static `symbol`, where the place for the pointer is not null; `dlsym` is what the system
finds. -/
def symbol_static (handle : Option H) (symbol : Option (List Char))
    (dlsym : H → List Char → Option A) : SKLErr × Option A :=
  match handle, symbol with
  | some h, some symbol =>
    match dlsym h symbol with
    | none => (dl_symbol_not_found.toNat, none)
    | some p => (EXIT_SUCCESS, some p)
  | _, _ => (errc.invalid_argument.code.toNat, none)

def symbol (name : Option (List Char)) (dlsym : H → List Char → Option A) (t : DynLib H) :
    error_code × Option A :=
  if t._handle.isNone || name.isNone then (make_error_code errc.invalid_argument.code, none)
  else
    let (rc, pfn) := symbol_static t._handle name dlsym
    if rc ≠ EXIT_SUCCESS then (make_error_code (toErrc rc), none) else ({}, pfn)

end DynLib

structure SKL_I18N_C_API (A : Type) where
  find_ex : Option A := none
  last_error : Option A := none

def SKL_I18N_SYMBOL_FIND_EX : List Char := "skl_i18n_find_ex".toList

def SKL_I18N_SYMBOL_LAST_ERROR : List Char := "skl_i18n_last_error_message".toList

/-- What it returns, the code it leaves, and `out_api`. -/
def SKL_I18N_loader (lib : DynLib H) (out_api : SKL_I18N_C_API A)
    (dlsym : H → List Char → Option A) : Bool × error_code × SKL_I18N_C_API A :=
  if !lib.is_open then (false, make_error_code errc.invalid_argument.code, out_api)
  else
    let (ec, find_ex) := lib.symbol (some SKL_I18N_SYMBOL_FIND_EX) dlsym
    let out_api := { out_api with find_ex := find_ex }
    if ec.isSet || find_ex.isNone then
      (false, if ec.isSet then ec else make_error_code dl_symbol_not_found, out_api)
    else
      let (ec, last_error) := lib.symbol (some SKL_I18N_SYMBOL_LAST_ERROR) dlsym
      let out_api := { out_api with last_error := last_error }
      if ec.isSet || last_error.isNone then
        (false, if ec.isSet then ec else make_error_code dl_symbol_not_found,
          { out_api with find_ex := none })
      else (true, ec, out_api)

/-! ## What the system is asked -/

inductive Loader.Call (H : Type) where
  | dlopen (found : Option H)
  | dlclose (h : H)

def Loader.serve (os : Loader H) : Loader.Call H → Loader H
  | .dlopen found => os.dlopen found
  | .dlclose h => os.dlclose h

/-- The handle an operation closes. -/
def Op.letsGo (p : Process H) : Op H → Option H
  | .openAt i .. | .closeAt i | .destroy i => (p.libs.live i).bind (·._handle)
  | .moveAssign dst src =>
    if (p.libs.live src).isSome ∧ dst ≠ src then (p.libs.live dst).bind (·._handle) else none
  | _ => none

def DynLib.openCalls (path : List Char) (sys : List Char → Option H) : List (Loader.Call H) :=
  if path.isEmpty then [] else [.dlopen (sys (c_str path))]

/-- The `dlopen` of an operation. -/
def Op.asks (p : Process H) : Op H → List (Loader.Call H)
  | .constructOpen path sys => DynLib.openCalls path sys
  | .openAt i path sys => if (p.libs.live i).isSome then DynLib.openCalls path sys else []
  | _ => []

def Op.calls (p : Process H) (op : Op H) : List (Loader.Call H) :=
  (op.letsGo p).toList.map .dlclose ++ op.asks p

/-- The calls of a run from `p`. -/
def calls (p : Process H) (ops : List (Op H)) : List (Loader.Call H) :=
  ((process H).stepsFrom p ops).flatMap fun s => s.2.calls s.1

/-- The library is loaded all the time. -/
def StaysLoaded (h : H) (os : Loader H) (cs : List (Loader.Call H)) : Prop :=
  ∀ pre, pre <+: cs → 0 < (pre.foldl Loader.serve os).count h

/-- The one object that holds `h` closes it. -/
def LastClose (h : H) (p : Process H) (op : Op H) : Prop :=
  op.letsGo p = some h ∧ p.libs.count (DynLib.holds h) = 1

variable {p : Process H} {op : Op H} {ops : List (Op H)} {os : Loader H} {h : H} {t : DynLib H}
  {c : Loader.Call H} {cs cs' : List (Loader.Call H)}

/-! ## One step -/

theorem close_os (t : DynLib H) (os : Loader H) :
    (t.close os).2 = (t._handle.toList.map Loader.Call.dlclose).foldl Loader.serve os := by
  obtain ⟨_ | h⟩ := t <;> rfl

theorem open_os (path : List Char) (sys : List Char → Option H) (t : DynLib H) (os : Loader H) :
    (t.open_path path sys os).2.2 =
      (t._handle.toList.map Loader.Call.dlclose ++ DynLib.openCalls path sys).foldl Loader.serve
        os := by
  rw [List.foldl_append, ← close_os]
  unfold DynLib.open_path DynLib.openCalls
  by_cases hpath : path.isEmpty
  · simp only [hpath, if_true]
    rfl
  · simp only [hpath]
    unfold DynLib.open_static
    cases hsys : sys (DynLib.c_str path) with
    | none => simp only [hsys]; rfl
    | some h => simp only [hsys]; rfl

/-- **The system has served the calls** of an operation. -/
theorem os_next (p : Process H) (op : Op H) :
    ((process H).next p op).os = (op.calls p).foldl Loader.serve p.os := by
  cases op with
  | construct => rfl
  | constructOpen path sys => exact open_os path sys {} p.os
  | openAt i path sys =>
    show (p.openAt i path sys).2.os =
      (((p.libs.live i).bind (·._handle)).toList.map Loader.Call.dlclose ++
        if (p.libs.live i).isSome then DynLib.openCalls path sys else []).foldl Loader.serve p.os
    unfold Process.openAt
    cases p.libs.live i with
    | none => rfl
    | some t => exact open_os path sys t p.os
  | closeAt i =>
    show (p.closeAt i).os =
      (((p.libs.live i).bind (·._handle)).toList.map Loader.Call.dlclose ++ []).foldl
        Loader.serve p.os
    rw [List.append_nil]
    unfold Process.closeAt
    cases p.libs.live i with
    | none => rfl
    | some t => exact close_os t p.os
  | moveConstruct src =>
    show (p.moveConstruct src).os = p.os
    unfold Process.moveConstruct
    cases p.libs.live src <;> rfl
  | moveAssign dst src =>
    show (p.moveAssign dst src).os =
      ((if (p.libs.live src).isSome ∧ dst ≠ src then (p.libs.live dst).bind (·._handle)
        else none).toList.map Loader.Call.dlclose ++ []).foldl Loader.serve p.os
    rw [List.append_nil]
    unfold Process.moveAssign
    cases p.libs.live dst with
    | none => split_ifs <;> rfl
    | some t =>
      cases p.libs.live src with
      | none => rfl
      | some other =>
        by_cases hne : dst = src
        · simp only [hne, if_true, ne_eq, not_true, and_false, if_false]
          rfl
        · simp only [hne, if_false, Option.isSome_some, ne_eq, not_false_eq_true, and_self,
            if_true, Option.bind_some]
          exact close_os t p.os
  | destroy i =>
    show (p.destroy i).os =
      (((p.libs.live i).bind (·._handle)).toList.map Loader.Call.dlclose ++ []).foldl
        Loader.serve p.os
    rw [List.append_nil]
    unfold Process.destroy
    cases p.libs.live i with
    | none => rfl
    | some t => exact close_os t p.os

/-! ## The library stays loaded -/

theorem staysLoaded_nil : StaysLoaded h os [] ↔ 0 < os.count h := by
  constructor
  · exact fun hs => hs [] (List.prefix_refl [])
  · intro hpos pre hpre
    rw [List.prefix_nil.mp hpre]
    exact hpos

theorem staysLoaded_append :
    StaysLoaded h os (cs ++ cs') ↔
      StaysLoaded h os cs ∧ StaysLoaded h (cs.foldl Loader.serve os) cs' := by
  constructor
  · intro hs
    refine ⟨fun pre hpre => hs pre (hpre.trans (List.prefix_append cs cs')), fun pre hpre => ?_⟩
    rw [← List.foldl_append]
    exact hs (cs ++ pre) ((List.prefix_append_right_inj cs).mpr hpre)
  · rintro ⟨hcs, hcs'⟩ pre hpre
    rcases List.prefix_or_prefix_of_prefix hpre (List.prefix_append cs cs') with hle | ⟨q, rfl⟩
    · exact hcs pre hle
    · rw [List.foldl_append]
      exact hcs' q ((List.prefix_append_right_inj cs).mp hpre)

theorem staysLoaded_cons :
    StaysLoaded h os (c :: cs) ↔ 0 < os.count h ∧ StaysLoaded h (os.serve c) cs := by
  have hone : StaysLoaded h os [c] ↔ 0 < os.count h ∧ 0 < (os.serve c).count h := by
    constructor
    · exact fun hs => ⟨hs [] List.nil_prefix, hs [c] (List.prefix_refl _)⟩
    · rintro ⟨hbefore, hafter⟩ pre hpre
      rcases List.prefix_cons_iff.mp hpre with rfl | ⟨q, rfl, hq⟩
      · exact hbefore
      · rw [List.prefix_nil.mp hq]
        exact hafter
  rw [← List.singleton_append, staysLoaded_append, hone]
  constructor
  · exact fun hs => ⟨hs.1.1, hs.2⟩
  · exact fun hs => ⟨⟨hs.1, staysLoaded_nil.mp fun pre hpre => hs.2 pre
      (by rw [List.prefix_nil.mp hpre]; exact List.nil_prefix)⟩, hs.2⟩

/-- An operation's `dlopen` unloads nothing. -/
theorem staysLoaded_asks (p : Process H) (op : Op H) :
    StaysLoaded h os (op.asks p) ↔ 0 < os.count h := by
  have hopen : ∀ path sys, StaysLoaded h os (DynLib.openCalls path sys) ↔ 0 < os.count h := by
    intro path sys
    unfold DynLib.openCalls
    split_ifs
    · exact staysLoaded_nil
    · rw [staysLoaded_cons, staysLoaded_nil]
      refine and_iff_left_of_imp fun hpos => ?_
      show 0 < (os.dlopen (sys (DynLib.c_str path))).count h
      cases sys (DynLib.c_str path) with
      | none => exact hpos
      | some k =>
        show 0 < Function.update os.count k (os.count k + 1) h
        by_cases hk : h = k
        · rw [hk, Function.update_self]
          omega
        · rw [Function.update_of_ne hk]
          exact hpos
  cases op with
  | constructOpen path sys => exact hopen path sys
  | openAt i path sys =>
    show StaysLoaded h os (if (p.libs.live i).isSome then DynLib.openCalls path sys else []) ↔ _
    split_ifs
    · exact hopen path sys
    · exact staysLoaded_nil
  | _ => exact staysLoaded_nil

/-- **One operation.** -/
theorem staysLoaded_calls (hb : p.Balanced) (hpos : 0 < p.os.count h) (op : Op H) :
    StaysLoaded h p.os (op.calls p) ↔ ¬ LastClose h p op := by
  unfold Op.calls LastClose
  cases hgo : op.letsGo p with
  | none =>
    show StaysLoaded h p.os (op.asks p) ↔ _
    rw [staysLoaded_asks]
    exact iff_of_true hpos fun hlast => nomatch hlast.1
  | some k =>
    show StaysLoaded h p.os (.dlclose k :: op.asks p) ↔ _
    rw [staysLoaded_cons, staysLoaded_asks, and_iff_right hpos]
    show 0 < (p.os.dlclose k).count h ↔ _
    have hcount : p.os.count h = p.libs.count (DynLib.holds h) := hb.count h
    unfold Loader.dlclose
    by_cases hk : h = k
    · subst hk
      rw [if_neg (by omega)]
      show 0 < Function.update p.os.count h (p.os.count h - 1) h ↔ _
      rw [Function.update_self, and_iff_right rfl, ← hcount]
      omega
    · refine iff_of_true ?_ fun hlast => hk (Option.some.inj hlast.1).symm
      split_ifs
      · exact hpos
      · show 0 < Function.update p.os.count k _ h
        rw [Function.update_of_ne hk]
        exact hpos

/-- **A run** from a balanced state. -/
theorem staysLoaded_run (hb : p.Balanced) (hpos : 0 < p.os.count h) (ops : List (Op H)) :
    StaysLoaded h p.os (calls p ops) ↔
      ∀ s ∈ (process H).stepsFrom p ops, ¬ LastClose h s.1 s.2 := by
  induction ops generalizing p with
  | nil => exact iff_of_true (staysLoaded_nil.mpr hpos) nofun
  | cons op ops ih =>
    have hcalls : calls p (op :: ops) = op.calls p ++ calls ((process H).next p op) ops :=
      List.flatMap_cons
    rw [hcalls, staysLoaded_append, staysLoaded_calls hb hpos, ← os_next, Machine.stepsFrom_cons,
      List.forall_mem_cons]
    refine and_congr_right fun hgoes => ih (balanced_next hb op) ?_
    have hstays := (staysLoaded_calls hb hpos op).mpr hgoes
    rw [os_next]
    exact hstays _ (List.prefix_refl _)

/-! ## The api -/

omit [DecidableEq H] in
/-- What `symbol` gives: the pointer of the system, or null and an error. -/
theorem symbol_cases (name : List Char) (dlsym : H → List Char → Option A) (h : H) :
    (∃ p, dlsym h name = some p ∧ DynLib.symbol (some name) dlsym ⟨some h⟩ = ({}, some p)) ∨
      ∃ ec, ec.isSet ∧ dlsym h name = none ∧
        DynLib.symbol (some name) dlsym ⟨some h⟩ = (ec, none) := by
  unfold DynLib.symbol DynLib.symbol_static
  cases hp : dlsym h name with
  | some p =>
    refine .inl ⟨p, rfl, ?_⟩
    simp only [hp]
    rfl
  | none =>
    refine .inr ⟨make_error_code dl_symbol_not_found, by decide, rfl, ?_⟩
    simp only [hp]
    rfl

omit [DecidableEq H] in
/-- The loader fills the api, or leaves an error; an object that is open then has no `find_ex`. -/
theorem loader_cases (lib : DynLib H) (out_api : SKL_I18N_C_API A)
    (dlsym : H → List Char → Option A) :
    (∃ h find_ex last_error, lib._handle = some h ∧
        dlsym h SKL_I18N_SYMBOL_FIND_EX = some find_ex ∧
        dlsym h SKL_I18N_SYMBOL_LAST_ERROR = some last_error ∧
        SKL_I18N_loader lib out_api dlsym = (true, {}, ⟨some find_ex, some last_error⟩)) ∨
      ∃ ec api, ec.isSet ∧ (lib.is_open → api.find_ex = none) ∧
        (∀ h, lib._handle = some h → dlsym h SKL_I18N_SYMBOL_FIND_EX = none ∨
          dlsym h SKL_I18N_SYMBOL_LAST_ERROR = none) ∧
        SKL_I18N_loader lib out_api dlsym = (false, ec, api) := by
  obtain ⟨_ | h⟩ := lib
  · exact .inr ⟨_, out_api, by decide, nofun, nofun, rfl⟩
  · unfold SKL_I18N_loader
    have hclear : error_code.isSet {} = false := rfl
    rcases symbol_cases SKL_I18N_SYMBOL_FIND_EX dlsym h with
      ⟨f, hf, hfind⟩ | ⟨ec, hec, hf, hfind⟩
    · rcases symbol_cases SKL_I18N_SYMBOL_LAST_ERROR dlsym h with
        ⟨g, hg, hlast⟩ | ⟨ec, hec, hg, hlast⟩
      · refine .inl ⟨h, f, g, rfl, hf, hg, ?_⟩
        simp only [hfind, hlast, hclear]
        rfl
      · refine .inr ⟨ec, ⟨none, none⟩, hec, fun _ => rfl, fun k hk => .inr ?_, ?_⟩
        · exact Option.some.inj hk ▸ hg
        · simp only [hfind, hlast, hclear, hec]
          rfl
    · refine .inr ⟨ec, { out_api with find_ex := none }, hec, fun _ => rfl,
        fun k hk => .inl ?_, ?_⟩
      · exact Option.some.inj hk ▸ hf
      · simp only [hfind, hec]
        rfl

end LearnNotes.Utils
