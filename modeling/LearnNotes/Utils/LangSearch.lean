import LearnNotes.Lib.SortUnique
import LearnNotes.Utils.Lang

/-!
# Where the language package comes from

`runtime_lang`, `search_roots` and `candidate_language_files` of `utils/lang.cpp`: the language from
the environment, the directories from the working directory and the one of the executable upward,
and in each of them the file of the language before the common one. The directories are sorted, and
a directory comes before those below it: so `global_i18n_loader` takes the package that is nearest
to the root of the tree, not the one nearest to the program, and ends the process where it meets a
file it may not ask about on the way: `loader_least`.

A character is a byte. A directory is absolute and normal, as `getcwd` and `/proc/self/exe` give
it: the names on the way to it.
-/

namespace LearnNotes.Utils

open Lib

abbrev Text := List Char

/-! ## The language -/

def zh_CN : Text := ['z', 'h', '-', 'C', 'N']

/-- `std::tolower` of a byte. -/
def tolower (c : Char) : Char := c.toLower

def normalize_lang (lang : Text) : Text :=
  if lang = [] then zh_CN
  else
    let value := lang.map fun c => if c = '_' then '-' else c
    let lower := value.map tolower
    if ['z', 'h'].isPrefixOf lower then zh_CN else value

/-- What `std::getenv` gives. -/
structure Env where
  SKL_LANG : Option Text
  LANG : Option Text

/-- `runtime_lang`; an empty variable counts as none. -/
def runtime_lang (env : Env) : Text :=
  match env.SKL_LANG.filter (· ≠ []), env.LANG.filter (· ≠ []) with
  | some explicit_lang, _ => normalize_lang explicit_lang
  | none, some raw => normalize_lang (raw.takeWhile (· ≠ '.'))
  | none, none => zh_CN

/-- A language is normal: not empty, without `_`, and one spelling for every `zh`. -/
theorem normalize_lang_normal (lang : Text) :
    normalize_lang lang ≠ [] ∧ '_' ∉ normalize_lang lang ∧
      normalize_lang (normalize_lang lang) = normalize_lang lang := by
  have hzh : normalize_lang zh_CN = zh_CN := by decide
  by_cases hnil : lang = []
  · rw [normalize_lang, if_pos hnil, hzh]
    exact ⟨by decide, by decide, rfl⟩
  · obtain ⟨value, hvalue⟩ : ∃ value, value = lang.map fun c => if c = '_' then '-' else c :=
      ⟨_, rfl⟩
    have hmem : '_' ∉ value := by
      rw [hvalue, List.mem_map]
      rintro ⟨c, -, hc⟩
      split at hc
      · revert hc
        decide
      · contradiction
    have hself : (value.map fun c => if c = '_' then '-' else c) = value := by
      refine (List.map_congr_left fun c hc => ?_).trans (List.map_id _)
      refine if_neg fun h => hmem ?_
      rwa [← h]
    have hne : value ≠ [] := by
      rw [hvalue]
      exact fun h => hnil (List.map_eq_nil_iff.mp h)
    have hnorm : normalize_lang lang =
        if ['z', 'h'].isPrefixOf (value.map tolower) then zh_CN else value := by
      rw [normalize_lang, if_neg hnil, hvalue]
    rw [hnorm]
    split
    · rw [hzh]
      exact ⟨by decide, by decide, rfl⟩
    · next hprefix =>
      refine ⟨hne, hmem, ?_⟩
      rw [normalize_lang, if_neg hne]
      dsimp only
      rw [hself, if_neg hprefix]

/-! ## The directories -/

/-- The names from the root. -/
abbrev Dir := List Text

/-- The inner loop: `p` and up to `n - 1` directories above it. -/
def climb : Nat → Dir → List Dir
  | 0, _ => []
  | n + 1, p => p :: if p = [] then [] else climb n p.dropLast

/-- `search_roots`; `exe_dir` is what `exedir` writes, if it does and if that is not empty, and
`cwd` what `current_path` returns. -/
def search_roots (cwd : Dir) (exe_dir : Option Dir) : List Dir :=
  SortUnique.sortUnique ((cwd :: exe_dir.toList).flatMap (climb 8))

theorem mem_climb {n : Nat} {p r : Dir} :
    r ∈ climb n p ↔ r <+: p ∧ p.length < r.length + n := by
  induction n generalizing p with
  | zero =>
    refine iff_of_false (by simp [climb]) ?_
    rintro ⟨hr, hlt⟩
    have := hr.length_le
    omega
  | succ n ih =>
    rw [climb, List.mem_cons]
    by_cases hp : p = []
    · subst hp
      rw [if_pos rfl, List.prefix_nil]
      simp
    · rw [if_neg hp, ih]
      have hlen := List.length_pos_iff.mpr hp
      constructor
      · rintro (rfl | ⟨hr, hlt⟩)
        · exact ⟨List.prefix_refl _, by omega⟩
        · rw [List.length_dropLast] at hlt
          exact ⟨hr.trans (List.dropLast_prefix p), by omega⟩
      · rintro ⟨hr, hlt⟩
        rcases eq_or_ne r p with rfl | hne
        · exact .inl rfl
        · refine .inr ⟨?_, by rw [List.length_dropLast]; omega⟩
          -- a shorter prefix is one of the list without its last
          have hle : r.length ≤ p.dropLast.length := by
            have hr' := hr.length_le
            have : r.length ≠ p.length := fun h => hne (hr.eq_of_length h)
            rw [List.length_dropLast]
            omega
          exact List.prefix_of_prefix_length_le hr (List.dropLast_prefix p) hle

/-- **The directories searched**: each once, in increasing order, those up to seven levels above
the working directory and the executable. -/
theorem mem_search_roots {cwd : Dir} {exe_dir : Option Dir} {r : Dir} :
    r ∈ search_roots cwd exe_dir ↔
      ∃ d, (d = cwd ∨ exe_dir = some d) ∧ r <+: d ∧ d.length < r.length + 8 := by
  unfold search_roots
  simp only [SortUnique.mem_sortUnique, List.mem_flatMap, List.mem_cons, Option.mem_toList,
    mem_climb]

/-! ## The files -/

def resources : Text := "resources".toList
def language : Text := "language".toList
def debug : Text := "debug".toList

/-- `r / "resources/language/debug" / name`. -/
def inRoot (r : Dir) (name : Text) : String :=
  String.ofList ('/' :: ['/'].intercalate (r ++ [resources, language, debug, name]))

/-- `"error_" + lang + ".json"`. -/
def errorFile (lang : Text) : Text := "error_".toList ++ lang ++ ".json".toList

def commonFile : Text := "error.json".toList

def candidate_language_files (lang : Text) (roots : List Dir) : List String :=
  roots.flatMap fun r => [inRoot r (errorFile lang), inRoot r commonFile]

/-- What `global_i18n_loader` comes to in a process: a loader, or the end of it. `current_path` may
throw (`none`), as `exists` may. -/
def startup (disk : FileSystem) (env : Env) (cwd exe_dir : Option Dir) : Option I18NLoader :=
  cwd.bind fun cwd =>
    global_i18n_loader disk
      (candidate_language_files (runtime_lang env) (search_roots cwd exe_dir))

/-- A candidate: its directory, and whether it is the language's own. -/
structure Candidate where
  root : Dir
  own : Bool

namespace Candidate

def path (lang : Text) (c : Candidate) : String :=
  inRoot c.root (if c.own then errorFile lang else commonFile)

/-- Which of two candidates is tried first. -/
def Before (c c' : Candidate) : Prop :=
  c.root < c'.root ∨ c.root = c'.root ∧ c.own = true ∧ c'.own = false

/-- The candidates in their order. -/
def all (roots : List Dir) : List Candidate := roots.flatMap fun r => [⟨r, true⟩, ⟨r, false⟩]

theorem map_path (lang : Text) (roots : List Dir) :
    (all roots).map (path lang) = candidate_language_files lang roots := by
  unfold all candidate_language_files
  rw [List.map_flatMap]
  rfl

theorem mem_all {roots : List Dir} {c : Candidate} : c ∈ all roots ↔ c.root ∈ roots := by
  unfold all
  rw [List.mem_flatMap]
  constructor
  · rintro ⟨r, hr, hc⟩
    simp only [List.mem_cons, List.not_mem_nil, or_false] at hc
    rcases hc with rfl | rfl <;> exact hr
  · intro hr
    refine ⟨c.root, hr, ?_⟩
    obtain ⟨r, own⟩ := c
    cases own <;> simp

theorem pairwise_all {roots : List Dir} (h : roots.Pairwise (· < ·)) :
    (all roots).Pairwise Before := by
  induction roots with
  | nil => exact List.Pairwise.nil
  | cons r roots ih =>
    obtain ⟨hr, htail⟩ := List.pairwise_cons.mp h
    have hcons : all (r :: roots) = ⟨r, true⟩ :: ⟨r, false⟩ :: all roots := rfl
    have hbelow : ∀ own, ∀ c ∈ all roots, Before ⟨r, own⟩ c :=
      fun own c hc => .inl (hr c.root (mem_all.mp hc))
    rw [hcons]
    refine List.pairwise_cons.mpr ⟨fun c hc => ?_,
      List.pairwise_cons.mpr ⟨hbelow false, ih htail⟩⟩
    rcases List.mem_cons.mp hc with rfl | hc
    · exact .inr ⟨rfl, rfl, rfl⟩
    · exact hbelow true c hc

theorem Before.asymm {c c' : Candidate} (h : Before c c') : ¬ Before c' c := by
  rintro (hlt' | ⟨heq', hown', -⟩)
  · rcases h with hlt | ⟨heq, -, -⟩
    · exact lt_asymm hlt hlt'
    · exact lt_irrefl _ (heq ▸ hlt')
  · rcases h with hlt | ⟨-, -, hown⟩
    · exact lt_irrefl _ (heq' ▸ hlt)
    · rw [hown] at hown'
      cases hown'

/-- A directory comes before those below it. -/
theorem before_of_above {c c' : Candidate} (h : c.root <+: c'.root) (hne : c.root ≠ c'.root) :
    Before c c' := by
  have hle : ¬ c'.root < c.root := List.not_lt.mpr h.le
  exact .inl (lt_of_le_of_ne (not_lt.mp hle) hne)

/-- The candidate's file is there and makes a loader. -/
def Loads (disk : FileSystem) (lang : Text) (c : Candidate) : Prop :=
  disk.is_there (c.path lang) = some true ∧
    (I18NLoader.new disk.files (c.path lang)).2.loaded = true

/-- `exists` throws for the candidate's file. -/
def Throws (disk : FileSystem) (lang : Text) (c : Candidate) : Prop :=
  disk.is_there (c.path lang) = none

theorem Loads.not_throws {disk : FileSystem} {lang : Text} {c : Candidate}
    (h : c.Loads disk lang) : ¬ c.Throws disk lang := fun hthrows => by
  have hthere := h.1
  rw [hthrows] at hthere
  cases hthere

end Candidate

/-! ## The package taken -/

section Loader

variable {disk : FileSystem} {lang : Text} {roots : List Dir}

/-- What ends the loop at a candidate, if anything does: a loader, or an exception. -/
def tried (disk : FileSystem) (file : String) : Option (Option I18NLoader) :=
  match disk.is_there file with
  | none => some none
  | some false => none
  | some true =>
    let try_loader := (I18NLoader.new disk.files file).2
    if try_loader.loaded then some (some try_loader) else none

theorem tried_eq_some_iff {c : Candidate} {loader : I18NLoader} :
    tried disk (c.path lang) = some (some loader) ↔
      c.Loads disk lang ∧ loader = (I18NLoader.new disk.files (c.path lang)).2 := by
  unfold tried Candidate.Loads
  cases disk.is_there (c.path lang) with
  | none => simp
  | some there =>
    cases there with
    | false => simp
    | true =>
      cases hloaded : (I18NLoader.new disk.files (c.path lang)).2.loaded with
      | false => simp [hloaded]
      | true => simp [hloaded, eq_comm]

theorem tried_eq_throws_iff {c : Candidate} :
    tried disk (c.path lang) = some none ↔ c.Throws disk lang := by
  unfold tried Candidate.Throws
  cases disk.is_there (c.path lang) with
  | none => simp
  | some there =>
    cases there with
    | false => simp
    | true => cases hloaded : (I18NLoader.new disk.files (c.path lang)).2.loaded <;> simp [hloaded]

theorem global_i18n_loader_eq (candidates : List String) :
    global_i18n_loader disk candidates =
      (candidates.findSome? (tried disk)).getD (some (I18NLoader.new disk.files "").2) := by
  induction candidates with
  | nil => rfl
  | cons file candidates ih =>
    rw [global_i18n_loader, List.findSome?_cons]
    unfold tried at ih ⊢
    cases disk.is_there file with
    | none => rfl
    | some there =>
      cases there with
      | false => exact ih
      | true =>
        dsimp only
        split
        · rfl
        · exact ih

/-- The fallback of `global_i18n_loader` is not loaded. -/
theorem loaded_empty : (I18NLoader.new disk.files "").2.loaded = false := rfl

/-- The candidate is the first of those the loop stops at. -/
def Candidate.First (disk : FileSystem) (lang : Text) (roots : List Dir) (c : Candidate) : Prop :=
  c.root ∈ roots ∧ ∀ c' : Candidate, c'.root ∈ roots → c'.Loads disk lang ∨ c'.Throws disk lang →
    c' = c ∨ c.Before c'

/-- What the loop comes to. -/
inductive Taken (disk : FileSystem) (lang : Text) (roots : List Dir) : Option I18NLoader → Prop
  | loads {c : Candidate} (hfirst : c.First disk lang roots) (hloads : c.Loads disk lang) :
      Taken disk lang roots (some (I18NLoader.new disk.files (c.path lang)).2)
  | throws {c : Candidate} (hfirst : c.First disk lang roots) (hthrows : c.Throws disk lang) :
      Taken disk lang roots none
  | nothing (hnone : ∀ c : Candidate, c.root ∈ roots →
        ¬ (c.Loads disk lang ∨ c.Throws disk lang)) :
      Taken disk lang roots (some (I18NLoader.new disk.files "").2)

theorem tried_ne_none_of {c : Candidate} (h : c.Loads disk lang ∨ c.Throws disk lang) :
    tried disk (c.path lang) ≠ none := by
  rcases h with hloads | hthrows
  · rw [tried_eq_some_iff.mpr ⟨hloads, rfl⟩]
    exact Option.some_ne_none _
  · rw [tried_eq_throws_iff.mpr hthrows]
    exact Option.some_ne_none _

theorem taken (hroots : roots.Pairwise (· < ·)) :
    Taken disk lang roots (global_i18n_loader disk (candidate_language_files lang roots)) := by
  rw [global_i18n_loader_eq, ← Candidate.map_path, List.findSome?_map]
  cases hfound : (Candidate.all roots).findSome? (tried disk ∘ Candidate.path lang) with
  | none =>
    exact .nothing fun c hc hstops => tried_ne_none_of hstops
      (List.findSome?_eq_none_iff.mp hfound c (Candidate.mem_all.mpr hc))
  | some stop =>
    obtain ⟨c, hc, htried, hleast⟩ := findSome?_least (Candidate.pairwise_all hroots) hfound
    have hfirst : c.First disk lang roots := ⟨Candidate.mem_all.mp hc, fun c' hc' hstops =>
      hleast c' (Candidate.mem_all.mpr hc') (tried_ne_none_of hstops)⟩
    cases stop with
    | none => exact .throws hfirst (tried_eq_throws_iff.mp htried)
    | some loader =>
      obtain ⟨hloads, rfl⟩ := tried_eq_some_iff.mp htried
      exact .loads hfirst hloads

end Loader

end LearnNotes.Utils
