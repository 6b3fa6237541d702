import LearnNotes.Lib.Keyed
import LearnNotes.Graphics.ConfigFlush

/-!
# What the update policies do

A configuration list with distinct names is a map from names to parameters. `PolicyApplied`
says what a policy makes of that map, of the order of the names and of the flags; values agree
up to `operator==`. `policy_applied`: `set_config` does so under every policy but `replace`,
which takes the new list as it is. `keysAgree_iff`: calls keep the names distinct exactly where
`set_config(pname, value)` is called for names the list does not have and `replace` with lists
that repeat no name.
-/

namespace LearnNotes.Graphics

open Lib

variable {F : Type}

/-- The names of the entries, in order. -/
abbrev names (cfgs : List (TexConfig F)) : List GLenum := cfgs.map TexConfig.pname

namespace UpdateMode

/-- The entry whose parameter a name has after the policy. -/
def winner (policy : UpdateMode) (current incoming : List (TexConfig F)) (p : GLenum) :
    Option (TexConfig F) :=
  let find := Keyed.find TexConfig.pname
  let findLast := Keyed.findLast TexConfig.pname
  match policy with
  | .replace => find incoming p
  | .merge => (findLast incoming p).or (find current p)
  | .append => (find current p).or (find incoming p)
  | .update => if p ∈ names current then (findLast incoming p).or (find current p) else none
  | .remove => if p ∈ names incoming then none else find current p

/-- The names after it: new ones come behind, as they first occur. -/
def order (policy : UpdateMode) (current incoming : List (TexConfig F)) : List GLenum :=
  match policy with
  | .replace => names incoming
  | .merge | .append =>
    names current ++ ((names incoming).filter (· ∉ names current)).eraseDups
  | .update => names current
  | .remove => (names current).filter (· ∉ names incoming)

end UpdateMode

variable [BEq F]

/-- The parameters are the same, up to `operator==`. -/
def SameParam (c d : TexConfig F) : Prop := c.param = d.param ∨ c.param.eq d.param = true

/-- What a policy is to leave of `current`. `differs` tells when a parameter counts as changed. -/
structure PolicyApplied (differs : TexParam F → TexParam F → Prop) (policy : UpdateMode)
    (current incoming final : List (TexConfig F)) : Prop where
  params : ∀ p, Option.Rel SameParam (Keyed.find TexConfig.pname final p)
    (policy.winner current incoming p)
  order : names final = policy.order current incoming
  distinct : (names final).Nodup
  added : ∀ c ∈ final, c.pname ∉ names current → c.dirty = true
  changed : ∀ c ∈ final, ∀ o ∈ current, c.pname = o.pname → differs c.param o.param →
    c.dirty = true
  untouched : ∀ o ∈ current, o.pname ∉ names incoming → o ∈ final

/-! ## The updates are `put`s -/

/-- `if (it->param != newCfg.param) …` on the entry. -/
def TexConfig.overwrite (old newCfg : TexConfig F) : TexConfig F :=
  if old.param.eq newCfg.param then old else { old with param := newCfg.param, dirty := true }

variable {current incoming l : List (TexConfig F)} {policy : UpdateMode} {c o : TexConfig F}
  {p : GLenum}

theorem pname_overwrite (old newCfg : TexConfig F) :
    (old.overwrite newCfg).pname = old.pname := by
  unfold TexConfig.overwrite
  split <;> rfl

/-- An entry is left as it is, or marked. -/
theorem overwrite_eq_or_dirty (old newCfg : TexConfig F) :
    old.overwrite newCfg = old ∨ (old.overwrite newCfg).dirty = true := by
  unfold TexConfig.overwrite
  split
  · exact .inl rfl
  · exact .inr rfl

theorem overwrite_same (old newCfg : TexConfig F) :
    SameParam (old.overwrite newCfg) newCfg := by
  unfold TexConfig.overwrite
  split
  · next h => exact .inr h
  · exact .inl rfl

/-- At the entry `find_cfg_by_pname` gives. -/
theorem overwrite_fst {it : Nat} (newCfg : TexConfig F) (st : List (TexConfig F) × Bool)
    (h : find_cfg_by_pname st.1 newCfg.pname = some it) :
    (overwrite it newCfg st).1 = st.1.modify it (·.overwrite newCfg) := by
  obtain ⟨hlt, -, -⟩ := List.findIdx?_eq_some_iff_getElem.mp h
  have hold := List.getElem?_eq_getElem hlt
  rw [List.modify_eq_set_getElem?, hold]
  show (overwrite it newCfg st).1 = st.1.set it (st.1[it].overwrite newCfg)
  unfold overwrite TexConfig.overwrite
  rw [hold]
  dsimp only
  by_cases heq : st.1[it].param.eq newCfg.param
  · rw [if_pos heq, if_pos heq]
    exact (List.set_getElem_self hlt).symm
  · rw [if_neg heq, if_neg heq]

theorem merge_cfgs_eq (current incoming : List (TexConfig F)) (dirty : Bool) :
    (merge_cfgs current incoming dirty).1 =
      incoming.foldl (Keyed.put TexConfig.pname TexConfig.overwrite fun c => some c.marked)
        current := by
  refine (List.foldl_hom Prod.fst fun st newCfg => ?_).symm
  unfold merge_one Keyed.put
  cases hit : find_cfg_by_pname st.1 newCfg.pname with
  | none =>
    rw [show st.1.findIdx? (·.pname == newCfg.pname) = none from hit]
    rfl
  | some it =>
    rw [show st.1.findIdx? (·.pname == newCfg.pname) = some it from hit]
    exact (overwrite_fst newCfg st hit).symm

theorem update_cfgs_eq (current incoming : List (TexConfig F)) (dirty : Bool) :
    (update_cfgs current incoming dirty).1 =
      incoming.foldl (Keyed.put TexConfig.pname TexConfig.overwrite fun _ => none) current := by
  refine (List.foldl_hom Prod.fst fun st newCfg => ?_).symm
  unfold update_one Keyed.put
  cases hit : find_cfg_by_pname st.1 newCfg.pname with
  | none =>
    rw [show st.1.findIdx? (·.pname == newCfg.pname) = none from hit]
    exact List.append_nil _
  | some it =>
    rw [show st.1.findIdx? (·.pname == newCfg.pname) = some it from hit]
    exact (overwrite_fst newCfg st hit).symm

omit [BEq F] in
theorem append_cfgs_eq (current incoming : List (TexConfig F)) :
    append_cfgs current incoming =
      incoming.foldl (Keyed.put TexConfig.pname (fun e _ => e) fun c => some c.marked)
        current := by
  unfold append_cfgs
  congr 1
  funext l newCfg
  unfold append_one Keyed.put
  cases hit : l.findIdx? (·.pname == newCfg.pname) with
  | none =>
    rw [List.findIdx?_eq_none_iff] at hit
    rw [if_neg (by simpa using hit)]
    rfl
  | some it =>
    obtain ⟨hlt, heq, -⟩ := List.findIdx?_eq_some_iff_getElem.mp hit
    rw [if_pos (List.any_eq_true.mpr ⟨_, List.getElem_mem hlt, heq⟩)]
    exact (List.modify_id it l).symm

/-! ## The policies -/

omit [BEq F] in
theorem nodup_names_filter (hd : (names current).Nodup) (q : TexConfig F → Bool) :
    (names (current.filter q)).Nodup := hd.sublist (List.filter_sublist.map _)

theorem SameParam.refl (c : TexConfig F) : SameParam c c := .inl rfl

/-- An entry with what comes in for its name. -/
abbrev absorbed (incoming : List (TexConfig F)) (c : TexConfig F) : TexConfig F :=
  Keyed.absorb TexConfig.pname TexConfig.overwrite incoming c

theorem absorbed_eq_or_dirty (incoming : List (TexConfig F)) (c : TexConfig F) :
    absorbed incoming c = c ∨ (absorbed incoming c).dirty = true := by
  refine Keyed.absorb_keeps (P := fun e => e = c ∨ e.dirty = true) (fun e d he => ?_)
    (.inl rfl) incoming
  rcases overwrite_eq_or_dirty e d with hsame | hmark
  · rwa [hsame]
  · exact .inr hmark

omit [BEq F] in
theorem marked_pname (c : TexConfig F) : c.marked.pname = c.pname := rfl

/-- Each old entry, as it was or marked, and new entries that are marked. -/
structure Extends (current incoming : List (TexConfig F)) (f : TexConfig F → TexConfig F)
    (new final : List (TexConfig F)) : Prop where
  final_eq : final = current.map f ++ new
  pname : ∀ c, (f c).pname = c.pname
  eq_or_dirty : ∀ c, f c = c ∨ (f c).dirty = true
  frame : ∀ c, c.pname ∉ names incoming → f c = c
  marked : ∀ c ∈ new, c.dirty = true
  fresh : ∀ c ∈ new, c.pname ∉ names current

namespace Extends

variable {f : TexConfig F → TexConfig F} {new final : List (TexConfig F)}
  (h : Extends current incoming f new final)
include h

omit [BEq F] in
theorem mem_cases (hc : c ∈ final) : (∃ o ∈ current, f o = c) ∨ c ∈ new := by
  rw [h.final_eq, List.mem_append, List.mem_map] at hc
  exact hc

omit [BEq F] in
theorem added (hc : c ∈ final) (hnew : c.pname ∉ names current) : c.dirty = true := by
  rcases h.mem_cases hc with ⟨o, ho, rfl⟩ | hc
  · rw [h.pname] at hnew
    exact absurd (List.mem_map_of_mem ho) hnew
  · exact h.marked c hc

omit [BEq F] in
theorem changed (hd : (names current).Nodup) (hc : c ∈ final) (ho : o ∈ current)
    (hp : c.pname = o.pname) (hne : c.param ≠ o.param) : c.dirty = true := by
  rcases h.mem_cases hc with ⟨o', ho', rfl⟩ | hc
  · rw [h.pname] at hp
    obtain rfl : o' = o := List.inj_on_of_nodup_map hd ho' ho hp
    exact (h.eq_or_dirty o').resolve_left fun hsame => hne (congrArg TexConfig.param hsame)
  · exact absurd (hp ▸ List.mem_map_of_mem ho) (h.fresh c hc)

omit [BEq F] in
theorem untouched (ho : o ∈ current) (hp : o.pname ∉ names incoming) : o ∈ final := by
  rw [h.final_eq, List.mem_append]
  exact .inl (List.mem_map.mpr ⟨o, ho, h.frame o hp⟩)

/-- What is left to show of a policy is the map and the order. -/
theorem policyApplied (hd : (names current).Nodup)
    (hparams : ∀ p, Option.Rel SameParam (Keyed.find TexConfig.pname final p)
      (policy.winner current incoming p))
    (horder : names final = policy.order current incoming) (hdistinct : (names final).Nodup) :
    PolicyApplied (· ≠ ·) policy current incoming final where
  params := hparams
  order := horder
  distinct := hdistinct
  added _ hc := h.added hc
  changed _ hc _ ho := h.changed hd hc ho
  untouched _ ho := h.untouched ho

end Extends

omit [BEq F] in
theorem mem_fresh {hit : TexConfig F → TexConfig F → TexConfig F}
    (hhit : ∀ e c, (hit e c).pname = e.pname) :
    ∀ c ∈ Keyed.added TexConfig.pname hit TexConfig.marked (names current) incoming,
      c.pname ∉ names current := fun _ hc =>
  ((Keyed.mem_map_key_added hhit marked_pname).mp (List.mem_map_of_mem hc)).2

omit [BEq F] in
theorem dirty_added {hit : TexConfig F → TexConfig F → TexConfig F}
    (hhit : ∀ e c, e.dirty = true → (hit e c).dirty = true) (seen : List GLenum) :
    ∀ c ∈ Keyed.added TexConfig.pname hit TexConfig.marked seen incoming, c.dirty = true :=
  Keyed.added_forall (P := fun c => c.dirty = true) hhit (fun _ => rfl) seen incoming

theorem policyApplied_merge (hd : (names current).Nodup) (incoming : List (TexConfig F))
    (dirty : Bool) :
    PolicyApplied (· ≠ ·) .merge current incoming (merge_cfgs current incoming dirty).1 := by
  rw [merge_cfgs_eq, Keyed.foldl_put_some pname_overwrite marked_pname hd]
  refine Extends.policyApplied (f := absorbed incoming) ⟨rfl, ?_, ?_, ?_, ?_, ?_⟩ hd
    (fun p => ?_) ?_ ?_
  · exact Keyed.key_absorb pname_overwrite incoming
  · exact absorbed_eq_or_dirty incoming
  · exact fun c hc => Keyed.absorb_of_notMem hc
  · refine dirty_added (fun e d he => ?_) _
    rcases overwrite_eq_or_dirty e d with hsame | hmark
    · rwa [hsame]
    · exact hmark
  · exact mem_fresh pname_overwrite
  · exact Keyed.find_absorb_added pname_overwrite marked_pname overwrite_same SameParam.refl
      (fun _ => .inl rfl) current incoming
  · exact Keyed.map_key_absorb_added pname_overwrite marked_pname current incoming
  · exact Keyed.nodup_absorb_added pname_overwrite marked_pname hd incoming

theorem policyApplied_update (hd : (names current).Nodup) (incoming : List (TexConfig F))
    (dirty : Bool) :
    PolicyApplied (· ≠ ·) .update current incoming (update_cfgs current incoming dirty).1 := by
  have hnames : names (current.map (absorbed incoming)) = names current := by
    rw [names, List.map_map]
    exact List.map_congr_left fun c _ => Keyed.key_absorb pname_overwrite incoming c
  rw [update_cfgs_eq, Keyed.foldl_put_none pname_overwrite hd]
  have hextends : Extends current incoming (absorbed incoming) []
      (current.map (absorbed incoming)) := by
    refine ⟨(List.append_nil _).symm, ?_, ?_, ?_, ?_, ?_⟩
    · exact Keyed.key_absorb pname_overwrite incoming
    · exact absorbed_eq_or_dirty incoming
    · exact fun c hc => Keyed.absorb_of_notMem hc
    · exact fun c hc => by cases hc
    · exact fun c hc => by cases hc
  exact hextends.policyApplied hd
    (fun p => Keyed.find_absorb pname_overwrite overwrite_same SameParam.refl current incoming)
    hnames (hnames ▸ hd)

theorem policyApplied_append (hd : (names current).Nodup) (incoming : List (TexConfig F)) :
    PolicyApplied (· ≠ ·) .append current incoming (append_cfgs current incoming) := by
  have hhit : ∀ e c : TexConfig F, ((fun e _ => e) e c : TexConfig F).pname = e.pname :=
    fun _ _ => rfl
  have hkeep : ∀ c, Keyed.absorb TexConfig.pname (fun e _ => e) incoming c = c :=
    Keyed.absorb_of_keeps (fun _ _ => rfl) incoming
  rw [append_cfgs_eq, Keyed.foldl_put_some hhit marked_pname hd]
  refine Extends.policyApplied ⟨rfl, ?_, ?_, ?_, ?_, ?_⟩ hd (fun p => ?_) ?_ ?_
  · exact fun c => congrArg TexConfig.pname (hkeep c)
  · exact fun c => .inl (hkeep c)
  · exact fun c _ => hkeep c
  · exact dirty_added (fun _ _ he => he) _
  · exact mem_fresh hhit
  · rw [Keyed.find_append, Keyed.find_map (fun c => congrArg TexConfig.pname (hkeep c))]
    show Option.Rel SameParam _ ((Keyed.find TexConfig.pname current p).or _)
    cases hc : Keyed.find TexConfig.pname current p with
    | none =>
      rw [Keyed.find_added_first hhit marked_pname (fun _ _ => rfl) (Keyed.find_eq_none.mp hc)]
      cases Keyed.find TexConfig.pname incoming p with
      | none => exact .none
      | some c => exact .some (.inl rfl)
    | some c => exact .some (.inl (congrArg TexConfig.param (hkeep c)))
  · exact Keyed.map_key_absorb_added hhit marked_pname current incoming
  · exact Keyed.nodup_absorb_added hhit marked_pname hd incoming

theorem policyApplied_remove (hd : (names current).Nodup) (incoming : List (TexConfig F)) :
    PolicyApplied (· ≠ ·) .remove current incoming (remove_cfgs current incoming) := by
  have hfilter : remove_cfgs current incoming =
      current.filter fun c => decide (c.pname ∉ names incoming) := by
    unfold remove_cfgs
    congr 1
    funext c
    rw [decide_not, ← List.contains_eq_mem]
  have hmem : ∀ {c}, c ∈ remove_cfgs current incoming ↔ c ∈ current ∧ c.pname ∉ names incoming := by
    intro c
    rw [hfilter, List.mem_filter, decide_eq_true_iff]
  refine {
    params := fun p => ?_
    order := ?_
    distinct := nodup_names_filter hd _
    added := fun c hc hnew => absurd (List.mem_map_of_mem (hmem.mp hc).1) hnew
    changed := fun c hc o ho hp hne => ?_
    untouched := fun o ho hp => hmem.mpr ⟨ho, hp⟩ }
  · rw [hfilter, Keyed.find_filter (fun p => decide (p ∉ names incoming))]
    show Option.Rel SameParam _ (if p ∈ names incoming then none else _)
    by_cases hp : p ∈ names incoming
    · rw [if_pos hp, if_neg (by simpa using hp)]
      exact .none
    · rw [if_neg hp, if_pos (by simpa using hp)]
      cases Keyed.find TexConfig.pname current p with
      | none => exact .none
      | some c => exact .some (.inl rfl)
  · show names (remove_cfgs current incoming) = (names current).filter _
    rw [hfilter, names, names, List.filter_map]
    rfl
  · obtain rfl : c = o := List.inj_on_of_nodup_map hd (hmem.mp hc).1 ho hp
    exact absurd rfl hne

/-- An empty list changes nothing under these policies, so that the early return of `set_config`
is none of a policy's business. -/
theorem set_config_cfgs (t : Texture2D F) (hp : policy ≠ .replace) (incoming : List (TexConfig F)) :
    (t.set_config incoming policy).cfgs = (switch_cfgs policy t.cfgs incoming t.dirty).1 := by
  unfold Texture2D.set_config
  split
  · next hnil =>
    subst hnil
    cases policy with
    | replace => exact absurd rfl hp
    | remove => simp [switch_cfgs, remove_cfgs]
    | _ => rfl
  · rfl

theorem policyApplied_switch (hd : (names current).Nodup) (hp : policy ≠ .replace)
    (incoming : List (TexConfig F)) (dirty : Bool) :
    PolicyApplied (· ≠ ·) policy current incoming
      (switch_cfgs policy current incoming dirty).1 := by
  cases policy with
  | replace => exact absurd rfl hp
  | merge => exact policyApplied_merge hd incoming dirty
  | append => exact policyApplied_append hd incoming
  | update => exact policyApplied_update hd incoming dirty
  | remove => exact policyApplied_remove hd incoming

/-- **Main.** On distinct names every policy but `replace` is applied to the map, keeps the order
and marks what it adds and what it changes. -/
theorem policy_applied (t : Texture2D F) (hd : (names t.cfgs).Nodup) (hp : policy ≠ .replace)
    (incoming : List (TexConfig F)) :
    PolicyApplied (· ≠ ·) policy t.cfgs incoming (t.set_config incoming policy).cfgs := by
  rw [set_config_cfgs t hp]
  exact policyApplied_switch hd hp incoming t.dirty

/-- A texture with both wrap modes set. -/
def wrapped : Texture2D Nat :=
  ⟨{}, [⟨.I1 GL_REPEAT, GL_TEXTURE_WRAP_S, false⟩, ⟨.I1 GL_REPEAT, GL_TEXTURE_WRAP_T, false⟩],
    false, SIZE_T_MAX⟩

theorem policy_applied_wrapped :
    PolicyApplied (· ≠ ·) .merge wrapped.cfgs [⟨.I1 GL_LINEAR, GL_TEXTURE_MAG_FILTER, false⟩]
      (wrapped.set_config [⟨.I1 GL_LINEAR, GL_TEXTURE_MAG_FILTER, false⟩] .merge).cfgs :=
  policy_applied wrapped (by decide) (by decide) _

/-- Numbers and a NaN, compared the way floats are. -/
inductive OrNaN where
  | num (n : Nat)
  | nan

instance : BEq OrNaN where
  beq
    | .num m, .num n => m == n
    | _, _ => false

/-- A border colour with a NaN in it differs from itself, and is not marked where it stays. -/
theorem nan_not_marked :
    ¬ PolicyApplied (fun a b => a.eq b = false) .append
      [(⟨.F4 #v[.nan, .num 0, .num 0, .num 1], GL_TEXTURE_BORDER_COLOR, false⟩ : TexConfig OrNaN)]
      [⟨.I1 GL_REPEAT, GL_TEXTURE_WRAP_S, false⟩]
      (Texture2D.set_config [⟨.I1 GL_REPEAT, GL_TEXTURE_WRAP_S, false⟩] .append
        ⟨{}, [⟨.F4 #v[.nan, .num 0, .num 0, .num 1], GL_TEXTURE_BORDER_COLOR, false⟩], false,
          SIZE_T_MAX⟩).cfgs := fun h => by
  have hmark := h.changed _ List.mem_cons_self _ List.mem_cons_self rfl rfl
  cases hmark

/-! ## Distinct names -/

/-- The names are distinct, and the entry a name finds is the one whose parameter `update()`
sends last. -/
structure KeysAgree (cfgs : List (TexConfig F)) : Prop where
  distinct : (names cfgs).Nodup
  agree : ∀ p it c, find_cfg_by_pname cfgs p = some it → cfgs[it]? = some c → ∀ params,
    (flush (cfgs.map TexConfig.marked) params).2 p = applied p c.param

/-- What a call needs to keep the names distinct. -/
def KeepsKeys (s : Configured F) : ConfigCall F → Prop
  | .set_config1 pname _ => pname ∉ names s.texture.cfgs
  | .set_config cfgs .replace => (names cfgs).Nodup
  | _ => True

omit [BEq F] in
/-- With distinct names there is one entry that a name can mean. -/
theorem keysAgree_of_nodup (hd : (names l).Nodup) : KeysAgree l where
  distinct := hd
  agree p it c hit hc params := by
    obtain ⟨hlt, heq, -⟩ := List.findIdx?_eq_some_iff_getElem.mp hit
    obtain ⟨_, rfl⟩ := List.getElem?_eq_some_iff.mp hc
    obtain rfl : l[it].pname = p := by simpa using heq
    have hmem : l[it] ∈ l := List.getElem_mem hlt
    obtain ⟨e, he, hp, -, hv⟩ := flush_params_of_dirty (p := l[it].pname) params
      ⟨l[it].marked, List.mem_map_of_mem hmem, rfl, rfl⟩
    obtain ⟨o, ho, rfl⟩ := List.mem_map.mp he
    obtain rfl : o = l[it] := List.inj_on_of_nodup_map hd ho hmem hp
    exact hv

variable {tex : texture_t} {params : Params F} {s : Configured F}

/-- One call. -/
theorem nodup_next_iff (hd : (names s.texture.cfgs).Nodup) (call : ConfigCall F) :
    (names ((configurator tex params).next s call).texture.cfgs).Nodup ↔ KeepsKeys s call := by
  cases call with
  | set_config1 pname value =>
    have hnames : names ((configurator tex params).next s (.set_config1 pname value)).texture.cfgs =
        names s.texture.cfgs ++ [pname] := List.map_append
    rw [hnames, ← List.concat_eq_append, List.nodup_concat]
    exact and_iff_left hd
  | set_config cfgs policy =>
    show (names (s.texture.set_config cfgs policy).cfgs).Nodup ↔ _
    by_cases hp : policy = .replace
    · subst hp
      show _ ↔ (names cfgs).Nodup
      by_cases hnil : cfgs = []
      · subst hnil
        exact iff_of_true hd List.nodup_nil
      · have hcfgs : names (s.texture.set_config cfgs .replace).cfgs = names cfgs := by
          unfold Texture2D.set_config
          rw [if_neg hnil]
          exact List.map_map
        rw [hcfgs]
    · rw [set_config_cfgs s.texture hp]
      refine iff_of_true (policyApplied_switch hd hp cfgs s.texture.dirty).distinct ?_
      cases policy with
      | replace => exact absurd rfl hp
      | _ => trivial
  | update =>
    refine iff_of_true ?_ trivial
    show (names (if s.texture.needsUpdate then _ else _ : Unit × Configured F).2.texture.cfgs).Nodup
    split
    · have hnames : names (flush s.texture.cfgs s.params).1 = names s.texture.cfgs := by
        rw [flush_cfgs, names, List.map_map]
        rfl
      exact hnames ▸ hd
    · exact hd

/-- **Exactly when the keys stay distinct.** -/
theorem keysAgree_iff (tex : texture_t) (params : Params F) (calls : List (ConfigCall F)) :
    ((configurator tex params).EveryState calls fun s => KeysAgree s.texture.cfgs) ↔
      (configurator tex params).EveryStep calls KeepsKeys :=
  Machine.everyState_iff_guard (keysAgree_of_nodup List.nodup_nil) fun _ call h =>
    ⟨fun h' => (nodup_next_iff h.distinct call).mp h'.distinct,
      fun hg => keysAgree_of_nodup ((nodup_next_iff h.distinct call).mpr hg)⟩

/-- A wrap mode is set, and set again. -/
theorem set_twice :
    ¬ (configurator {} initialParams).EveryState
      [.set_config1 GL_TEXTURE_WRAP_S (.I1 GL_REPEAT),
        .set_config1 GL_TEXTURE_WRAP_S (.I1 GL_CLAMP_TO_EDGE)]
      fun s => KeysAgree s.texture.cfgs := fun h => by
  have hd := h.last.distinct
  revert hd
  decide

end LearnNotes.Graphics
