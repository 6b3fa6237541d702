import LearnNotes.Graphics.Mesh

/-!
# The loop of `Draw`

Where `TextureUnit::_activePos` is GL's active unit and every texture has its unit in the
table, the loop of `Mesh2D::Draw` is two independent folds over the resolved textures:
`activated` on the shared state and `setUnit` on the uniforms. The first leaves each
texture bound on its unit (`binding_activated`), the second writes the `k`-th diffuse and
the `k`-th specular unit to the uniform numbered `k`, as long as the 32-bit counters do not
wrap (`uniforms_numbered`, `uniforms_wrapped`).
-/

namespace LearnNotes.Graphics

open Memory

variable {F : Type}

/-- `_activePos`, when set, is GL's active unit. -/
def Statics.Synced (s : Statics F) : Prop :=
  s.unitMgr.activePos ≠ SIZE_T_MAX → s.gl.active = s.unitMgr.activePos

/-! ## Activations -/

/-- What `activate()` does to a synced state, for a texture with its unit in the table. -/
def Statics.activated (s : Statics F) (t : Texture2D F) : Statics F :=
  { s with
    unitMgr := { s.unitMgr with activePos := t.unitPos }
    gl := (s.gl.glActiveTexture t.unitPos).glBindTexture t.tex.ID }

theorem synced_activated (s : Statics F) (t : Texture2D F) : (s.activated t).Synced := fun _ => rfl

/-- The texture's unit is one of the table's and taken. -/
structure Texture2D.HasUnit (t : Texture2D F) (u : TextureUnit) : Prop where
  lt : t.unitPos < u.maxUnits
  ne_max : t.unitPos ≠ SIZE_T_MAX
  taken : u.unit t.unitPos ≠ 0

theorem activate_eq {s : Statics F} {t : Texture2D F} (hs : s.Synced) (ht : t.HasUnit s.unitMgr) :
    t.activate s = (none, s.activated t) := by
  unfold Texture2D.activate TextureUnit.activate
  rw [if_neg (not_le.mpr ht.lt)]
  by_cases hp : s.unitMgr.activePos = t.unitPos
  · -- the unit is active already
    have hact : s.gl.active = t.unitPos := (hs (by rw [hp]; exact ht.ne_max)).trans hp
    have hgl : s.gl.glActiveTexture t.unitPos = s.gl := by
      unfold GLState.glActiveTexture
      rw [← hact]
    have htab : { s.unitMgr with activePos := t.unitPos } = s.unitMgr := by rw [← hp]
    rw [if_pos (.inl hp)]
    unfold Statics.activated
    rw [hgl, htab]
  · rw [if_neg (not_or.mpr ⟨hp, ht.taken⟩)]
    rfl

theorem activate_error {s : Statics F} {t : Texture2D F} (h : ¬ t.unitPos < s.unitMgr.maxUnits) :
    t.activate s = (some .invalid_argument, s) := by
  unfold Texture2D.activate TextureUnit.activate
  rw [if_pos (not_lt.mp h)]

theorem foldl_activated_append (ts : List (Texture2D F)) (t : Texture2D F) (s : Statics F) :
    (ts ++ [t]).foldl Statics.activated s = (ts.foldl Statics.activated s).activated t := by
  rw [List.foldl_append]
  rfl

theorem binding_activated_append (ts : List (Texture2D F)) (t : Texture2D F) (s : Statics F) :
    ((ts ++ [t]).foldl Statics.activated s).gl.binding =
      Function.update (ts.foldl Statics.activated s).gl.binding t.unitPos t.tex.ID := by
  rw [foldl_activated_append]
  rfl

/-- A unit none of the textures has keeps its binding. -/
theorem binding_other {ts : List (Texture2D F)} {u : Nat} (s : Statics F)
    (h : ∀ t ∈ ts, t.unitPos ≠ u) :
    (ts.foldl Statics.activated s).gl.binding u = s.gl.binding u := by
  induction ts using List.reverseRecOn with
  | nil => rfl
  | append_singleton ts t ih =>
    have hne : u ≠ t.unitPos := Ne.symm (h t (by simp))
    rw [binding_activated_append, Function.update_of_ne hne]
    exact ih fun t' ht' => h t' (List.mem_append_left _ ht')

/-- Each texture ends bound on its unit. -/
theorem binding_activated {ts : List (Texture2D F)} {t : Texture2D F} (s : Statics F)
    (hone : ∀ t ∈ ts, ∀ t' ∈ ts, t.unitPos = t'.unitPos → t.tex.ID = t'.tex.ID) (ht : t ∈ ts) :
    (ts.foldl Statics.activated s).gl.binding t.unitPos = t.tex.ID := by
  induction ts using List.reverseRecOn with
  | nil => cases ht
  | append_singleton ts t' ih =>
    rw [binding_activated_append]
    by_cases hu : t.unitPos = t'.unitPos
    · rw [hu, Function.update_self]
      exact hone t' (by simp) t ht hu.symm
    · have hts : t ∈ ts := by
        rcases List.mem_append.mp ht with hts | hts
        · exact hts
        · exact absurd (by rw [List.mem_singleton.mp hts]) hu
      rw [Function.update_of_ne hu]
      refine ih (fun a ha b hb => ?_) hts
      exact hone a (List.mem_append_left _ ha) b (List.mem_append_left _ hb)

/-! ## Uniforms -/

/-- The two kinds of texture `Draw` numbers. -/
inductive Sampler where
  | diffuse
  | specular
  deriving DecidableEq

instance : Fintype Sampler where
  elems := {.diffuse, .specular}
  complete K := by cases K <;> decide

namespace Sampler

def texName : Sampler → String
  | diffuse => "texture_diffuse"
  | specular => "texture_specular"

def uniform : Sampler → Nat → String
  | diffuse => Mesh2D.diffuseName
  | specular => Mesh2D.specularName

theorem diffuseName_ne_specularName (k k' : Nat) :
    Mesh2D.diffuseName k ≠ Mesh2D.specularName k' := by
  intro h
  -- the names differ at the tenth character
  have hlist := congrArg (fun s => s.toList.take 10) h
  unfold Mesh2D.diffuseName Mesh2D.specularName at hlist
  simp only [String.toList_append] at hlist
  rw [List.take_append_of_le_length (by decide), List.take_append_of_le_length (by decide)] at hlist
  exact absurd hlist (by decide)

theorem uniform_inj {K K' : Sampler} {k k' : Nat} (h : K.uniform k = K'.uniform k') :
    K = K' ∧ k = k' := by
  cases K <;> cases K'
  · exact ⟨rfl, Nat.repr_inj.mp ((String.append_right_inj _).mp h)⟩
  · exact absurd h (diffuseName_ne_specularName k k')
  · exact absurd h.symm (diffuseName_ne_specularName k' k)
  · exact ⟨rfl, Nat.repr_inj.mp ((String.append_right_inj _).mp h)⟩

/-- The textures of a kind, in list order. -/
def among (K : Sampler) (ts : List (Texture2D F)) : List (Texture2D F) :=
  ts.filter fun t => t.tex.name = K.texName

theorem among_append (K : Sampler) (ts : List (Texture2D F)) (t : Texture2D F) :
    K.among (ts ++ [t]) = K.among ts ++ if t.tex.name = K.texName then [t] else [] := by
  unfold among
  rw [List.filter_append]
  by_cases h : t.tex.name = K.texName <;> simp [h]

/-- One of a kind is an earlier one or the one appended. -/
theorem among_append_cases {K : Sampler} {ts : List (Texture2D F)} {t t' : Texture2D F} {k : Nat}
    (h : (K.among (ts ++ [t']))[k]? = some t) :
    (k < (K.among ts).length ∧ (K.among ts)[k]? = some t) ∨
      (t'.tex.name = K.texName ∧ k = (K.among ts).length ∧ t' = t) := by
  rw [among_append] at h
  by_cases hk : k < (K.among ts).length
  · rw [List.getElem?_append_left hk] at h
    exact .inl ⟨hk, h⟩
  · rw [List.getElem?_append_right (not_lt.mp hk)] at h
    split at h
    · next hname =>
      obtain ⟨h0, heq⟩ := List.getElem?_eq_some_iff.mp h
      have hk0 : k - (K.among ts).length = 0 := Nat.lt_one_iff.mp h0
      rw [List.getElem_singleton] at heq
      exact .inr ⟨hname, by omega, heq⟩
    · cases h

end Sampler

/-- The counter of a kind. -/
def Drawing.nr (d : Drawing F) : Sampler → UInt32
  | .diffuse => d.diffuseNr
  | .specular => d.specularNr

open Mesh2D

theorem setUnit_uniforms (t : Texture2D F) (d : Drawing F) (K : Sampler)
    (h : t.tex.name = K.texName) :
    (setUnit t d).uniforms =
      Function.update d.uniforms (K.uniform (d.nr K).toNat) (some t.unitPos) := by
  unfold setUnit
  cases K with
  | diffuse =>
    have h : t.tex.name = "texture_diffuse" := h
    rw [if_pos h]
    rfl
  | specular =>
    have h : t.tex.name = "texture_specular" := h
    have hne : t.tex.name ≠ "texture_diffuse" := by
      rw [h]
      decide
    rw [if_neg hne, if_pos h]
    rfl

theorem setUnit_nr (t : Texture2D F) (d : Drawing F) (K : Sampler) :
    (setUnit t d).nr K = if t.tex.name = K.texName then d.nr K + 1 else d.nr K := by
  unfold setUnit
  by_cases hd : t.tex.name = "texture_diffuse"
  · rw [if_pos hd, hd]
    cases K <;> simp [Drawing.nr, Sampler.texName]
  · rw [if_neg hd]
    by_cases hs : t.tex.name = "texture_specular"
    · rw [if_pos hs, hs]
      cases K <;> simp [Drawing.nr, Sampler.texName]
    · rw [if_neg hs]
      cases K <;> simp [Sampler.texName, hd, hs]

theorem setUnit_other (t : Texture2D F) (d : Drawing F)
    (h : ∀ K : Sampler, t.tex.name ≠ K.texName) :
    (setUnit t d).uniforms = d.uniforms := by
  have hd : t.tex.name ≠ "texture_diffuse" := h .diffuse
  have hs : t.tex.name ≠ "texture_specular" := h .specular
  unfold setUnit
  rw [if_neg hd, if_neg hs]

/-- The uniforms after the textures `ts`. -/
def numbered (ts : List (Texture2D F)) (d : Drawing F) : Drawing F :=
  ts.foldl (fun d t => setUnit t d) d

theorem numbered_append (ts : List (Texture2D F)) (t : Texture2D F) (d : Drawing F) :
    numbered (ts ++ [t]) d = setUnit t (numbered ts d) := by
  unfold numbered
  rw [List.foldl_append]
  rfl

variable {d : Drawing F}

theorem numbered_nr (h1 : ∀ K, d.nr K = 1) (ts : List (Texture2D F)) (K : Sampler) :
    (numbered ts d).nr K = UInt32.ofNat ((K.among ts).length + 1) := by
  induction ts using List.reverseRecOn with
  | nil => exact h1 K
  | append_singleton ts t ih =>
    rw [numbered_append, setUnit_nr, ih, Sampler.among_append]
    split
    · rw [List.length_append, List.length_singleton, UInt32.ofNat_add ((K.among ts).length + 1)]
      rfl
    · rw [List.append_nil]

theorem numbered_nr_toNat (h1 : ∀ K, d.nr K = 1) {ts : List (Texture2D F)} {K : Sampler}
    (hlt : (K.among ts).length + 1 < 2 ^ 32) :
    ((numbered ts d).nr K).toNat = (K.among ts).length + 1 := by
  rw [numbered_nr h1]
  exact UInt32.toNat_ofNat_of_lt' hlt

/-- **Numbering.** The `k`-th texture of a kind has its unit in the uniform numbered `k`. -/
theorem uniforms_numbered (h1 : ∀ K, d.nr K = 1) {ts : List (Texture2D F)} {K : Sampler}
    (hlt : ∀ K : Sampler, (K.among ts).length < 2 ^ 32) {k : Nat} {t : Texture2D F}
    (ht : (K.among ts)[k]? = some t) :
    (numbered ts d).uniforms (K.uniform (k + 1)) = some t.unitPos := by
  induction ts using List.reverseRecOn with
  | nil => cases ht
  | append_singleton ts t' ih =>
    have hle : ∀ K : Sampler, (K.among ts).length < 2 ^ 32 := fun K => by
      have h := hlt K
      rw [Sampler.among_append, List.length_append] at h
      omega
    have hnr : ∀ K : Sampler, t'.tex.name = K.texName →
        ((numbered ts d).nr K).toNat = (K.among ts).length + 1 := fun K hK => by
      refine numbered_nr_toNat h1 ?_
      have h := hlt K
      rwa [Sampler.among_append, if_pos hK, List.length_append] at h
    rw [numbered_append]
    rcases Sampler.among_append_cases ht with ⟨hk, hold⟩ | ⟨hK, rfl, rfl⟩
    · by_cases hkind : ∃ K' : Sampler, t'.tex.name = K'.texName
      · -- the uniform of an earlier texture is not the one written now
        obtain ⟨K', hK'⟩ := hkind
        have hne : K.uniform (k + 1) ≠ K'.uniform ((K'.among ts).length + 1) := by
          intro he
          obtain ⟨rfl, hk'⟩ := Sampler.uniform_inj he
          omega
        rw [setUnit_uniforms t' _ K' hK', hnr K' hK', Function.update_of_ne hne]
        exact ih hle hold
      · rw [setUnit_other _ _ fun K h => hkind ⟨K, h⟩]
        exact ih hle hold
    · rw [setUnit_uniforms t' _ K hK, hnr K hK, Function.update_self]

/-- No uniform numbered from 2 ^ 32 on is ever written. -/
theorem uniforms_wrapped (h0 : d.uniforms = fun _ => none) (ts : List (Texture2D F)) (K : Sampler)
    {k : Nat} (hk : 2 ^ 32 ≤ k) : (numbered ts d).uniforms (K.uniform k) = none := by
  induction ts using List.reverseRecOn with
  | nil =>
    show d.uniforms _ = none
    rw [h0]
  | append_singleton ts t ih =>
    rw [numbered_append]
    by_cases hkind : ∃ K' : Sampler, t.tex.name = K'.texName
    · obtain ⟨K', hK'⟩ := hkind
      rw [setUnit_uniforms t _ K' hK', Function.update_of_ne, ih]
      intro he
      have hlt := ((numbered ts d).nr K').toNat_lt
      have := (Sampler.uniform_inj he).2
      omega
    · rw [setUnit_other _ _ fun K h => hkind ⟨K, h⟩]
      exact ih

/-! ## The whole loop -/

/-- Every handle resolves to a texture whose unit position `activate()` accepts. -/
def Drawable (get : Handle → Option (Texture2D F)) (u : TextureUnit) (hs : List Handle) : Prop :=
  ∀ h ∈ hs, ∃ t ∈ get h, t.unitPos < u.maxUnits

instance (get : Handle → Option (Texture2D F)) (u : TextureUnit) (hs : List Handle) :
    Decidable (Drawable get u hs) :=
  inferInstanceAs (Decidable (∀ h ∈ hs, ∃ t ∈ get h, t.unitPos < u.maxUnits))

/-- What a drawable loop computes. -/
def looped (ts : List (Texture2D F)) (d : Drawing F) : Drawing F :=
  { numbered ts d with statics := ts.foldl Statics.activated d.statics }

/-- Numbering does not read the shared state. -/
theorem setUnit_with (t : Texture2D F) (d : Drawing F) (s : Statics F) :
    setUnit t { d with statics := s } = { setUnit t d with statics := s } := by
  unfold setUnit
  split_ifs <;> rfl

theorem numbered_with (ts : List (Texture2D F)) (d : Drawing F) (s : Statics F) :
    numbered ts { d with statics := s } = { numbered ts d with statics := s } := by
  induction ts generalizing d with
  | nil => rfl
  | cons t ts ih =>
    show numbered ts (setUnit t { d with statics := s }) = _
    rw [setUnit_with, ih]
    rfl

theorem looped_cons (t : Texture2D F) (ts : List (Texture2D F)) (d : Drawing F) :
    looped (t :: ts) d =
      looped ts (setUnit t { d with statics := d.statics.activated t }) := by
  rw [setUnit_with]
  unfold looped
  rw [numbered_with ts (setUnit t d)]
  rfl

theorem synced_setUnit (t : Texture2D F) (d : Drawing F) :
    (setUnit t { d with statics := d.statics.activated t }).statics.Synced := by
  rw [setUnit_statics]
  exact synced_activated _ _

/-- The rest of the list keeps its units: the table is the same but for `_activePos`. -/
theorem units_setUnit {get : Handle → Option (Texture2D F)} {h : Handle} {hs : List Handle}
    {d : Drawing F} (t : Texture2D F)
    (hunit : ∀ h' ∈ h :: hs, ∀ t', get h' = some t' → t'.unitPos < d.statics.unitMgr.maxUnits →
      t'.HasUnit d.statics.unitMgr) :
    let d' := setUnit t { d with statics := d.statics.activated t }
    ∀ h' ∈ hs, ∀ t', get h' = some t' → t'.unitPos < d'.statics.unitMgr.maxUnits →
      t'.HasUnit d'.statics.unitMgr := by
  intro d'
  have hd' : d'.statics = d.statics.activated t := setUnit_statics ..
  rw [hd']
  intro h' hh' t' ht' hlt'
  obtain ⟨hlt, hne, htaken⟩ := hunit h' (List.mem_cons_of_mem _ hh') t' ht' hlt'
  exact ⟨hlt, hne, htaken⟩

theorem drawTextures_eq {get : Handle → Option (Texture2D F)} {hs : List Handle} {d : Drawing F}
    (hd : Drawable get d.statics.unitMgr hs) (hsync : d.statics.Synced)
    (hunit : ∀ h ∈ hs, ∀ t, get h = some t → t.unitPos < d.statics.unitMgr.maxUnits →
      t.HasUnit d.statics.unitMgr) :
    drawTextures get hs d = (none, looped (hs.filterMap get) d) := by
  induction hs generalizing d with
  | nil => rfl
  | cons h hs ih =>
    obtain ⟨t, ht, hlt⟩ := hd h List.mem_cons_self
    have hget : get h = some t := Option.mem_def.mp ht
    have hact := activate_eq hsync (hunit h List.mem_cons_self t hget hlt)
    unfold drawTextures
    simp only [hget, hact]
    rw [List.filterMap_cons_some hget, looped_cons]
    refine ih ?_ (synced_setUnit t d) (units_setUnit t hunit)
    rw [setUnit_statics]
    exact fun h' hh' => hd h' (List.mem_cons_of_mem _ hh')

/-- Where the loop fails, some texture did not resolve or has no unit; the state stays synced. -/
theorem drawTextures_error {get : Handle → Option (Texture2D F)} {hs : List Handle} {d : Drawing F}
    (hd : ¬ Drawable get d.statics.unitMgr hs) (hsync : d.statics.Synced)
    (hunit : ∀ h ∈ hs, ∀ t, get h = some t → t.unitPos < d.statics.unitMgr.maxUnits →
      t.HasUnit d.statics.unitMgr) :
    (drawTextures get hs d).1 = some .invalid_argument ∧
      (drawTextures get hs d).2.statics.Synced := by
  induction hs generalizing d with
  | nil => exact absurd (fun h hh => by cases hh) hd
  | cons h hs ih =>
    unfold drawTextures
    cases hget : get h with
    | none => exact ⟨rfl, hsync⟩
    | some t =>
      dsimp only
      by_cases hlt : t.unitPos < d.statics.unitMgr.maxUnits
      · simp only [activate_eq hsync (hunit h List.mem_cons_self t hget hlt)]
        refine ih ?_ (synced_setUnit t d) (units_setUnit t hunit)
        rw [setUnit_statics]
        intro hrest
        refine hd fun h' hh' => ?_
        rcases List.mem_cons.mp hh' with rfl | hh'
        · exact ⟨t, hget, hlt⟩
        · exact hrest h' hh'
      · simp only [activate_error hlt]
        exact ⟨trivial, hsync⟩

end LearnNotes.Graphics
