import LearnNotes.Graphics.Methods
import LearnNotes.Lib.Ownership

/-!
# Who owns a texture unit

`UnitsOwned` is the two-way agreement of `TextureUnit::_units` with the `_unitPos` of the
live textures: `Lib.Owned`, read off the world. Construction, move construction,
destruction and every method keep it but for two calls: move assignment onto a texture
that has a unit drops that unit without a release, and `acquire` on a moved-from texture
takes a unit for name 0, which the table reads as free. `unitsOwned_iff`: a run keeps
ownership exactly when it makes neither call.
-/

namespace LearnNotes.Graphics

open Lib World

variable {F : Type}

/-! ## The unit table -/

namespace TextureUnit

/-- The table has an entry for each unit, and positions are no `SIZE_T_MAX`. -/
structure Sized (u : TextureUnit) : Prop where
  length_units : u.units.length = u.maxUnits
  maxUnits_lt : u.maxUnits < 2 ^ 31

variable {u : TextureUnit} {TexID : GLuint} {pos : Nat}

theorem Sized.ne_max (h : u.Sized) (hp : pos < u.units.length) : pos ≠ SIZE_T_MAX := by
  have h1 := h.length_units
  have h2 := h.maxUnits_lt
  unfold SIZE_T_MAX
  omega

theorem lt_of_unit_ne_zero (h : u.unit pos ≠ 0) : pos < u.units.length := by
  by_contra hp
  exact h (by simp [unit, List.getElem?_eq_none (not_lt.mp hp)])

/-- The units a request for `pos` can get are all taken. -/
def Refuses (u : TextureUnit) (pos : Nat) : Prop :=
  ∀ k < u.maxUnits, pos = SIZE_T_MAX ∨ pos = k → u.unit k ≠ 0

instance (u : TextureUnit) (pos : Nat) : Decidable (u.Refuses pos) :=
  inferInstanceAs (Decidable (∀ k < u.maxUnits, _ → _))

/-- `acquire` fails and changes nothing, or takes a free unit; it can only fail where the
request is refused or comes from a name. -/
theorem acquire_cases (h : u.Sized) (TexID : GLuint) (pos : Nat) :
    (∃ e p, u.acquire TexID pos = (some e, p, u) ∧ (TexID = 0 → u.Refuses pos)) ∨
      ∃ it < u.units.length, u.unit it = 0 ∧ (pos = SIZE_T_MAX ∨ pos = it) ∧
        u.acquire TexID pos = (none, it, { u with units := u.units.set it TexID }) := by
  unfold acquire
  split
  · next hne =>
    split
    · next hge =>
      exact .inl ⟨_, _, rfl, fun _ k hk hpos => by omega⟩
    · next hlt =>
      split
      · next hmis =>
        refine .inl ⟨_, _, rfl, fun h0 k hk hpos => ?_⟩
        obtain rfl : pos = k := hpos.resolve_left hne
        subst h0
        exact or_self_iff.mp hmis
      · next hmis =>
        have hlen := h.length_units
        exact .inr ⟨pos, by omega, by tauto, .inr rfl, rfl⟩
  · next hmax =>
    have hmax : pos = SIZE_T_MAX := not_not.mp hmax
    split
    · next hnone =>
      refine .inl ⟨_, _, rfl, fun _ k hk _ h0 => ?_⟩
      rw [List.findIdx?_eq_none_iff] at hnone
      have hlen := h.length_units
      have hk' : k < u.units.length := by omega
      have := hnone u.units[k] (List.getElem_mem hk')
      simp [unit, hk'] at h0
      simp [h0] at this
    · next it hit =>
      rw [List.findIdx?_eq_some_iff_getElem] at hit
      obtain ⟨hlt, h0, -⟩ := hit
      exact .inr ⟨it, hlt, by simpa [unit, hlt] using h0, .inl hmax, rfl⟩

/-- The taken units, with the names that take them. -/
def taken (u : TextureUnit) (pos : Nat) : Option GLuint :=
  if u.unit pos = 0 then none else some (u.unit pos)

theorem taken_eq_some {n : GLuint} : u.taken pos = some n ↔ u.unit pos = n ∧ n ≠ 0 := by
  unfold taken
  split
  · next h => simp [h, eq_comm]
  · next h =>
    simp only [Option.some.injEq]
    exact ⟨fun e => ⟨e, e ▸ h⟩, And.left⟩

theorem taken_eq_none : u.taken pos = none ↔ u.unit pos = 0 := by
  unfold taken
  split <;> simp_all

theorem unit_set (hp : pos < u.units.length) (k : Nat) (a : Nat) :
    ({ u with units := u.units.set pos TexID, activePos := a } : TextureUnit).unit k =
      if k = pos then TexID else u.unit k := by
  unfold unit
  by_cases hk : k = pos
  · subst hk
    simp [hp]
  · simp [hk, List.getElem?_set_ne (Ne.symm hk)]

theorem taken_set (hp : pos < u.units.length) (h0 : TexID ≠ 0) (a : Nat) :
    ({ u with units := u.units.set pos TexID, activePos := a } : TextureUnit).taken =
      Function.update u.taken pos (some TexID) := by
  funext k
  unfold taken
  rw [unit_set hp]
  by_cases hk : k = pos
  · subst hk
    simp [h0]
  · simp [hk]

theorem taken_clear (hp : pos < u.units.length) (a : Nat) :
    ({ u with units := u.units.set pos 0, activePos := a } : TextureUnit).taken =
      Function.update u.taken pos none := by
  funext k
  unfold taken
  rw [unit_set hp]
  by_cases hk : k = pos
  · subst hk
    simp
  · simp [hk]

theorem taken_congr {u' : TextureUnit} (h : u'.units = u.units) : u'.taken = u.taken := by
  unfold taken unit
  rw [h]

theorem Sized.of_eq {u' : TextureUnit} (h : u.Sized) (hl : u'.units.length = u.units.length)
    (hm : u'.maxUnits = u.maxUnits) : u'.Sized :=
  ⟨by rw [hl, hm, h.length_units], by rw [hm]; exact h.maxUnits_lt⟩

theorem Sized.release (h : u.Sized) (pos : Nat) : (u.release pos).2.Sized := by
  unfold TextureUnit.release
  split
  · exact h
  · exact h.of_eq (List.length_set ..) rfl

end TextureUnit

/-! ## Ownership -/

/-- The unit table of a world. -/
abbrev World.table (w : World F) : TextureUnit := w.statics.unitMgr

/-- The live texture `i` has the unit `pos`. -/
def World.Holds (w : World F) (i pos : Nat) : Prop :=
  ∃ t, w.tex i = some t ∧ t.unitPos = pos ∧ pos ≠ SIZE_T_MAX

structure UnitsOwned (w : World F) : Prop where
  /-- The unit of a live texture is recorded under the texture's name. -/
  recorded : ∀ i t, w.tex i = some t → t.unitPos ≠ SIZE_T_MAX →
    w.table.unit t.unitPos = t.tex.ID ∧ t.tex.ID ≠ 0
  exclusive : ∀ i j pos, w.Holds i pos → w.Holds j pos → i = j
  noLeak : ∀ pos, w.table.unit pos ≠ 0 → ∃! i, w.Holds i pos

/-- The unit a texture has, and its name. -/
def held (t : Option (Texture2D F)) : Option (Nat × GLuint) :=
  t.bind fun t => if t.unitPos = SIZE_T_MAX then none else some (t.unitPos, t.tex.ID)

@[simp] theorem held_none : held (none : Option (Texture2D F)) = none := rfl

theorem held_free {t : Texture2D F} (h : t.unitPos = SIZE_T_MAX) : held (some t) = none := by
  simp [held, h]

@[simp] theorem held_movedFrom : held (some (Texture2D.movedFrom : Texture2D F)) = none :=
  held_free rfl

theorem held_some {t : Texture2D F} (h : t.unitPos ≠ SIZE_T_MAX) :
    held (some t) = some (t.unitPos, t.tex.ID) := by
  simp [held, h]

theorem held_eq_some {o : Option (Texture2D F)} {pos : Nat} {n : GLuint} :
    held o = some (pos, n) ↔
      ∃ t, o = some t ∧ t.unitPos = pos ∧ pos ≠ SIZE_T_MAX ∧ t.tex.ID = n := by
  cases o with
  | none => simp
  | some t =>
    by_cases h : t.unitPos = SIZE_T_MAX
    · rw [held_free h]
      simp only [reduceCtorEq, Option.some.injEq, false_iff]
      rintro ⟨_, rfl, rfl, hne, -⟩
      exact hne h
    · rw [held_some h]
      simp only [Option.some.injEq, Prod.mk.injEq, exists_eq_left']
      constructor
      · rintro ⟨rfl, rfl⟩
        exact ⟨rfl, h, rfl⟩
      · rintro ⟨rfl, -, rfl⟩
        exact ⟨rfl, rfl⟩

theorem holds_iff {w : World F} {i pos : Nat} :
    w.Holds i pos ↔ ∃ n, held (w.tex i) = some (pos, n) := by
  simp only [held_eq_some, Holds]
  constructor
  · rintro ⟨t, ht, hp, hne⟩
    exact ⟨_, t, ht, hp, hne, rfl⟩
  · rintro ⟨n, t, ht, hp, hne, -⟩
    exact ⟨t, ht, hp, hne⟩

/-- Ownership of units is the general one, between the table and the live textures. -/
theorem unitsOwned_iff_owned {w : World F} :
    UnitsOwned w ↔ Owned w.table.taken (held ∘ w.tex) := by
  constructor
  · intro h
    refine ⟨fun {i pos n} hi => ?_, fun {i j pos n m} hi hj => ?_, fun {pos n} hp => ?_⟩
    · obtain ⟨t, ht, rfl, hne, rfl⟩ := held_eq_some.mp hi
      exact TextureUnit.taken_eq_some.mpr (h.recorded i t ht hne)
    · exact h.exclusive i j pos (holds_iff.mpr ⟨n, hi⟩) (holds_iff.mpr ⟨m, hj⟩)
    · obtain ⟨rfl, hne⟩ := TextureUnit.taken_eq_some.mp hp
      obtain ⟨i, ⟨t, ht, rfl, hmax⟩, -⟩ := h.noLeak pos hne
      have hrec := (h.recorded i t ht hmax).1
      exact ⟨i, held_eq_some.mpr ⟨t, ht, rfl, hmax, hrec.symm⟩⟩
  · intro h
    refine ⟨fun i t ht hne => ?_, fun i j pos hi hj => ?_, fun pos hpos => ?_⟩
    · exact TextureUnit.taken_eq_some.mp
        (h.sound (held_eq_some.mpr ⟨t, ht, rfl, hne, rfl⟩))
    · obtain ⟨n, hi⟩ := holds_iff.mp hi
      obtain ⟨m, hj⟩ := holds_iff.mp hj
      exact h.inj hi hj
    · simp only [holds_iff]
      exact h.existsUnique (TextureUnit.taken_eq_some.mpr ⟨rfl, hpos⟩)

/-! ## One operation -/

/-- What ownership needs of a call: move assignment goes to a texture without a unit, and a
nameless texture's request is refused. -/
def KeepsUnits (w : World F) : Op F → Prop
  | .moveAssign dst src =>
    ∀ o t, w.tex src = some o → w.tex dst = some t → t.unitPos = SIZE_T_MAX
  | .call i (.acquire pos) =>
    ∀ t, w.tex i = some t → t.unitPos = SIZE_T_MAX → t.tex.ID = 0 → w.table.Refuses pos
  | _ => True

theorem keepsUnits_moveAssign {w : World F} {dst src : Nat} :
    KeepsUnits w (.moveAssign dst src) ↔
      ∀ o t, w.tex src = some o → w.tex dst = some t → t.unitPos = SIZE_T_MAX := Iff.rfl

theorem keepsUnits_acquire {w : World F} {i pos : Nat} :
    KeepsUnits w (.call i (.acquire pos)) ↔
      ∀ t, w.tex i = some t → t.unitPos = SIZE_T_MAX → t.tex.ID = 0 → w.table.Refuses pos :=
  Iff.rfl

/-- An operation that leaves the objects' units and the table alone. -/
structure UnitFrame (w w' : World F) : Prop where
  units : w'.table.units = w.table.units
  maxUnits : w'.table.maxUnits = w.table.maxUnits
  held : held ∘ w'.tex = held ∘ w.tex

theorem UnitFrame.unitsOwned {w w' : World F} (h : UnitFrame w w') :
    UnitsOwned w' ↔ UnitsOwned w := by
  rw [unitsOwned_iff_owned, unitsOwned_iff_owned, h.held, TextureUnit.taken_congr h.units]

section Steps

variable [BEq F] {maxUnits : Fin (2 ^ 31)} {w : World F}

omit [BEq F] in
theorem held_congr {t t' : Texture2D F} (hp : t'.unitPos = t.unitPos)
    (hid : t'.tex.ID = t.tex.ID) : held (some t') = held (some t) := by
  simp [held, hp, hid]

theorem frame_call {i : Nat} (m : Method F) (hm : ∀ pos, m ≠ .acquire pos) :
    UnitFrame w ((world F maxUnits).next w (.call i m)) := by
  cases ht : w.tex i with
  | none => rw [next_call_dead w m ht]; exact ⟨rfl, rfl, rfl⟩
  | some t =>
    obtain ⟨hu, hmax⟩ := run_units t w.statics hm
    obtain ⟨hid, hpos⟩ := run_texture t w.statics hm
    refine ⟨?_, ?_, ?_⟩
    · rw [next_call w m ht]
      exact hu
    · rw [next_call w m ht]
      exact hmax
    · rw [tex_next_call w m ht, Function.comp_update, held_congr hpos hid, ← ht]
      exact Function.update_eq_self i (held ∘ w.tex)

theorem frame_draw (get : Memory.Handle → Option Memory.Ptr) (mesh : Mesh2D) :
    UnitFrame w ((world F maxUnits).next w (.draw get mesh)) := by
  obtain ⟨hu, hm, -⟩ := draw_frame (w.resolve get) mesh w.statics
  exact ⟨hu, hm, rfl⟩

theorem frame_construct (args : Option PathArgs) (n : GLuint) :
    UnitFrame w ((world F maxUnits).next w (.construct args n)) := by
  rw [next_construct]
  by_cases hn : n = 0 ∨ n ∈ w.statics.gl.names
  · rw [construct_of_used args hn]
    exact ⟨rfl, rfl, rfl⟩
  · refine ⟨by rw [construct_of_fresh args hn], by rw [construct_of_fresh args hn], ?_⟩
    rw [tex_construct args hn, Function.comp_update, held_free rfl, ← held_none (F := F),
      ← tex_length (w := w)]
    exact Function.update_eq_self _ (held ∘ w.tex)

omit [BEq F] in
/-- `acquire` by a texture without a unit: refused, or a free unit goes to it. -/
theorem texture_acquire_cases (h : w.table.Sized) {t : Texture2D F} (ht : t.unitPos = SIZE_T_MAX)
    (pos : Nat) :
    (∃ e, t.acquire pos w.statics = (some e, t, w.statics) ∧
        (t.tex.ID = 0 → w.table.Refuses pos)) ∨
      ∃ it < w.table.units.length, w.table.unit it = 0 ∧ (pos = SIZE_T_MAX ∨ pos = it) ∧
        t.acquire pos w.statics = (none, { t with unitPos := it }, { w.statics with
          unitMgr := { w.table with units := w.table.units.set it t.tex.ID } }) := by
  unfold Texture2D.acquire
  rw [if_pos ht]
  rcases TextureUnit.acquire_cases h t.tex.ID pos with ⟨e, p, he, hr⟩ | ⟨it, hlt, h0, hpos, he⟩
  · rw [he]
    exact .inl ⟨e, rfl, hr⟩
  · rw [he]
    exact .inr ⟨it, hlt, h0, hpos, rfl⟩

omit [BEq F] in
theorem sized_acquire (h : w.table.Sized) (t : Texture2D F) (pos : Nat) :
    (t.acquire pos w.statics).2.2.unitMgr.Sized := by
  by_cases hmax : t.unitPos = SIZE_T_MAX
  · rcases texture_acquire_cases h hmax pos with ⟨e, he, -⟩ | ⟨it, -, -, -, he⟩
    · rw [he]
      exact h
    · rw [he]
      exact h.of_eq (List.length_set ..) rfl
  · unfold Texture2D.acquire
    rw [if_neg hmax]
    exact h

/-- An `acquire` that is refused, or has a unit already, changes nothing. -/
theorem frame_acquire {i pos : Nat} {t : Texture2D F} {e : Option errc} (ht : w.tex i = some t)
    (he : t.acquire pos w.statics = (e, t, w.statics)) :
    UnitFrame w ((world F maxUnits).next w (.call i (.acquire pos))) := by
  have htex : ((world F maxUnits).next w (.call i (.acquire pos))).tex = _ :=
    tex_next_call w (.acquire pos) ht
  have hnext : (world F maxUnits).next w (.call i (.acquire pos)) = _ :=
    next_call w (.acquire pos) ht
  rw [Method.run_acquire, he] at htex hnext
  refine ⟨by rw [hnext], by rw [hnext], ?_⟩
  rw [htex, ← ht, Function.update_eq_self]

omit [BEq F] in
theorem not_refuses {it pos : Nat} (h : w.table.Sized) (hlt : it < w.table.units.length)
    (h0 : w.table.unit it = 0) (hpos : pos = SIZE_T_MAX ∨ pos = it) : ¬ w.table.Refuses pos :=
  fun hr => hr it (by rw [← h.length_units]; exact hlt) hpos h0

theorem unitsOwned_acquire (hz : w.table.Sized) (h : UnitsOwned w) (i pos : Nat) :
    UnitsOwned ((world F maxUnits).next w (.call i (.acquire pos))) ↔
      KeepsUnits w (.call i (.acquire pos)) := by
  rw [keepsUnits_acquire]
  cases ht : w.tex i with
  | none =>
    rw [next_call_dead w _ ht]
    exact iff_of_true h fun t ht' => by cases ht'
  | some t =>
    simp only [Option.some.injEq, forall_eq']
    have hself : ((world F maxUnits).next w (.call i (.acquire pos))).tex = _ :=
      tex_next_call w (.acquire pos) ht
    have hnext : (world F maxUnits).next w (.call i (.acquire pos)) = _ :=
      next_call w (.acquire pos) ht
    rw [Method.run_acquire] at hself hnext
    by_cases hmax : t.unitPos = SIZE_T_MAX
    · simp only [hmax, forall_const]
      rcases texture_acquire_cases hz hmax pos with ⟨e, he, hr⟩ | ⟨it, hlt, h0, hpos, he⟩
      · exact iff_of_true ((frame_acquire ht he).unitsOwned.mpr h) hr
      · rw [he] at hself hnext
        have hit := hz.ne_max hlt
        constructor
        · -- a nameless texture with a unit is not owned
          intro h' hid
          exact absurd hid (h'.recorded i { t with unitPos := it }
            (by rw [hself, Function.update_self]) hit).2
        · intro hr
          have hid : t.tex.ID ≠ 0 := fun hid => not_refuses hz hlt h0 hpos (hr hid)
          rw [unitsOwned_iff_owned] at h ⊢
          rw [hself, hnext, Function.comp_update, held_some hit]
          show Owned (TextureUnit.taken { w.table with units := w.table.units.set it t.tex.ID }) _
          rw [TextureUnit.taken_set hlt hid]
          exact h.grant (by rw [Function.comp_apply, ht, held_free hmax])
            (TextureUnit.taken_eq_none.mpr h0)
    · -- it has a unit already
      have he : t.acquire pos w.statics = (none, t, w.statics) := by
        unfold Texture2D.acquire
        rw [if_neg hmax]
      exact iff_of_true ((frame_acquire ht he).unitsOwned.mpr h) fun e => absurd e hmax

omit [BEq F] in
theorem unitsOwned_moveConstruct (h : UnitsOwned w) (src : Nat) :
    UnitsOwned (w.moveConstruct src) := by
  cases ho : w.tex src with
  | none =>
    unfold World.moveConstruct
    rw [ho]
    exact h
  | some o =>
    have hne : src ≠ w.objs.length := Nat.ne_of_lt (lt_of_tex ho)
    rw [unitsOwned_iff_owned] at h ⊢
    rw [World.table, moveConstruct_statics, tex_moveConstruct ho, Function.comp_update,
      Function.comp_update, Function.update_comm hne, held_movedFrom, ← ho]
    exact h.transfer hne (by rw [Function.comp_apply, tex_length, held_none])

omit [BEq F] in
/-- Move assignment keeps ownership exactly where the target had no unit: one it had stays
recorded and belongs to nobody. -/
theorem unitsOwned_moveAssign (h : UnitsOwned w) {dst src : Nat} {o t : Texture2D F}
    (hs : w.tex src = some o) (hd : w.tex dst = some t) :
    UnitsOwned (w.moveAssign dst src) ↔ t.unitPos = SIZE_T_MAX := by
  rw [unitsOwned_iff_owned] at h ⊢
  rw [World.table, moveAssign_statics]
  by_cases hne : dst = src
  · subst hne
    obtain rfl : o = t := Option.some.inj (hs.symm.trans hd)
    rw [tex_moveAssign_self hs, Function.comp_update, held_free rfl]
    by_cases ht : o.unitPos = SIZE_T_MAX
    · have hnone : (held ∘ w.tex) dst = none := by rw [Function.comp_apply, hs, held_free ht]
      rw [← hnone, Function.update_eq_self]
      exact iff_of_true h ht
    · have hold : (held ∘ w.tex) dst = some (o.unitPos, o.tex.ID) := by
        rw [Function.comp_apply, hs, held_some ht]
      refine iff_of_false (h.not_owned_of_forgotten hold ?_) ht
      · intro l b hl
        by_cases hld : l = dst
        · rw [hld, Function.update_self] at hl
          cases hl
        · rw [Function.update_of_ne hld] at hl
          exact ⟨l, hld, b, hl⟩
  · rw [tex_moveAssign hs hd hne, Function.comp_update, Function.comp_update, held_movedFrom, ← hs]
    by_cases ht : t.unitPos = SIZE_T_MAX
    · have hfree : (held ∘ w.tex) dst = none := by rw [Function.comp_apply, hd, held_free ht]
      exact iff_of_true (h.transfer (Ne.symm hne) hfree) ht
    · have hold : (held ∘ w.tex) dst = some (t.unitPos, t.tex.ID) := by
        rw [Function.comp_apply, hd, held_some ht]
      refine iff_of_false (h.not_owned_of_forgotten hold ?_) ht
      · intro l b hl
        by_cases hls : l = src
        · rw [hls, Function.update_self] at hl
          cases hl
        · rw [Function.update_of_ne hls] at hl
          by_cases hld : l = dst
          · rw [hld, Function.update_self] at hl
            exact ⟨src, Ne.symm hne, b, hl⟩
          · rw [Function.update_of_ne hld] at hl
            exact ⟨l, hld, b, hl⟩

omit [BEq F] in
theorem unitsOwned_destroy (hz : w.table.Sized) (h : UnitsOwned w) (i : Nat) :
    UnitsOwned (w.destroy i) := by
  cases ht : w.tex i with
  | none => rw [destroy_dead ht]; exact h
  | some t =>
    have hrec := h.recorded i t ht
    rw [unitsOwned_iff_owned] at h ⊢
    rw [World.table, destroy_statics ht, destroy_table, tex_destroy ht, Function.comp_update,
      held_none]
    by_cases hmax : t.unitPos = SIZE_T_MAX
    · have hnone : (held ∘ w.tex) i = none := by rw [Function.comp_apply, ht, held_free hmax]
      rw [if_neg (not_not.mpr hmax), ← hnone, Function.update_eq_self]
      exact h
    · obtain ⟨hunit, hid⟩ := hrec hmax
      have hlt : t.unitPos < w.table.units.length :=
        TextureUnit.lt_of_unit_ne_zero (by rw [hunit]; exact hid)
      have hge : ¬ t.unitPos ≥ w.table.maxUnits := by
        have := hz.length_units
        omega
      rw [if_pos hmax]
      unfold TextureUnit.release
      rw [if_neg hge, TextureUnit.taken_clear hlt]
      exact h.drop (by rw [Function.comp_apply, ht, held_some hmax])

/-- **One operation.** -/
theorem unitsOwned_next (hz : w.table.Sized) (h : UnitsOwned w) (op : Op F) :
    UnitsOwned ((world F maxUnits).next w op) ↔ KeepsUnits w op := by
  cases op with
  | construct args n => exact iff_of_true ((frame_construct args n).unitsOwned.mpr h) trivial
  | moveConstruct src => exact iff_of_true (unitsOwned_moveConstruct h src) trivial
  | moveAssign dst src =>
    rw [next_moveAssign]
    rw [keepsUnits_moveAssign]
    cases hs : w.tex src with
    | none =>
      rw [moveAssign_dead (.inl hs)]
      exact iff_of_true h fun _ _ h => by cases h
    | some o =>
      cases hd : w.tex dst with
      | none =>
        rw [moveAssign_dead (.inr hd)]
        exact iff_of_true h fun _ _ _ h => by cases h
      | some t =>
        rw [unitsOwned_moveAssign h hs hd]
        simp
  | destroy i => exact iff_of_true (unitsOwned_destroy hz h i) trivial
  | call i m =>
    by_cases hm : ∀ pos, m ≠ .acquire pos
    · refine iff_of_true ((frame_call m hm).unitsOwned.mpr h) ?_
      cases m with
      | acquire pos => exact absurd rfl (hm pos)
      | _ => trivial
    · obtain ⟨pos, rfl⟩ : ∃ pos, m = .acquire pos := by
        simpa using hm
      exact unitsOwned_acquire hz h i pos
  | draw get mesh => exact iff_of_true ((frame_draw get mesh).unitsOwned.mpr h) trivial

theorem sized_next (hz : w.table.Sized) (op : Op F) :
    ((world F maxUnits).next w op).table.Sized := by
  have hframe : ∀ {w' : World F}, UnitFrame w w' → w'.table.Sized := fun hf =>
    hz.of_eq (by rw [hf.units]) hf.maxUnits
  cases op with
  | construct args n => exact hframe (frame_construct args n)
  | moveConstruct src => rw [next_moveConstruct, World.table, moveConstruct_statics]; exact hz
  | moveAssign dst src => rw [next_moveAssign, World.table, moveAssign_statics]; exact hz
  | destroy i =>
    rw [next_destroy]
    cases ht : w.tex i with
    | none => rw [destroy_dead ht]; exact hz
    | some t =>
      rw [World.table, destroy_statics ht, destroy_table]
      split
      · exact hz.release t.unitPos
      · exact hz
  | call i m =>
    by_cases hm : ∀ pos, m ≠ .acquire pos
    · exact hframe (frame_call m hm)
    · obtain ⟨pos, rfl⟩ : ∃ pos, m = .acquire pos := by
        simpa using hm
      cases ht : w.tex i with
      | none => rw [next_call_dead w _ ht]; exact hz
      | some t =>
        rw [next_call w _ ht, Method.run_acquire]
        exact sized_acquire hz t pos
  | draw get mesh => exact hframe (frame_draw get mesh)

end Steps

/-! ## Whole runs -/

variable [BEq F]

theorem sized_init (maxUnits : Fin (2 ^ 31)) : (world F maxUnits).init.table.Sized :=
  ⟨List.length_replicate, maxUnits.isLt⟩

theorem everyState_sized (maxUnits : Fin (2 ^ 31)) (ops : List (Op F)) :
    (world F maxUnits).EveryState ops fun w => w.table.Sized :=
  Machine.everyState_of_step (sized_init maxUnits) fun _ op hz => sized_next hz op

theorem unitsOwned_init (maxUnits : Fin (2 ^ 31)) : UnitsOwned (world F maxUnits).init := by
  rw [unitsOwned_iff_owned]
  have htab : (world F maxUnits).init.table.taken = fun _ => none := by
    funext k
    rw [TextureUnit.taken_eq_none]
    show (List.replicate _ 0).getD k 0 = 0
    rw [List.getD_eq_getElem?_getD, List.getElem?_replicate]
    split <;> rfl
  have hheld : held ∘ (world F maxUnits).init.tex = fun _ => none := by
    funext i
    rfl
  rw [htab, hheld]
  exact Owned.empty

/-- **Exactly when units stay owned.** -/
theorem unitsOwned_iff (maxUnits : Fin (2 ^ 31)) (ops : List (Op F)) :
    (world F maxUnits).EveryState ops UnitsOwned ↔
      (world F maxUnits).EveryStep ops KeepsUnits :=
  Machine.everyState_iff_guard_under (everyState_sized maxUnits ops) (unitsOwned_init maxUnits)
    fun _ op hz h => unitsOwned_next hz h op

/-- Move assignment onto a texture with a unit: unit 0 stays taken and nobody has it. -/
theorem moveAssign_leaks :
    ¬ (world Nat 16).EveryState
      [.construct none 1, .call 0 (.acquire SIZE_T_MAX), .construct none 2, .moveAssign 0 1]
      UnitsOwned := by
  intro h
  obtain ⟨i, ⟨t, ht, hp, -⟩, -⟩ := h.last.noLeak 0 (by decide)
  match i with
  | 0 => cases ht; revert hp; decide
  | 1 => cases ht; revert hp; decide
  | i + 2 => cases ht

end LearnNotes.Graphics
