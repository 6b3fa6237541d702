import LearnNotes.Lib.Rows
import LearnNotes.Graphics.Methods

/-!
# What `load` leaves in a texture

The GL half of `Texture2D::load`, down to the texels. `glTexStorage2D` settles the size of a texture
once and refuses from then on; `glTexSubImage2D` writes into what there is, and has a row of pixels
start at every fourth byte, since nothing calls `glPixelStorei`, while `stb_image` leaves no gap
between the rows. An upload that does not fit in is refused, and `load` looks at no GL error.
`shown_iff` is exactly when a texture shows the image loaded last, and when the pixels are all that
is read of it, over every run of `world`.

The format is the one `load` picks; no call in the repository names another.
-/

namespace LearnNotes.Graphics

open Lib

/-- What `load` passes to GL. -/
structure Upload where
  mipLevels : GLint
  intformat : GLint
  dataFormat : GLint
  type : GLenum
  img : Image

def Upload.of (args : PathArgs) (img : Image) : Upload where
  mipLevels := args.mipLevels
  intformat := Texture2D.sizedFormat args.intformat (Texture2D.getGLformat img.nrChannels)
  dataFormat := Texture2D.getGLformat img.nrChannels
  type := args.type
  img := img

def componentsOf (dataFormat : GLint) : Nat :=
  if dataFormat = GL_RED then 1 else if dataFormat = GL_RG then 2
  else if dataFormat = GL_RGB then 3 else 4

/-- Of the formats `load` picks. -/
def storedOf (intformat : GLint) : Nat :=
  if intformat = GL_R8 then 1 else if intformat = GL_RG8 then 2
  else if intformat = GL_RGB8 then 3 else 4

/-- Where a component of a texel was read: the upload, and the element of its pixels. -/
structure Source where
  upload : Nat
  element : Nat
  deriving DecidableEq

/-- Level 0 of a texture with storage. A component that no upload gave a source is a constant. -/
structure Storage where
  width : Nat
  height : Nat
  components : Nat
  texel : Nat → Nat → Fin components → Option Source

/-- What `glTexStorage2D` settles. -/
def Storage.size (s : Storage) : Nat × Nat × Nat := (s.width, s.height, s.components)

namespace Upload

variable (u : Upload)

def width : Nat := u.img.width.toNat

def height : Nat := u.img.height.toNat

/-- The components of a pixel. -/
def components : Nat := componentsOf u.dataFormat

/-- The components of a texel. -/
def stored : Nat := storedOf u.intformat

/-- The elements from one row to the next with a `GL_UNPACK_ALIGNMENT` of 4. -/
def rowLength : Nat :=
  let row := u.width * u.components
  if u.type = GL_FLOAT then row else (row + 3) / 4 * 4

/-- The element read for a component of a texel. -/
def element (x y c : Nat) : Nat := y * u.rowLength + (x * u.components + c)

/-- `glTexStorage2D` does as told, on a texture without storage. -/
def Storable (maxSize : Nat) : Prop :=
  0 < u.mipLevels ∧ u.mipLevels ≤ Nat.log2 (max u.width u.height) + 1 ∧
    u.width ≤ maxSize ∧ u.height ≤ maxSize

instance (maxSize : Nat) : Decidable (u.Storable maxSize) := by
  unfold Storable
  infer_instance

def glTexStorage2D (maxSize : Nat) : Option Storage → Option Storage
  | some storage => some storage
  | none =>
    if u.Storable maxSize then some ⟨u.width, u.height, u.stored, fun _ _ _ => none⟩ else none

/-- `glTexSubImage2D` reads the image: an upload that reaches out of the storage is refused. -/
def TakenBy (storage : Storage) : Prop := u.width ≤ storage.width ∧ u.height ≤ storage.height

instance (storage : Storage) : Decidable (u.TakenBy storage) := inferInstanceAs (Decidable (_ ∧ _))

/-- `glTexSubImage2D` of the whole image. -/
def glTexSubImage2D (upload : Nat) : Option Storage → Option Storage
  | none => none
  | some storage =>
    if u.TakenBy storage then
      some { storage with
        texel := fun x y c =>
          if x < u.width ∧ y < u.height then
            if c < u.components then some ⟨upload, u.element x y c⟩ else none
          else storage.texel x y c }
    else some storage

/-- The upload of `load`, after so many others. -/
def run (maxSize : Nat) (s : Option Storage × Nat) : Option Storage × Nat :=
  (u.glTexSubImage2D s.2 (u.glTexStorage2D maxSize s.1), s.2 + 1)

end Upload

/-- Level 0 after the uploads to a texture. -/
def level0 (maxSize : Nat) (us : List Upload) : Option Storage :=
  (us.foldl (fun s u => u.run maxSize s) (none, 0)).1

/-! ## What there is to show -/

/-- What `stb_image` decodes: no pixel is missing and no row has a gap. -/
def Image.Decoded (img : Image) : Prop :=
  0 < img.width ∧ 0 < img.height ∧ 1 ≤ img.nrChannels ∧ img.nrChannels ≤ 4 ∧
    img.pixels.length = img.width.toNat * img.height.toNat * img.nrChannels.toNat

instance (img : Image) : Decidable img.Decoded := by
  unfold Image.Decoded
  infer_instance

/-- The storage is the image: as large, and each component where the pixels have it. -/
def Storage.Shows (s : Storage) (upload : Nat) (img : Image) : Prop :=
  s.width = img.width.toNat ∧ s.height = img.height.toNat ∧
    ∀ y < img.height.toNat, ∀ x < img.width.toNat, ∀ c < img.nrChannels.toNat,
      ∃ hc : c < s.components, s.texel x y ⟨c, hc⟩ = some ⟨upload,
        y * (img.width.toNat * img.nrChannels.toNat) + (x * img.nrChannels.toNat + c)⟩

def Shows (level : Option Storage) (upload : Nat) (img : Image) : Prop :=
  ∃ s ∈ level, s.Shows upload img

/-- Every element of the upload is one of the pixels. -/
def Upload.Inside (u : Upload) : Prop :=
  ∀ y < u.height, ∀ x < u.width, ∀ c < u.components, u.element x y c < u.img.pixels.length

/-- Every element read is one of the pixels: of an upload that is refused, none is read. -/
def Upload.ReadsInside (u : Upload) (level : Option Storage) : Prop :=
  ∀ storage ∈ level, u.TakenBy storage → u.Inside

/-- The rows of the image are the rows GL reads. -/
def Upload.RowsFit (u : Upload) : Prop :=
  u.type = GL_FLOAT ∨ 4 ∣ u.width * u.components ∨ u.height = 1

/-- An upload of a decoded image with a format `load` picked. -/
def Upload.Ok (u : Upload) : Prop :=
  u.img.Decoded ∧ ∃ args : PathArgs, args.intformat = GL_FALSE ∧ u = .of args u.img

section OneTexture

variable {u : Upload} {maxSize : Nat}

/-- The formats have the components of the image. -/
theorem format_components {n : Int} (hlow : 1 ≤ n) (hhigh : n ≤ 4) :
    componentsOf (Texture2D.getGLformat n) = n.toNat ∧
      storedOf (Texture2D.sizedFormat GL_FALSE (Texture2D.getGLformat n)) = n.toNat := by
  have hn : n = 1 ∨ n = 2 ∨ n = 3 ∨ n = 4 := by omega
  rcases hn with rfl | rfl | rfl | rfl <;> decide

theorem Upload.Ok.components_eq (h : u.Ok) :
    u.components = u.img.nrChannels.toNat ∧ u.stored = u.components := by
  obtain ⟨⟨-, -, hlow, hhigh, -⟩, args, hargs, hu⟩ := h
  obtain ⟨hdata, hstored⟩ := format_components hlow hhigh
  rw [← hargs] at hstored
  rw [hu]
  exact ⟨hdata, hstored.trans hdata.symm⟩

theorem Upload.Ok.pos (h : u.Ok) : 0 < u.width ∧ 0 < u.height ∧ 0 < u.components := by
  rw [h.components_eq.1]
  obtain ⟨hw, hh, hlow, -⟩ := h.1
  exact ⟨Int.lt_toNat.mpr hw, Int.lt_toNat.mpr hh, Int.lt_toNat.mpr hlow⟩

theorem rowLength_spec (u : Upload) :
    u.width * u.components ≤ u.rowLength ∧
      (u.rowLength = u.width * u.components ↔ u.type = GL_FLOAT ∨ 4 ∣ u.width * u.components) := by
  unfold Upload.rowLength
  dsimp only
  split
  · next htype => exact ⟨le_refl _, iff_of_true rfl (.inl htype)⟩
  · next htype =>
    refine ⟨by omega, ?_⟩
    rw [or_iff_right htype]
    omega

theorem Upload.Ok.rowsFit_iff (h : u.Ok) :
    u.rowLength = u.width * u.components ∨ u.height ≤ 1 ↔ u.RowsFit := by
  have hpos := h.pos
  rw [(rowLength_spec u).2, Upload.RowsFit, or_assoc]
  refine or_congr_right (or_congr_right ?_)
  omega

/-- **What is read.** -/
theorem Upload.Ok.inside_iff (h : u.Ok) : u.Inside ↔ u.RowsFit := by
  obtain ⟨hw, hh, hc⟩ := h.pos
  have hlen : u.img.pixels.length = u.height * (u.width * u.components) := by
    rw [h.1.2.2.2.2, h.components_eq.1, ← Nat.mul_assoc, Nat.mul_comm u.height]
    rfl
  rw [← h.rowsFit_iff, ← Rows.inside_iff (Nat.mul_pos hw hc) (rowLength_spec u).1]
  unfold Upload.Inside Upload.element
  rw [hlen]
  exact forall₂_congr fun y hy => (Rows.forall_groups (P := fun i =>
    y * u.rowLength + i < u.height * (u.width * u.components))).symm

theorem size_texStorage (u : Upload) (maxSize : Nat) (o : Option Storage) :
    (u.glTexStorage2D maxSize o).map Storage.size = (o.map Storage.size).or
      (if u.Storable maxSize then some (u.width, u.height, u.stored) else none) := by
  cases o with
  | some s => rfl
  | none =>
    unfold Upload.glTexStorage2D
    dsimp only
    split <;> rfl

theorem size_subImage (u : Upload) (k : Nat) (o : Option Storage) :
    (u.glTexSubImage2D k o).map Storage.size = o.map Storage.size := by
  cases o with
  | none => rfl
  | some s =>
    unfold Upload.glTexSubImage2D
    dsimp only
    split <;> rfl

theorem foldl_run (us : List Upload) (s : Option Storage × Nat) :
    ((us.foldl (fun s u => u.run maxSize s) s).1.map Storage.size =
        (s.1.map Storage.size).or ((us.find? fun u => u.Storable maxSize).map fun u =>
          (u.width, u.height, u.stored))) ∧
      (us.foldl (fun s u => u.run maxSize s) s).2 = s.2 + us.length := by
  induction us generalizing s with
  | nil => exact ⟨(Option.or_none ..).symm, rfl⟩
  | cons u us ih =>
    obtain ⟨hsize, hnumber⟩ := ih (u.run maxSize s)
    rw [List.foldl_cons]
    constructor
    · rw [hsize, Upload.run, size_subImage, size_texStorage, Option.or_assoc, List.find?_cons]
      by_cases hu : u.Storable maxSize <;> simp [hu]
    · rw [hnumber, Upload.run, List.length_cons]
      omega

/-- The size is that of the first upload that can have storage. -/
theorem size_level0 (us : List Upload) :
    (level0 maxSize us).map Storage.size =
      (us.find? fun u => u.Storable maxSize).map fun u => (u.width, u.height, u.stored) :=
  (foldl_run us (none, 0)).1

theorem level0_concat (us : List Upload) (u : Upload) :
    level0 maxSize (us ++ [u]) =
      u.glTexSubImage2D us.length (u.glTexStorage2D maxSize (level0 maxSize us)) := by
  unfold level0
  rw [List.foldl_append, List.foldl_cons, List.foldl_nil, Upload.run, (foldl_run us _).2,
    Nat.zero_add]

/-- The size at the time of an upload. -/
theorem size_storage (us : List Upload) (u : Upload) :
    (u.glTexStorage2D maxSize (level0 maxSize us)).map Storage.size =
      ((us ++ [u]).find? fun u => u.Storable maxSize).map fun u =>
        (u.width, u.height, u.stored) := by
  rw [← size_level0, level0_concat, size_subImage]

/-- The image is no wider and no higher than the texture. -/
def Upload.Covers (first u : Upload) : Prop := u.width ≤ first.width ∧ u.height ≤ first.height

theorem takenBy_iff {first : Upload} {storage : Storage}
    (hsize : storage.size = (first.width, first.height, first.stored)) :
    u.TakenBy storage ↔ first.Covers u := by
  obtain ⟨hw, hh, -⟩ : storage.width = first.width ∧ storage.height = first.height ∧
      storage.components = first.stored := by
    simpa [Storage.size] using hsize
  unfold Upload.TakenBy Upload.Covers
  rw [hw, hh]

/-- **What is read** at an upload behind others. -/
theorem readsInside_iff (us : List Upload) (hu : u.Ok) :
    u.ReadsInside (u.glTexStorage2D maxSize (level0 maxSize us)) ↔
      ((∃ first, (us ++ [u]).find? (fun u => u.Storable maxSize) = some first ∧
        first.Covers u) → u.RowsFit) := by
  have hsize : (u.glTexStorage2D maxSize (level0 maxSize us)).map Storage.size = _ :=
    size_storage us u
  unfold Upload.ReadsInside
  rw [hu.inside_iff]
  cases hfind : (us ++ [u]).find? fun u => u.Storable maxSize with
  | none =>
    rw [hfind, Option.map_none, Option.map_eq_none_iff] at hsize
    rw [hsize]
    refine iff_of_true ?_ ?_
    · intro storage hsome
      cases hsome
    · rintro ⟨first, hfirst, -⟩
      cases hfirst
  | some first =>
    rw [hfind, Option.map_some] at hsize
    obtain ⟨storage, hstorage, hsize⟩ := Option.map_eq_some_iff.mp hsize
    rw [hstorage]
    constructor
    · rintro h ⟨v, hv, hcovers⟩
      obtain rfl := Option.some.inj hv
      exact h storage rfl ((takenBy_iff hsize).mpr hcovers)
    · intro h s hs htaken
      obtain rfl := Option.some.inj hs
      exact h ⟨first, rfl, (takenBy_iff hsize).mp htaken⟩

/-- The texture has the size of the image, and no fewer components. -/
def Upload.FitsIn (first u : Upload) : Prop :=
  first.width = u.width ∧ first.height = u.height ∧ u.components ≤ first.components

/-- The pixels are where GL reads them. -/
theorem Upload.Ok.in_place_iff (h : u.Ok) :
    (∀ y < u.height, ∀ x < u.width, ∀ c < u.components,
        u.element x y c = y * (u.width * u.components) + (x * u.components + c)) ↔ u.RowsFit := by
  obtain ⟨hw, -, hc⟩ := h.pos
  rw [← h.rowsFit_iff, ← Rows.in_place_iff (Nat.mul_pos hw hc)]
  exact forall₂_congr fun y hy => (Rows.forall_groups (P := fun i =>
    y * u.rowLength + i = y * (u.width * u.components) + i)).symm

/-- **What is shown** once an upload is made to storage of the size of `first`. -/
theorem shows_subImage_iff {first : Upload} {storage : Storage} {k : Nat} (hu : u.Ok)
    (hfirst : first.Ok) (hsize : storage.size = (first.width, first.height, first.stored)) :
    Shows (u.glTexSubImage2D k (some storage)) k u.img ↔ first.FitsIn u ∧ u.RowsFit := by
  obtain ⟨hwpos, hhpos, hcpos⟩ := hu.pos
  obtain ⟨hwidth, hheight, hstored⟩ : storage.width = first.width ∧
      storage.height = first.height ∧ storage.components = first.components := by
    rw [← hfirst.components_eq.2]
    simpa [Storage.size] using hsize
  unfold Shows Storage.Shows Upload.FitsIn Upload.glTexSubImage2D
  rw [← hwidth, ← hheight, ← hstored, ← hu.in_place_iff, ← hu.components_eq.1]
  change (∃ _, _ ∧ _ = u.width ∧ _ = u.height ∧ ∀ y < u.height, ∀ x < u.width, _) ↔ _
  dsimp only
  split
  · constructor
    · rintro ⟨s, hs, hw, hh, htexel⟩
      obtain rfl := Option.some.inj hs
      refine ⟨⟨hw, hh, ?_⟩, fun y hy x hx c hc => ?_⟩
      · obtain ⟨hlast, -⟩ := htexel 0 hhpos 0 hwpos (u.components - 1) (by omega)
        dsimp only at hlast
        omega
      · obtain ⟨_, heq⟩ := htexel y hy x hx c hc
        simp only [hx, hy, hc, and_self, if_true, Option.some.injEq, Source.mk.injEq] at heq
        exact heq.2
    · rintro ⟨⟨hw, hh, hle⟩, hplace⟩
      refine ⟨_, rfl, hw, hh, fun y hy x hx c hc => ⟨hc.trans_le hle, ?_⟩⟩
      simp only [hx, hy, hc, and_self, if_true, hplace]
      rfl
  · next hfits =>
    refine iff_of_false ?_ ?_
    · rintro ⟨s, hs, hw, hh, -⟩
      obtain rfl := Option.some.inj hs
      exact hfits ⟨hw.ge, hh.ge⟩
    · rintro ⟨⟨hw, hh, -⟩, -⟩
      exact hfits ⟨hw.ge, hh.ge⟩

/-- **What is shown** after the uploads to one texture. -/
theorem shows_level0_iff {us : List Upload} (hus : ∀ u ∈ us, u.Ok) (hu : u.Ok) :
    Shows (level0 maxSize (us ++ [u])) us.length u.img ↔
      (∃ first, (us ++ [u]).find? (fun u => u.Storable maxSize) = some first ∧ first.FitsIn u) ∧
        u.RowsFit := by
  have hsize : (u.glTexStorage2D maxSize (level0 maxSize us)).map Storage.size = _ :=
    size_storage us u
  rw [level0_concat]
  cases hfind : (us ++ [u]).find? fun u => u.Storable maxSize with
  | none =>
    rw [hfind, Option.map_none, Option.map_eq_none_iff] at hsize
    rw [hsize]
    refine iff_of_false ?_ ?_
    · rintro ⟨storage, hsome, -⟩
      cases hsome
    · rintro ⟨⟨first, hfirst, -⟩, -⟩
      cases hfirst
  | some first =>
    have hfirst : first.Ok := by
      rcases List.mem_append.mp (List.mem_of_find?_eq_some hfind) with hmem | hmem
      · exact hus first hmem
      · rwa [List.mem_singleton.mp hmem]
    rw [hfind, Option.map_some] at hsize
    obtain ⟨storage, hstorage, hsize⟩ := Option.map_eq_some_iff.mp hsize
    rw [hstorage, shows_subImage_iff hu hfirst hsize]
    simp

end OneTexture

/-! ## Along a run -/

section Frame

variable {F : Type}

theorem activate_image (t : Texture2D F) (s : Statics F) :
    (t.activate s).2.gl.image = s.gl.image := by
  unfold Texture2D.activate TextureUnit.activate
  split_ifs <;> rfl

theorem drawTextures_image (get : Memory.Handle → Option (Texture2D F)) (hs : List Memory.Handle)
    (d : Drawing F) :
    (Mesh2D.drawTextures get hs d).2.statics.gl.image = d.statics.gl.image := by
  induction hs generalizing d with
  | nil => rfl
  | cons h hs ih =>
    unfold Mesh2D.drawTextures
    split
    · rfl
    · next sp _ =>
      have hact := activate_image sp d.statics
      split
      · next hs' => rw [hs'] at hact; exact hact
      · next s hs' =>
        rw [hs'] at hact
        rw [ih, Mesh2D.setUnit_statics]
        exact hact

theorem draw_image (get : Memory.Handle → Option (Texture2D F)) (mesh : Mesh2D) (s : Statics F) :
    (mesh.Draw get s).2.2.gl.image = s.gl.image := by
  unfold Mesh2D.Draw
  cases mesh.res with
  | none => rfl
  | some res =>
    have h := drawTextures_image get res.textures ⟨1, 1, fun _ => none, s⟩
    dsimp only
    split <;> next hd => rw [hd] at h; exact h

/-- The upload an operation makes, and the texture that gets it. -/
def uploadOf (w : World F) : Op F → Option (GLuint × Upload)
  | .call i (.load args (some img)) =>
    (w.tex i).bind fun t =>
      if args.type = GL_UNSIGNED_BYTE ∨ args.type = GL_FLOAT then
        some ((t.bind w.statics).gl.bound, .of args img)
      else none
  | _ => none

/-- The name an operation generates or deletes. -/
def renewed (w : World F) : Op F → Option GLuint
  | .construct _ n => if n = 0 ∨ n ∈ w.statics.gl.names then none else some n
  | .destroy i => (w.tex i).bind fun t => if t.unitPos ≠ SIZE_T_MAX then some t.tex.ID else none
  | _ => none

/-- The uploads to a texture since its name was generated; texture 0 takes none. -/
def noteUpload (h : GLuint → List Upload) (w : World F) (op : Op F) : GLuint → List Upload :=
  match uploadOf w op with
  | some (n, u) => if n = 0 then h else Function.update h n (h n ++ [u])
  | none =>
    match renewed w op with
    | some n => Function.update h n []
    | none => h

variable [BEq F]

theorem run_image {m : Method F} (hm : ∀ args img, m ≠ .load args (some img)) (t : Texture2D F)
    (s : Statics F) : (m.run t s).2.2.gl.image = s.gl.image := by
  have hbind := (bind_frame t s).2.2.1
  cases m with
  | acquire pos => rw [Method.run_acquire, (acquire_frame t s pos).2.1]
  | bind => exact hbind
  | activate => exact activate_image t s
  | load args img =>
    cases img with
    | none => rw [Method.run_load, load_statics]
    | some img => exact absurd rfl (hm args img)
  | update =>
    rw [Method.run_update, update_statics]
    split
    · exact hbind
    · rfl
  | _ => rfl

omit [BEq F] in
/-- A call that does not decode an image makes no upload. -/
theorem uploadOf_call {m : Method F} (i : Nat) (hm : ∀ args img, m ≠ .load args (some img)) :
    uploadOf w (.call i m) = none := by
  unfold uploadOf
  split
  · next heq => cases heq; exact absurd rfl (hm _ _)
  · rfl

omit [BEq F] in
theorem uploadOf_call_dead {i : Nat} (m : Method F) (ht : w.tex i = none) :
    uploadOf w (.call i m) = none := by
  unfold uploadOf
  split
  · next heq => cases heq; rw [ht]; rfl
  · rfl

/-- **The step**: an operation makes the upload and changes no other image. -/
theorem next_image (maxUnits : Fin (2 ^ 31)) (w : World F) (op : Op F) :
    ((world F maxUnits).next w op).statics.gl.image =
      match uploadOf w op with
      | some (n, u) => Function.update w.statics.gl.image n (some u.img)
      | none => w.statics.gl.image := by
  cases op with
  | construct args n =>
    rw [next_construct]
    by_cases hn : n = 0 ∨ n ∈ w.statics.gl.names
    · rw [World.construct_of_used args hn]
      rfl
    · rw [World.construct_of_fresh args hn]
      rfl
  | moveConstruct src => rw [next_moveConstruct, World.moveConstruct_statics]; rfl
  | moveAssign dst src => rw [next_moveAssign, World.moveAssign_statics]; rfl
  | destroy i =>
    rw [next_destroy]
    cases ht : w.tex i with
    | none => rw [World.destroy_dead ht]; rfl
    | some t =>
      rw [World.destroy_statics ht, destroy_gl]
      split <;> rfl
  | draw get mesh => exact draw_image (w.resolve get) mesh w.statics
  | call i m =>
    cases ht : w.tex i with
    | none => rw [next_call_dead w m ht, uploadOf_call_dead m ht]
    | some t =>
      rw [next_call w m ht]
      dsimp only
      by_cases hm : ∃ args img, m = .load args (some img)
      · obtain ⟨args, img, rfl⟩ := hm
        rw [Method.run_load, load_statics]
        unfold uploadOf
        dsimp only
        rw [ht, Option.bind_some]
        split
        · dsimp only [GLState.glTexSubImage2D]
          rw [(bind_frame t w.statics).2.2.1]
          rfl
        · rfl
      · have hload : ∀ args img, m ≠ .load args (some img) := fun args img h => hm ⟨args, img, h⟩
        rw [run_image hload, uploadOf_call i hload]

/-- The arguments and the images of a call of `load` are as in this repository. -/
def Op.Decoded : Op F → Prop
  | .call _ (.load args img) => args.intformat = GL_FALSE ∧ ∀ i ∈ img, i.Decoded
  | _ => True

/-- What the record says. -/
structure Recorded (s : World F × (GLuint → List Upload)) : Prop where
  ok : ∀ n, ∀ u ∈ s.2 n, u.Ok
  last : ∀ n us u, s.2 n = us ++ [u] → s.1.statics.gl.image n = some u.img
  zero : s.2 0 = []

/-- The program with the record of the uploads. -/
def uploading (F : Type) [BEq F] (maxUnits : Fin (2 ^ 31)) :
    Machine (World F × (GLuint → List Upload)) (Op F) Reply :=
  (world F maxUnits).withHistory (fun _ => []) noteUpload

omit [BEq F] in
theorem Op.Decoded.ok {w : World F} {op : Op F} {n : GLuint} {u : Upload} (hop : op.Decoded)
    (hu : uploadOf w op = some (n, u)) : u.Ok := by
  unfold uploadOf at hu
  split at hu
  · next i args img =>
    obtain ⟨t, -, hu⟩ := Option.bind_eq_some_iff.mp hu
    split at hu
    · cases hu
      exact ⟨hop.2 img rfl, args, hop.1, rfl⟩
    · cases hu
  · cases hu

omit [BEq F] in
/-- An operation that uploads nothing leaves a record as it is or starts it again. -/
theorem noteUpload_idle {w : World F} {op : Op F} (hu : uploadOf w op = none)
    (h : GLuint → List Upload) (n : GLuint) :
    noteUpload h w op n = h n ∨ noteUpload h w op n = [] := by
  unfold noteUpload
  rw [hu]
  dsimp only
  cases renewed w op with
  | none => exact .inl rfl
  | some m =>
    by_cases hm : n = m
    · subst hm
      exact .inr (Function.update_self ..)
    · exact .inl (Function.update_of_ne hm ..)

omit [BEq F] in
/-- An upload goes to the end of the record of its texture. -/
theorem noteUpload_some {w : World F} {op : Op F} {m : GLuint} {u : Upload}
    (hu : uploadOf w op = some (m, u)) (h : GLuint → List Upload) (n : GLuint) :
    noteUpload h w op n = if n = m ∧ n ≠ 0 then h n ++ [u] else h n := by
  unfold noteUpload
  rw [hu]
  dsimp only
  by_cases hm : n = m
  · subst hm
    by_cases h0 : n = 0 <;> simp [h0]
  · rw [if_neg (show ¬ (n = m ∧ n ≠ 0) from fun hn => hm hn.1)]
    split
    · rfl
    · exact Function.update_of_ne hm ..

theorem Recorded.next {maxUnits : Fin (2 ^ 31)} {s : World F × (GLuint → List Upload)} {op : Op F}
    (h : Recorded s) (hop : op.Decoded) : Recorded ((uploading F maxUnits).next s op) := by
  obtain ⟨w, h'⟩ := s
  obtain ⟨hok, hlast, hzero⟩ := h
  have himage := next_image maxUnits w op
  unfold uploading
  rw [Machine.next_withHistory]
  cases hu : uploadOf w op with
  | none =>
    rw [hu] at himage
    have hidle := noteUpload_idle hu h'
    refine ⟨fun n u hmem => ?_, fun n us u hus => ?_, (hidle 0).elim (·.trans hzero) id⟩
    · dsimp only at hmem
      rcases hidle n with hn | hn <;> rw [hn] at hmem
      · exact hok n u hmem
      · cases hmem
    · dsimp only at hus ⊢
      rw [himage]
      rcases hidle n with hn | hn <;> rw [hn] at hus
      · exact hlast n us u hus
      · exact absurd hus.symm (by simp)
  | some p =>
    obtain ⟨m, v⟩ := p
    rw [hu] at himage
    have hnote := noteUpload_some hu h'
    refine ⟨fun n u hmem => ?_, fun n us u hus => ?_,
      (hnote 0).trans ((if_neg fun hn => hn.2 rfl).trans hzero)⟩
    · dsimp only at hmem
      rw [hnote] at hmem
      split at hmem
      · rcases List.mem_append.mp hmem with hmem | hmem
        · exact hok n u hmem
        · rw [List.mem_singleton.mp hmem]
          exact hop.ok hu
      · exact hok n u hmem
    · dsimp only at hus ⊢
      rw [himage]
      rw [hnote] at hus
      dsimp only
      split at hus
      · next hn =>
        obtain ⟨-, huv⟩ := List.append_inj' hus rfl
        rw [hn.1, Function.update_self, List.cons.inj huv |>.1]
      · next hn =>
        by_cases hm : n = m
        · -- texture 0 has no record
          obtain rfl : n = 0 := by
            by_contra hne
            exact hn ⟨hm, hne⟩
          exact absurd (hus.symm.trans hzero) (by simp)
        · rw [Function.update_of_ne hm]
          exact hlast n us u hus

end Frame

/-- **What a texture shows**, in every run: the image it was given last, exactly where the first
upload that could have storage is as large and has the components, and where the rows of the pixels
need no padding; and elements are read outside of the pixels where they do and the upload is
taken. -/
theorem shown_iff {F : Type} [BEq F] (maxUnits : Fin (2 ^ 31)) (maxSize : Nat) (ops : List (Op F))
    (hops : ∀ op ∈ ops, op.Decoded) (n : GLuint) (us : List Upload) (u : Upload)
    (hus : ((uploading F maxUnits).after ops).2 n = us ++ [u]) :
    ((world F maxUnits).after ops).statics.gl.image n = some u.img ∧
      (Shows (level0 maxSize (us ++ [u])) us.length u.img ↔
        (∃ first, (us ++ [u]).find? (fun u => u.Storable maxSize) = some first ∧
          first.FitsIn u) ∧ u.RowsFit) ∧
      (u.ReadsInside (u.glTexStorage2D maxSize (level0 maxSize us)) ↔
        ((∃ first, (us ++ [u]).find? (fun u => u.Storable maxSize) = some first ∧
          first.Covers u) → u.RowsFit)) := by
  have hrec : Recorded ((uploading F maxUnits).after ops) :=
    (Machine.everyState_of_guard (G := fun _ op => op.Decoded)
      ⟨fun _ _ h => (by cases h), fun _ us u h =>
        absurd h.symm (List.append_ne_nil_of_right_ne_nil us (List.cons_ne_nil u [])), rfl⟩
      (fun s op hs hop => hs.next hop) (Machine.everyStep_of_inputs hops)).last
  have hok := hrec.ok n
  rw [hus] at hok
  have hu : u.Ok := hok u (by simp)
  refine ⟨?_, shows_level0_iff (fun v hv => hok v (by simp [hv])) hu, readsInside_iff us hu⟩
  have himage := hrec.last n us u hus
  unfold uploading at himage
  rwa [Machine.after_withHistory] at himage

/-- Two pixels by two, of so many components. -/
def square (nrChannels : Nat) : Image := ⟨2, 2, nrChannels, List.replicate (4 * nrChannels) 0⟩

/-- A texture given an image of four components shows it; given one of three components next, it
does not, and the last row is read past the pixels. -/
theorem shown_iff_square :
    Shows (level0 4 ([] ++ [.of { texpath := "a.png" } (square 4)])) 0 (square 4) ∧
      ¬ Shows (level0 4 ([.of { texpath := "a.png" } (square 4)] ++
        [.of { texpath := "b.png" } (square 3)])) 1 (square 3) ∧
      ¬ (Upload.of { texpath := "b.png" } (square 3)).ReadsInside
        ((Upload.of { texpath := "b.png" } (square 3)).glTexStorage2D 4
          (level0 4 [.of { texpath := "a.png" } (square 4)])) := by
  have hfirst := shown_iff (F := Nat) 16 4
    [.construct none 1, .call 0 (.load { texpath := "a.png" } (some (square 4)))]
    (by simp [Op.Decoded]; decide) 1 [] (.of { texpath := "a.png" } (square 4)) rfl
  have hsecond := shown_iff (F := Nat) 16 4
    [.construct none 1, .call 0 (.load { texpath := "a.png" } (some (square 4))),
      .call 0 (.load { texpath := "b.png" } (some (square 3)))]
    (by simp [Op.Decoded]; decide) 1 [.of { texpath := "a.png" } (square 4)]
    (.of { texpath := "b.png" } (square 3)) rfl
  have hnot : ¬ (Upload.of { texpath := "b.png" } (square 3)).RowsFit := by
    unfold Upload.RowsFit
    decide
  refine ⟨hfirst.2.1.mpr ⟨⟨_, rfl, ?_⟩, .inr (.inl ?_)⟩, fun h => hnot (hsecond.2.1.mp h).2,
    fun h => hnot (hsecond.2.2.mp h ⟨_, rfl, ?_⟩)⟩
  · unfold Upload.FitsIn
    decide
  · decide
  · unfold Upload.Covers
    decide

end LearnNotes.Graphics
