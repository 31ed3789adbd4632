import Mathlib.Data.List.Forall2
import Mathlib.Data.List.Induction
import Photoplot.Identifier
import Photoplot.Transform

/-!
# Names of Layers

The name of a variant ends with a tag in brackets, and no tag has brackets in it. So the tag and the
name of the base can be told apart, even if the base is itself a variant, and no variant is named
like the main layer or like an aperture that is known by its number.

## Main definitions

* `ApertureId.IsCode`: an aperture code, which may have leading zeros.
* `ApertureId.IsNumbered`: an aperture that is known by its number.
* `LayerId.tagged`: the name of a variant of a variant, for any number of tags.

## Main results

* `Transform.tag_inj`: a tag has one mirroring and one text for each operand.
* `LayerId.variant_inj`: a variant has one base and one tag.
* `LayerId.variant_ne_main`, `ApertureId.IsCode.ne_variant`, `ApertureId.IsCode.ne_main`.
* `LayerId.tagged_inj`: the aperture code and all tags, by induction on the number of tags.
-/

namespace Photoplot

/-- An aperture that is known by its number. -/
def ApertureId.IsNumbered (id : ApertureId) : Prop := ∃ n, id = .ofNumber n

/-! ### Tags -/

/-- What comes before the last separator of a text and what comes after it. -/
theorem append_cons_inj_of_notMem_right {front front' back back' : List Char} {separator : Char}
    (hback : separator ∉ back) (hback' : separator ∉ back')
    (h : front ++ separator :: back = front' ++ separator :: back') :
    front = front' ∧ back = back' := by
  rcases List.append_eq_append_iff.mp h with ⟨between, rfl, hcons⟩ | ⟨between, rfl, hcons⟩
  · cases between with
    | nil => exact ⟨(List.append_nil _).symm, List.tail_eq_of_cons_eq hcons⟩
    | cons c rest =>
        obtain ⟨-, rfl⟩ := List.cons.inj hcons
        simp at hback
  · cases between with
    | nil => exact ⟨List.append_nil _, (List.tail_eq_of_cons_eq hcons).symm⟩
    | cons c rest =>
        obtain ⟨-, rfl⟩ := List.cons.inj hcons
        simp at hback'

/-- Mirrorings are told apart by their texts. -/
theorem Mirroring.text_inj {m m' : Mirroring} (h : m.text = m'.text) : m = m' := by
  cases m <;> cases m' <;> first | rfl | exact absurd h (by decide)

namespace Transform

variable {α : Type} [Legible α]

/-- A text has no brackets and no commas. -/
theorem notMem_text (a : α) {c : Char} (hc : c = '[' ∨ c = ',') :
    c ∉ (Legible.text a).toList := by
  intro h
  rcases hc with rfl | rfl <;> rcases Legible.legible a _ h with h | h | h <;>
    exact absurd h (by decide)

/-- A tag has three parts with commas between them. -/
theorem toList_tag (t : Transform α) : t.tag.toList =
    ('M' :: t.mirroring.text.toList ++ ',' :: 'R' :: (Legible.text t.rotation).toList) ++
      ',' :: 'S' :: (Legible.text t.scale).toList := by
  simp [tag, String.toList_append]

/-- A tag has no brackets. -/
theorem bracket_notMem_tag (t : Transform α) : '[' ∉ t.tag.toList := by
  have hmirroring : '[' ∉ t.mirroring.text.toList := by
    cases t.mirroring <;> decide
  have hrotation := notMem_text t.rotation (.inl rfl)
  have hscale := notMem_text t.scale (.inl rfl)
  rw [toList_tag]
  simp [hmirroring, hrotation, hscale]

/-- **Tags** are the same only if their parts are. -/
theorem tag_inj {t t' : Transform α} (h : t.tag = t'.tag) : t.mirroring = t'.mirroring ∧
    Legible.text t.rotation = Legible.text t'.rotation ∧
      Legible.text t.scale = Legible.text t'.scale := by
  have hlist := congrArg String.toList h
  rw [toList_tag, toList_tag] at hlist
  have hcomma (letter : Char) (hletter : letter ≠ ',') (a : α) :
      ',' ∉ letter :: (Legible.text a).toList :=
    List.not_mem_cons_of_ne_of_not_mem hletter.symm (notMem_text a (.inr rfl))
  obtain ⟨hfront, hscale⟩ := append_cons_inj_of_notMem_right (hcomma 'S' (by decide) _)
    (hcomma 'S' (by decide) _) hlist
  obtain ⟨hmirroring, hrotation⟩ := append_cons_inj_of_notMem_right (hcomma 'R' (by decide) _)
    (hcomma 'R' (by decide) _) hfront
  exact ⟨Mirroring.text_inj (String.toList_injective (List.cons.inj hmirroring).2),
    String.toList_injective (List.cons.inj hrotation).2,
    String.toList_injective (List.cons.inj hscale).2⟩

/-- Two transforms are **alike** if they have one mirroring and their operands have one text. -/
structure Alike (t t' : Transform α) : Prop where
  mirroring : t.mirroring = t'.mirroring
  rotation : Legible.text t.rotation = Legible.text t'.rotation
  scale : Legible.text t.scale = Legible.text t'.scale

/-- Transforms have the same tag exactly when they are alike. -/
theorem tag_eq_tag_iff {t t' : Transform α} : t.tag = t'.tag ↔ t.Alike t' := by
  refine ⟨fun h => ?_, fun h => ?_⟩
  · obtain ⟨hmirroring, hrotation, hscale⟩ := tag_inj h
    exact ⟨hmirroring, hrotation, hscale⟩
  · rw [tag, tag, h.mirroring, h.rotation, h.scale]

/-- Transforms in a row have the same tags exactly when they are alike one by one. -/
theorem map_tag_eq_map_tag_iff {ts ts' : List (Transform α)} :
    ts.map tag = ts'.map tag ↔ ts.Forall₂ Alike ts' := by
  rw [← List.forall₂_eq_eq_eq, List.forall₂_map_left_iff, List.forall₂_map_right_iff]
  simp only [tag_eq_tag_iff]

end Transform

/-! ### Variants -/

namespace LayerId

/-- Apertures have different layers. -/
theorem ofAperture_inj {id id' : ApertureId} (h : ofAperture id = ofAperture id') : id = id' := by
  cases id
  cases id'
  exact congrArg ApertureId.mk (LayerId.mk.inj h)

/-- The name of a variant is that of its base and the tag in brackets. -/
theorem toList_name_variant (base : LayerId) (tag : String) :
    (base.variant tag).name.toList = base.name.toList ++ '[' :: tag.toList ++ [']'] := by
  simp [variant, String.toList_append]

/-- A variant is not the main layer. -/
theorem variant_ne_main (base : LayerId) (tag : String) : base.variant tag ≠ .main := by
  intro h
  have hmem : '[' ∈ (base.variant tag).name.toList := by simp [toList_name_variant]
  rw [h] at hmem
  exact absurd hmem (by decide)

/-- **Variants** under tags without brackets have different names, unless both their bases and
their tags are the same. -/
theorem variant_inj {base base' : LayerId} {tag tag' : String} (htag : '[' ∉ tag.toList)
    (htag' : '[' ∉ tag'.toList) (h : base.variant tag = base'.variant tag') :
    base = base' ∧ tag = tag' := by
  have hlist := congrArg (fun id : LayerId => id.name.toList) h
  simp only [toList_name_variant] at hlist
  obtain ⟨hbase, htags⟩ :=
    append_cons_inj_of_notMem_right htag htag' (List.append_cancel_right hlist)
  refine ⟨?_, String.toList_injective htags⟩
  cases base
  cases base'
  exact congrArg LayerId.mk (String.toList_injective hbase)

end LayerId

/-! ### Aperture codes -/

/-- An id that is an aperture **code**: the letter `D` and digits. -/
def ApertureId.IsCode (id : ApertureId) : Prop :=
  ∃ digits, id.name.toList = 'D' :: digits ∧ ∀ c ∈ digits, c.isDigit

/-- A number makes an aperture code. -/
theorem ApertureId.IsNumbered.isCode {id : ApertureId} (h : id.IsNumbered) : id.IsCode := by
  obtain ⟨n, rfl⟩ := h
  refine ⟨Nat.toDigits 10 n, ?_, fun c hc => Nat.isDigit_of_mem_toDigits (by decide) (by decide) hc⟩
  simp [ofNumber, String.toList_append]

namespace ApertureId.IsCode

variable {id : ApertureId}

/-- An aperture code has no brackets. -/
theorem bracket_notMem_name (h : id.IsCode) : '[' ∉ id.name.toList := by
  obtain ⟨digits, hname, hdigits⟩ := h
  rw [hname]
  refine List.not_mem_cons_of_ne_of_not_mem (by decide) fun hmem => ?_
  exact absurd (hdigits _ hmem) (by decide)

/-- No aperture code names a variant. -/
theorem ne_variant (h : id.IsCode) (base : LayerId) (tag : String) :
    LayerId.ofAperture id ≠ base.variant tag := by
  intro heq
  refine h.bracket_notMem_name ?_
  show '[' ∈ (LayerId.ofAperture id).name.toList
  rw [heq, LayerId.toList_name_variant]
  simp

/-- No aperture code names the main layer. -/
theorem ne_main (h : id.IsCode) : LayerId.ofAperture id ≠ .main := by
  obtain ⟨digits, hname, -⟩ := h
  intro heq
  have hlist := congrArg (fun id : LayerId => id.name.toList.head?) heq
  have hleft : (LayerId.ofAperture id).name.toList.head? = some 'D' := by
    rw [LayerId.ofAperture, hname]
    rfl
  rw [hleft] at hlist
  exact absurd hlist (by decide)

end ApertureId.IsCode

namespace ApertureId.IsNumbered

variable {id : ApertureId}

/-- No number names a variant. -/
theorem ne_variant (h : id.IsNumbered) (base : LayerId) (tag : String) :
    LayerId.ofAperture id ≠ base.variant tag := h.isCode.ne_variant base tag

/-- No number names the main layer. -/
theorem ne_main (h : id.IsNumbered) : LayerId.ofAperture id ≠ .main := h.isCode.ne_main

end ApertureId.IsNumbered

/-! ### Variants of variants -/

namespace LayerId

/-- The name of an aperture under one transform after another, with their tags in the order in
which they are applied. -/
def tagged (id : ApertureId) (tags : List String) : LayerId :=
  tags.foldl variant (.ofAperture id)

/-- The last tag is that of the last variant. -/
theorem tagged_append_singleton (id : ApertureId) (tags : List String) (tag : String) :
    tagged id (tags ++ [tag]) = (tagged id tags).variant tag := List.foldl_append

variable {id id' : ApertureId} {tags tags' : List String}

/-- Under whatever tags an aperture code does not name the main layer. -/
theorem tagged_ne_main (hid : id.IsCode) : tagged id tags ≠ .main := by
  rcases List.eq_nil_or_concat' tags with rfl | ⟨front, tag, rfl⟩
  · exact hid.ne_main
  · rw [tagged_append_singleton]
    exact variant_ne_main _ tag

/-- **Variants of variants** of aperture codes have different names, unless both the codes and all
the tags are the same. The last tag is read off first. -/
theorem tagged_inj (hid : id.IsCode) (hid' : id'.IsCode) (htags : ∀ tag ∈ tags, '[' ∉ tag.toList)
    (htags' : ∀ tag ∈ tags', '[' ∉ tag.toList) (h : tagged id tags = tagged id' tags') :
    id = id' ∧ tags = tags' := by
  induction tags using List.reverseRecOn generalizing tags' with
  | nil =>
      rcases List.eq_nil_or_concat' tags' with rfl | ⟨front', tag', rfl⟩
      · exact ⟨ofAperture_inj h, rfl⟩
      · rw [tagged_append_singleton] at h
        exact absurd h (hid.ne_variant _ tag')
  | append_singleton front tag ih =>
      rw [tagged_append_singleton] at h
      rcases List.eq_nil_or_concat' tags' with rfl | ⟨front', tag', rfl⟩
      · exact absurd h.symm (hid'.ne_variant _ tag)
      · rw [tagged_append_singleton] at h
        simp only [List.forall_mem_append, List.forall_mem_singleton] at htags htags'
        obtain ⟨hbase, rfl⟩ := variant_inj htags.2 htags'.2 h
        obtain ⟨rfl, rfl⟩ := ih htags.1 htags'.1 hbase
        exact ⟨rfl, rfl⟩

end LayerId

end Photoplot
