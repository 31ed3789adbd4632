import Mathlib.Tactic.Linarith
import Mathlib.Tactic.Ring
import Photoplot.Scalar.Real
import Photoplot.Transform

/-!
# Laws of Transforms

A transform takes a moved geometry to the moved image of the geometry, where the offset is
transformed like a point. This is why the variant of a layer may paste variants of its sources:
transforming what was pasted is pasting what was transformed.

An identity transform leaves every point where it is, but it need not leave a geometry as it is
written: a rectangle of negative size is written anew from its least corner, and full turns are
added to the angle of an arc.

Everything here is about the real numbers. On them a rectangle that is turned by quarter turns is
the bounding box of its corners, and the bounding box of moved points is the moved bounding box.

## Main definitions

* `Geometry.kind`: the way in which a geometry is written.

## Main results

* `Bounds.ofPoints_map_add`: the box of moved points, by induction on the points.
* `Transform.applyPoint_add`: a transform is additive.
* `Transform.applyGeometry_translate`: every moved geometry.
* `Transform.applyShape_translate`: moved shapes, with their kinds and polarities.
* `Transform.applyGeometry_of_isIdentity`: what an identity transform leaves as it is.
-/

namespace Photoplot

/-! ### Kinds of geometry -/

/-- The kinds of geometries. -/
inductive GeometryKind where
  | circle
  | rectangle
  | polygon
  | line
  | arc
deriving DecidableEq, Repr

/-- The kind of a geometry. -/
def Geometry.kind {α : Type} : Geometry α → GeometryKind
  | circle .. => .circle
  | rectangle .. => .rectangle
  | polygon .. => .polygon
  | line .. => .line
  | arc .. => .arc

/-- Moving a geometry does not change its kind. -/
theorem Geometry.kind_translate {α : Type} [Scalar α] (g : Geometry α) (v : Point α) :
    (g.translate v).kind = g.kind := by
  cases g <;> rfl

/-! ### Points -/

namespace Point

@[simp] theorem x_add (p q : Point ℝ) : (p + q).x = p.x + q.x := rfl

@[simp] theorem y_add (p q : Point ℝ) : (p + q).y = p.y + q.y := rfl

@[simp] theorem x_sub (p q : Point ℝ) : (p - q).x = p.x - q.x := rfl

@[simp] theorem y_sub (p q : Point ℝ) : (p - q).y = p.y - q.y := rfl

@[simp] theorem x_scale (p : Point ℝ) (factor : ℝ) : (p.scale factor).x = p.x * factor := rfl

@[simp] theorem y_scale (p : Point ℝ) (factor : ℝ) : (p.scale factor).y = p.y * factor := rfl

@[simp] theorem x_polar (radius angle : ℝ) : (polar radius angle).x = radius * Real.cos angle := rfl

@[simp] theorem y_polar (radius angle : ℝ) : (polar radius angle).y = radius * Real.sin angle := rfl

/-- Points with the same coordinates are equal. -/
protected theorem ext {p q : Point ℝ} (hx : p.x = q.x) (hy : p.y = q.y) : p = q := by
  cases p
  cases q
  simp_all

/-- Offsets may be added first. -/
protected theorem add_assoc (p q r : Point ℝ) : p + q + r = p + (q + r) :=
  Point.ext (add_assoc _ _ _) (add_assoc _ _ _)

/-- On the real numbers a rotation by nothing needs no case of its own. -/
theorem rotate_eq (p : Point ℝ) (degrees : ℝ) : p.rotate degrees =
    ⟨p.x * Real.cos (Scalar.radians degrees) - p.y * Real.sin (Scalar.radians degrees),
      p.x * Real.sin (Scalar.radians degrees) + p.y * Real.cos (Scalar.radians degrees)⟩ := by
  unfold rotate
  split
  · rename_i hzero
    have hradians : Scalar.radians degrees = 0 := by
      rw [Scalar.radians, Scalar.beq_iff_eq_real.mp hzero, Scalar.zero_real, zero_mul]
    rw [hradians, Real.cos_zero, Real.sin_zero]
    exact Point.ext (by ring) (by ring)
  · rfl

/-- A rotation is additive. -/
theorem rotate_add (p q : Point ℝ) (degrees : ℝ) :
    (p + q).rotate degrees = p.rotate degrees + q.rotate degrees := by
  rw [rotate_eq, rotate_eq p, rotate_eq q]
  refine Point.ext ?_ ?_
  · simp only [x_add, y_add]
    ring
  · simp only [x_add, y_add]
    ring

/-- A scaling is additive. -/
theorem scale_add (p q : Point ℝ) (factor : ℝ) :
    (p + q).scale factor = p.scale factor + q.scale factor :=
  Point.ext (add_mul _ _ _) (add_mul _ _ _)

end Point

/-! ### Bounding boxes -/

namespace Bounds

/-- A box that is not inside out. -/
structure Proper (b : Bounds ℝ) : Prop where
  x_le : b.min.x ≤ b.max.x
  y_le : b.min.y ≤ b.max.y

/-- A box moved by an offset, also if it should be empty. -/
noncomputable def shift (b : Bounds ℝ) (v : Point ℝ) : Bounds ℝ := ⟨b.min + v, b.max + v⟩

/-- The box of a point is proper. -/
theorem proper_ofPoint (p : Point ℝ) : (ofPoint p).Proper := ⟨le_rfl, le_rfl⟩

/-- A proper box is not empty. -/
theorem Proper.isEmpty_eq_false {b : Bounds ℝ} (h : b.Proper) : b.isEmpty = false := by
  by_contra hempty
  have hlargest : (0 : ℝ) < Scalar.largest := by
    show (0 : ℝ) < 1.7976931348623157e308
    norm_num
  simp only [isEmpty, Bool.not_eq_false, Bool.and_eq_true, Scalar.beq_iff_eq_real] at hempty
  obtain ⟨⟨⟨hmin, -⟩, hmax⟩, -⟩ := hempty
  have hle := h.x_le
  rw [hmin, hmax] at hle
  linarith

/-- Real coordinates have no end, so the empty box is told apart. -/
theorem join_eq_ite (b c : Bounds ℝ) :
    b.join c = if b.isEmpty then c else if c.isEmpty then b else b.merge c :=
  if_neg Bool.false_ne_true

/-- Real coordinates are merged by their minimum and maximum. -/
theorem merge_eq (b c : Bounds ℝ) : b.merge c =
    ⟨⟨b.min.x ⊓ c.min.x, b.min.y ⊓ c.min.y⟩, ⟨b.max.x ⊔ c.max.x, b.max.y ⊔ c.max.y⟩⟩ := by
  simp only [merge, Scalar.lesser_eq_min, Scalar.greater_eq_max]

/-- The empty box gives way to the second one. -/
theorem join_empty_left (b : Bounds ℝ) : join empty b = b := by
  have hempty : (empty : Bounds ℝ).isEmpty = true := by simp [isEmpty, empty]
  rw [join_eq_ite, if_pos hempty]

/-- Proper boxes are joined by the least and greatest of their coordinates. -/
theorem Proper.join_eq {b c : Bounds ℝ} (hb : b.Proper) (hc : c.Proper) : b.join c =
    ⟨⟨b.min.x ⊓ c.min.x, b.min.y ⊓ c.min.y⟩, ⟨b.max.x ⊔ c.max.x, b.max.y ⊔ c.max.y⟩⟩ := by
  rw [join_eq_ite, hb.isEmpty_eq_false, hc.isEmpty_eq_false, ← merge_eq]
  rfl

/-- Proper boxes have a proper join. -/
theorem Proper.join {b c : Bounds ℝ} (hb : b.Proper) (hc : c.Proper) : (b.join c).Proper := by
  rw [hb.join_eq hc]
  exact ⟨inf_le_left.trans (hb.x_le.trans le_sup_left),
    inf_le_left.trans (hb.y_le.trans le_sup_left)⟩

/-- A moved box stays proper. -/
theorem Proper.shift {b : Bounds ℝ} (h : b.Proper) (v : Point ℝ) : (b.shift v).Proper :=
  ⟨add_le_add h.x_le le_rfl, add_le_add h.y_le le_rfl⟩

/-- The join of moved boxes is the moved join. -/
theorem Proper.join_shift {b c : Bounds ℝ} (hb : b.Proper) (hc : c.Proper) (v : Point ℝ) :
    (b.shift v).join (c.shift v) = (b.join c).shift v := by
  rw [(hb.shift v).join_eq (hc.shift v), hb.join_eq hc]
  simp only [Bounds.shift, Bounds.mk.injEq]
  refine ⟨Point.ext ?_ ?_, Point.ext ?_ ?_⟩
  · exact min_add_add_right _ _ _
  · exact min_add_add_right _ _ _
  · exact max_add_add_right _ _ _
  · exact max_add_add_right _ _ _

/-- Joining a moved box with moved points moves the join, by induction on the points. -/
theorem foldl_join_map_add {b : Bounds ℝ} (hb : b.Proper) (points : List (Point ℝ))
    (v : Point ℝ) :
    (points.map (· + v)).foldl (fun b p => b.join (ofPoint p)) (b.shift v) =
      (points.foldl (fun b p => b.join (ofPoint p)) b).shift v := by
  induction points generalizing b with
  | nil => rfl
  | cons p rest ih =>
      rw [List.map_cons, List.foldl_cons, List.foldl_cons, ← ih (hb.join (proper_ofPoint p)),
        ← hb.join_shift (proper_ofPoint p)]
      rfl

/-- **The box of moved points** is the moved box, if there is a point. -/
theorem ofPoints_map_add {points : List (Point ℝ)} (h : points ≠ []) (v : Point ℝ) :
    ofPoints (points.map (· + v)) = (ofPoints points).shift v := by
  match points with
  | [] => exact absurd rfl h
  | p :: rest =>
      rw [ofPoints, ofPoints, List.map_cons, List.foldl_cons, List.foldl_cons, join_empty_left,
        join_empty_left]
      exact foldl_join_map_add (proper_ofPoint p) rest v

/-- A proper box stays proper when it is joined with points. -/
theorem proper_foldl_join {b : Bounds ℝ} (hb : b.Proper) (points : List (Point ℝ)) :
    (points.foldl (fun b p => b.join (ofPoint p)) b).Proper := by
  induction points generalizing b with
  | nil => exact hb
  | cons p rest ih => exact ih (hb.join (proper_ofPoint p))

/-- The box of some points is not inside out, if there is a point. -/
theorem proper_ofPoints {points : List (Point ℝ)} (h : points ≠ []) :
    (ofPoints points).Proper := by
  match points with
  | [] => exact absurd rfl h
  | p :: rest =>
      rw [ofPoints, List.foldl_cons, join_empty_left]
      exact proper_foldl_join (proper_ofPoint p) rest

/-- A box that is not inside out is the box of its corners. -/
theorem Proper.ofPoints_corners {b : Bounds ℝ} (h : b.Proper) : ofPoints b.corners = b := by
  have hfirst : (ofPoint (⟨b.min.x, b.min.y⟩ : Point ℝ)).join (ofPoint ⟨b.max.x, b.min.y⟩) =
      ⟨⟨b.min.x, b.min.y⟩, ⟨b.max.x, b.min.y⟩⟩ := by
    rw [(proper_ofPoint _).join_eq (proper_ofPoint _)]
    simp [ofPoint, h.x_le]
  have hbottom : (⟨⟨b.min.x, b.min.y⟩, ⟨b.max.x, b.min.y⟩⟩ : Bounds ℝ).Proper := ⟨h.x_le, le_rfl⟩
  have hsecond : (⟨⟨b.min.x, b.min.y⟩, ⟨b.max.x, b.min.y⟩⟩ : Bounds ℝ).join
      (ofPoint ⟨b.max.x, b.max.y⟩) = b := by
    rw [hbottom.join_eq (proper_ofPoint _)]
    simp [ofPoint, h.x_le, h.y_le]
  have hthird : b.join (ofPoint ⟨b.min.x, b.max.y⟩) = b := by
    rw [h.join_eq (proper_ofPoint _)]
    simp [ofPoint, h.x_le, h.y_le]
  rw [ofPoints, corners, List.foldl_cons, join_empty_left, List.foldl_cons, hfirst,
    List.foldl_cons, hsecond, List.foldl_cons, hthird, List.foldl_nil]

end Bounds

/-! ### Shapes -/

/-- A geometry that is moved twice is moved by the sum. -/
theorem Geometry.translate_translate (g : Geometry ℝ) (v w : Point ℝ) :
    (g.translate v).translate w = g.translate (v + w) := by
  cases g with
  | polygon vertices =>
      simp only [translate, List.map_map]
      congr 1
      exact List.map_congr_left fun p _ => p.add_assoc v w
  | circle | rectangle | line | arc => simp only [translate, Point.add_assoc]

/-- A shape that is moved twice is moved by the sum. -/
theorem Shape.translate_translate (s : Shape ℝ) (v w : Point ℝ) :
    (s.translate v).translate w = s.translate (v + w) := by
  simp only [translate, Geometry.translate_translate]

/-! ### Transforms -/

/-- The mirror image of a point. -/
noncomputable def Mirroring.reflect (m : Mirroring) (p : Point ℝ) : Point ℝ :=
  ⟨if m.mirrorsX then -p.x else p.x, if m.mirrorsY then -p.y else p.y⟩

/-- A mirror image is stretched by one or minus one along both axes. -/
theorem Mirroring.exists_reflect_eq (m : Mirroring) :
    ∃ a b, ∀ p, m.reflect p = ⟨a * p.x, b * p.y⟩ := by
  cases m with
  | none => exact ⟨1, 1, fun p => Point.ext (one_mul _).symm (one_mul _).symm⟩
  | x => exact ⟨-1, 1, fun p => Point.ext (neg_one_mul _).symm (one_mul _).symm⟩
  | y => exact ⟨1, -1, fun p => Point.ext (one_mul _).symm (neg_one_mul _).symm⟩
  | xy => exact ⟨-1, -1, fun p => Point.ext (neg_one_mul _).symm (neg_one_mul _).symm⟩

/-- A mirroring is additive. -/
theorem Mirroring.reflect_add (m : Mirroring) (p q : Point ℝ) :
    m.reflect (p + q) = m.reflect p + m.reflect q := by
  obtain ⟨a, b, hreflect⟩ := m.exists_reflect_eq
  rw [hreflect, hreflect, hreflect]
  exact Point.ext (mul_add _ _ _) (mul_add _ _ _)

namespace Transform

variable (t : Transform ℝ)

/-- A point is mirrored, then scaled, then rotated. -/
theorem applyPoint_eq (p : Point ℝ) :
    t.applyPoint p = ((t.mirroring.reflect p).scale t.scale).rotate t.rotation := rfl

/-- **A transform is additive:** it mirrors, scales and turns about the origin. -/
theorem applyPoint_add (p q : Point ℝ) :
    t.applyPoint (p + q) = t.applyPoint p + t.applyPoint q := by
  rw [applyPoint_eq, t.mirroring.reflect_add, Point.scale_add, Point.rotate_add]
  rfl

/-- The images of moved points are the moved images. -/
theorem map_applyPoint_add (points : List (Point ℝ)) (v : Point ℝ) :
    (points.map (· + v)).map t.applyPoint =
      (points.map t.applyPoint).map (· + t.applyPoint v) := by
  rw [List.map_map, List.map_map]
  exact List.map_congr_left fun p _ => t.applyPoint_add p v

/-- The corners of a moved box are the moved corners. -/
theorem corners_ofSize_add (origin v : Point ℝ) (width height : ℝ) :
    (Bounds.ofSize (origin + v) width height).corners =
      (Bounds.ofSize origin width height).corners.map (· + v) := by
  have hx : origin.x + v.x + width = origin.x + width + v.x := add_right_comm _ _ _
  have hy : origin.y + v.y + height = origin.y + height + v.y := add_right_comm _ _ _
  simp only [Bounds.corners, Bounds.ofSize, List.map_cons, List.map_nil, Point.x_add,
    Point.y_add, hx, hy]
  rfl

/-- **Moved geometry** is taken to the moved image. -/
theorem applyGeometry_translate (v : Point ℝ) (g : Geometry ℝ) :
    t.applyGeometry (g.translate v) = (t.applyGeometry g).translate (t.applyPoint v) := by
  cases g with
  | circle center diameter =>
      simp only [Geometry.translate, applyGeometry, applyPoint_add]
  | rectangle origin width height =>
      have hcorners : ((Bounds.ofSize (origin + v) width height).corners.map t.applyPoint) =
          ((Bounds.ofSize origin width height).corners.map t.applyPoint).map
            (· + t.applyPoint v) := by
        rw [corners_ofSize_add, map_applyPoint_add]
      simp only [Geometry.translate, applyGeometry]
      rw [hcorners]
      split
      · rw [Bounds.ofPoints_map_add (by simp [Bounds.corners])]
        simp only [Bounds.shift, Bounds.width, Bounds.height, Point.x_add, Point.y_add]
        congr 1
        · exact add_sub_add_right_eq_sub _ _ _
        · exact add_sub_add_right_eq_sub _ _ _
      · rfl
  | polygon vertices =>
      simp only [Geometry.translate, applyGeometry, map_applyPoint_add]
  | line start stop width =>
      simp only [Geometry.translate, applyGeometry, applyPoint_add]
  | arc span width =>
      simp only [Geometry.translate, applyGeometry, applySpan, applyPoint_add]

/-- The image of a moved shape is the moved image. -/
theorem applyShape_eq_translate (v : Point ℝ) (s : Shape ℝ) :
    t.applyShape (s.translate v) = (t.applyShape s).translate (t.applyPoint v) := by
  simp only [applyShape, Shape.translate, applyGeometry_translate]

/-- The kind of the image of a geometry. Only rectangles may come to be written as another kind. -/
noncomputable def imageKind : GeometryKind → GeometryKind
  | .rectangle => if Scalar.isMultipleOf t.rotation 90 then .rectangle else .polygon
  | kind => kind

/-- How the image of a geometry is written depends on the kind of the geometry alone. -/
theorem kind_applyGeometry (g : Geometry ℝ) : (t.applyGeometry g).kind = t.imageKind g.kind := by
  cases g with
  | rectangle origin width height =>
      show Geometry.kind (if Scalar.isMultipleOf t.rotation 90 then _ else _) =
        if Scalar.isMultipleOf t.rotation 90 then _ else _
      split
      · rfl
      · rfl
  | circle | polygon | line | arc => rfl

/-- **Transforms and moves.** The image of a moved shape is the moved image of the shape, where the
offset is transformed like a point. Both are of the same kind, which depends on the kind of the
shape and on the rotation alone, and they have the polarity of the shape. -/
theorem applyShape_translate (v : Point ℝ) (s : Shape ℝ) :
    t.applyShape (s.translate v) = (t.applyShape s).translate (t.applyPoint v) ∧
      (t.applyShape (s.translate v)).geometry.kind = t.imageKind s.geometry.kind ∧
      ((t.applyShape s).translate (t.applyPoint v)).geometry.kind =
        t.imageKind s.geometry.kind ∧
      (t.applyShape (s.translate v)).polarity = s.polarity ∧
      ((t.applyShape s).translate (t.applyPoint v)).polarity = s.polarity := by
  have hmoved : (t.applyShape (s.translate v)).geometry.kind = t.imageKind s.geometry.kind :=
    (t.kind_applyGeometry _).trans (congrArg t.imageKind (s.geometry.kind_translate v))
  refine ⟨t.applyShape_eq_translate v s, hmoved, ?_, rfl, rfl⟩
  rw [← t.applyShape_eq_translate v s]
  exact hmoved

/-- A rectangle that is the image of another one is not inside out. -/
theorem nonneg_of_applyGeometry_rectangle {origin origin' : Point ℝ}
    {width height width' height' : ℝ}
    (h : t.applyGeometry (.rectangle origin width height) = .rectangle origin' width' height') :
    0 ≤ width' ∧ 0 ≤ height' := by
  simp only [applyGeometry] at h
  split at h
  · obtain ⟨-, rfl, rfl⟩ := Geometry.rectangle.inj h
    have hcorners : (Bounds.ofSize origin width height).corners.map t.applyPoint ≠ [] := by
      simp [Bounds.corners]
    have hproper := Bounds.proper_ofPoints hcorners
    exact ⟨sub_nonneg.mpr hproper.x_le, sub_nonneg.mpr hproper.y_le⟩
  · cases h

/-! ### Identity transforms -/

variable {t}

/-- An identity transform does not mirror or scale, and it turns by full turns. -/
theorem isIdentity_iff : t.isIdentity ↔
    t.mirroring = .none ∧ (∃ turns : ℤ, t.rotation = turns * 360) ∧ t.scale = 1 := by
  have hscale : t.scale == (Scalar.instOfNat 1).ofNat ↔ t.scale = 1 := by
    rw [Scalar.beq_iff_eq_real, Scalar.one_real]
  have hturns : Scalar.isMultipleOf t.rotation 360 ↔ ∃ turns : ℤ, t.rotation = turns * 360 := by
    rw [Scalar.isMultipleOf_iff]
    norm_cast
  unfold isIdentity
  rw [Bool.and_eq_true, Bool.and_eq_true, beq_iff_eq, hturns, hscale, and_assoc]

/-- Full turns leave points where they are. -/
theorem rotate_full_turns (p : Point ℝ) (turns : ℤ) : p.rotate (turns * 360) = p := by
  have hangle : Scalar.radians (turns * 360 : ℝ) = turns * (2 * Real.pi) := by
    show (turns * 360 : ℝ) * (Real.pi / ((180 : ℕ) : ℝ)) = turns * (2 * Real.pi)
    push_cast
    ring
  have hsin : Real.sin (turns * (2 * Real.pi)) = 0 :=
    Real.sin_eq_zero_iff.mpr ⟨turns * 2, by push_cast; ring⟩
  rw [Point.rotate_eq, hangle, hsin, Real.cos_int_mul_two_pi]
  exact Point.ext (by ring) (by ring)

/-- An identity transform moves no point. -/
theorem applyPoint_of_isIdentity (h : t.isIdentity) (p : Point ℝ) : t.applyPoint p = p := by
  obtain ⟨hmirroring, ⟨turns, hrotation⟩, hscale⟩ := isIdentity_iff.mp h
  have hscaled : p.scale 1 = p := Point.ext (mul_one _) (mul_one _)
  rw [applyPoint, hmirroring, hrotation, hscale, rotate_full_turns]
  exact hscaled

/-- A geometry that is written as an identity transform writes it: a rectangle is not inside out,
and an arc is not turned at all. -/
def Settles (t : Transform ℝ) : Geometry ℝ → Prop
  | .rectangle _ width height => 0 ≤ width ∧ 0 ≤ height
  | .arc _ _ => t.rotation = 0
  | .circle .. | .polygon _ | .line .. => True

/-- **An identity transform** leaves such a geometry as it is written. -/
theorem applyGeometry_of_isIdentity (h : t.isIdentity) {g : Geometry ℝ} (hg : t.Settles g) :
    t.applyGeometry g = g := by
  have hpoint := applyPoint_of_isIdentity h
  have hpoints (points : List (Point ℝ)) : points.map t.applyPoint = points :=
    (List.map_congr_left fun p _ => hpoint p).trans (List.map_id points)
  obtain ⟨hmirroring, ⟨turns, hrotation⟩, hscale⟩ := isIdentity_iff.mp h
  cases g with
  | circle center diameter => simp only [applyGeometry, hpoint, hscale, mul_one]
  | rectangle origin width height =>
      have hquarter : Scalar.isMultipleOf t.rotation 90 := by
        refine Scalar.isMultipleOf_iff.mpr ⟨turns * 4, ?_⟩
        rw [hrotation]
        push_cast
        ring
      have hproper : (Bounds.ofSize origin width height).Proper :=
        ⟨le_add_of_nonneg_right hg.1, le_add_of_nonneg_right hg.2⟩
      simp only [applyGeometry, hpoints, if_pos hquarter, hproper.ofPoints_corners]
      congr 1
      · exact add_sub_cancel_left _ _
      · exact add_sub_cancel_left _ _
  | polygon vertices => simp only [applyGeometry, hpoints]
  | line start stop width => simp only [applyGeometry, hpoint, hscale, mul_one]
  | arc span width =>
      have hturn : t.rotation = 0 := hg
      have hangle : t.applyAngle span.startAngle = span.startAngle := by
        rw [applyAngle, hmirroring, hturn]
        show span.startAngle + 0 * _ = _
        rw [zero_mul, add_zero]
      simp only [applyGeometry, applySpan, hpoint, hscale, mul_one, hangle, hmirroring]
      rfl

end Transform

end Photoplot
