import Mathlib.Data.Real.Basic
import Mathlib.Order.Bounds.Basic
import Photoplot.Proofs.Inliner
import Photoplot.Proofs.PictureGroups
import Photoplot.Proofs.TransformLaws

/-!
# The Boxes of Layers

The bounding box of a layer is put together from those of its shapes and those of the layers that it
pastes, moved to where they are pasted. It is the box of all the shapes that come out when the
pastes are flattened.

Everything here is about the real numbers.

## Box convention

The empty box is a value like any other, and a box that is far enough inside out is the empty box.
A box is **regular** when it is either empty or not as far inside out: joining and moving regular
boxes never makes an empty box of one that was not empty. Shapes whose sizes are within the range of
coordinates have regular boxes, also if their sizes are negative.

## Main definitions

* `Bounds.Regular`, `Bounds.hull`: regular boxes, and the join of many of them.
* `Bounds.IsHull`: the least and greatest coordinates of boxes.
* `Geometry.WithinRange`: no size and no corner lies beyond the range.

## Main results

* `Geometry.bounds_translate`: moving commutes with boxes, one case for each kind of geometry.
* `Picture.flattens_items`: the box of items and that of what they draw.
* `Picture.flattens_groups`: the boxes of a picture, by induction along the order of layers.
* `finish_bounds`: the box of every layer is the join of what it draws.
-/

namespace Photoplot

/-! ### Regular boxes -/

/-- The range of coordinates reaches beyond zero. -/
theorem largest_pos : (0 : ℝ) < Scalar.largest := by
  show (0 : ℝ) < 1.7976931348623157e308
  norm_num

namespace Bounds

variable {a b c : Bounds ℝ} {boxes : List (Bounds ℝ)}

/-- The test for emptiness finds the empty box only. -/
theorem isEmpty_iff : b.isEmpty = true ↔ b = empty := by
  constructor
  · intro h
    simp only [isEmpty, Bool.and_eq_true, Scalar.beq_iff_eq_real] at h
    obtain ⟨⟨⟨hminx, hminy⟩, hmaxx⟩, hmaxy⟩ := h
    cases b with
    | mk min max => exact congrArg₂ mk (Point.ext hminx hminy) (Point.ext hmaxx hmaxy)
  · rintro rfl
    simp [isEmpty, empty]

/-- The empty box is empty. -/
theorem isEmpty_empty : (empty : Bounds ℝ).isEmpty = true := isEmpty_iff.mpr rfl

/-- A box that is empty, or not as far inside out as the empty box. -/
def Regular (b : Bounds ℝ) : Prop := b = empty ∨ -Scalar.largest ≤ b.max.x - b.min.x

/-- The empty box is regular. -/
theorem regular_empty : Regular empty := .inl rfl

/-- A box that is not as far inside out as the empty one is not empty. -/
theorem isEmpty_eq_false (h : -Scalar.largest ≤ b.max.x - b.min.x) : b.isEmpty = false := by
  rw [Bool.eq_false_iff]
  intro hempty
  obtain rfl := isEmpty_iff.mp hempty
  have hwidth : (empty : Bounds ℝ).max.x - (empty : Bounds ℝ).min.x =
    -Scalar.largest - Scalar.largest := rfl
  rw [hwidth] at h
  linarith [largest_pos]

/-- The empty box gives way to the first one. -/
theorem join_empty_right (b : Bounds ℝ) : b.join empty = b := by
  rw [join_eq_ite, isEmpty_empty]
  split
  · rename_i h
    exact (isEmpty_iff.mp h).symm
  · rfl

/-- Boxes that are not empty are joined coordinate by coordinate. -/
theorem join_eq_merge (hb : b.isEmpty = false) (hc : c.isEmpty = false) :
    b.join c = b.merge c := by
  rw [join_eq_ite, hb, hc]
  rfl

/-- Three boxes may be merged in either grouping. -/
theorem merge_assoc (a b c : Bounds ℝ) : (a.merge b).merge c = a.merge (b.merge c) := by
  simp only [merge_eq, inf_assoc, sup_assoc]

/-- A box gets no narrower when another one is merged into it. -/
theorem width_le_merge (b c : Bounds ℝ) :
    b.max.x - b.min.x ≤ (b.merge c).max.x - (b.merge c).min.x := by
  rw [merge_eq]
  exact sub_le_sub le_sup_left inf_le_left

/-- Regular boxes are either both there or one of them does not count. -/
theorem Regular.join_cases (hb : b.Regular) (hc : c.Regular) :
    b = empty ∧ b.join c = c ∨ c = empty ∧ b.join c = b ∨
      -Scalar.largest ≤ b.max.x - b.min.x ∧ -Scalar.largest ≤ c.max.x - c.min.x ∧
        b.join c = b.merge c := by
  rcases hb with rfl | hb
  · exact .inl ⟨rfl, join_empty_left c⟩
  rcases hc with rfl | hc
  · exact .inr (.inl ⟨rfl, join_empty_right b⟩)
  · exact .inr (.inr ⟨hb, hc, join_eq_merge (isEmpty_eq_false hb) (isEmpty_eq_false hc)⟩)

/-- The join of regular boxes is regular. -/
theorem Regular.join (hb : b.Regular) (hc : c.Regular) : (b.join c).Regular := by
  rcases hb.join_cases hc with ⟨-, h⟩ | ⟨-, h⟩ | ⟨hwidth, -, h⟩
  · rwa [h]
  · rwa [h]
  · rw [h]
    exact .inr (hwidth.trans (width_le_merge b c))

/-- Three regular boxes may be joined in either grouping. -/
theorem join_assoc (ha : a.Regular) (hb : b.Regular) (hc : c.Regular) :
    (a.join b).join c = a.join (b.join c) := by
  rcases ha with rfl | ha
  · rw [join_empty_left, join_empty_left]
  rcases hb with rfl | hb
  · rw [join_empty_right, join_empty_left]
  rcases hc with rfl | hc
  · rw [join_empty_right, join_empty_right]
  have hab := isEmpty_eq_false (ha.trans (width_le_merge a b))
  have hbc := isEmpty_eq_false (hb.trans (width_le_merge b c))
  rw [join_eq_merge (isEmpty_eq_false ha) (isEmpty_eq_false hb),
    join_eq_merge (isEmpty_eq_false hb) (isEmpty_eq_false hc),
    join_eq_merge hab (isEmpty_eq_false hc), join_eq_merge (isEmpty_eq_false ha) hbc, merge_assoc]

/-! ### Moved boxes -/

/-- The empty box stays where it is. -/
theorem translate_empty (v : Point ℝ) : (empty : Bounds ℝ).translate v = empty := by
  rw [translate, if_pos isEmpty_empty]

/-- A box that is not empty is moved by both of its corners. -/
theorem translate_eq_shift (h : b.isEmpty = false) (v : Point ℝ) : b.translate v = b.shift v := by
  rw [translate, h]
  rfl

/-- A move does not change how wide a box is. -/
theorem width_shift (b : Bounds ℝ) (v : Point ℝ) :
    (b.shift v).max.x - (b.shift v).min.x = b.max.x - b.min.x :=
  add_sub_add_right_eq_sub _ _ _

/-- A regular box that is moved is regular. -/
theorem Regular.translate (hb : b.Regular) (v : Point ℝ) : (b.translate v).Regular := by
  rcases hb with rfl | hb
  · rw [translate_empty]
    exact regular_empty
  · rw [translate_eq_shift (isEmpty_eq_false hb)]
    exact .inr ((width_shift b v).symm ▸ hb)

/-- Boxes may be moved before they are merged or afterwards. -/
theorem merge_shift (b c : Bounds ℝ) (v : Point ℝ) :
    (b.shift v).merge (c.shift v) = (b.merge c).shift v := by
  simp only [merge_eq, shift, mk.injEq]
  refine ⟨Point.ext ?_ ?_, Point.ext ?_ ?_⟩
  · exact min_add_add_right _ _ _
  · exact min_add_add_right _ _ _
  · exact max_add_add_right _ _ _
  · exact max_add_add_right _ _ _

/-- Moving distributes over joins. -/
theorem Regular.translate_join (hb : b.Regular) (hc : c.Regular) (v : Point ℝ) :
    (b.translate v).join (c.translate v) = (b.join c).translate v := by
  rcases hb with rfl | hb
  · rw [translate_empty, join_empty_left, join_empty_left]
  rcases hc with rfl | hc
  · rw [translate_empty, join_empty_right, join_empty_right]
  have hbc := isEmpty_eq_false (hb.trans (width_le_merge b c))
  have hb' := isEmpty_eq_false ((width_shift b v).symm ▸ hb)
  have hc' := isEmpty_eq_false ((width_shift c v).symm ▸ hc)
  rw [translate_eq_shift (isEmpty_eq_false hb), translate_eq_shift (isEmpty_eq_false hc),
    join_eq_merge (isEmpty_eq_false hb) (isEmpty_eq_false hc), translate_eq_shift hbc,
    join_eq_merge hb' hc', merge_shift]

/-! ### Many boxes -/

/-- The join of some boxes. -/
noncomputable def hull (boxes : List (Bounds ℝ)) : Bounds ℝ := boxes.foldl join empty

/-- Joining regular boxes to a regular one gives a regular one. -/
theorem regular_foldl_join (hb : b.Regular) (h : ∀ c ∈ boxes, Regular c) :
    (boxes.foldl Bounds.join b).Regular := by
  induction boxes generalizing b with
  | nil => exact hb
  | cons c rest ih =>
      obtain ⟨hc, hrest⟩ := List.forall_mem_cons.mp h
      exact ih (hb.join hc) hrest

/-- The hull of regular boxes is regular. -/
theorem regular_hull (h : ∀ b ∈ boxes, Regular b) : (hull boxes).Regular :=
  regular_foldl_join regular_empty h

/-- Boxes may be joined before they are joined to another one. -/
theorem foldl_join_eq (hb : b.Regular) (h : ∀ c ∈ boxes, Regular c) :
    boxes.foldl Bounds.join b = b.join (hull boxes) := by
  induction boxes generalizing b with
  | nil => exact (join_empty_right b).symm
  | cons c rest ih =>
      obtain ⟨hc, hrest⟩ := List.forall_mem_cons.mp h
      have hcons : hull (c :: rest) = c.join (hull rest) := by
        rw [hull, List.foldl_cons, join_empty_left, ih hc hrest]
      rw [List.foldl_cons, ih (hb.join hc) hrest, join_assoc hb hc (regular_hull hrest), hcons]

/-- The hull of boxes is the first one joined to the hull of the others. -/
theorem hull_cons (hb : b.Regular) (h : ∀ c ∈ boxes, Regular c) :
    hull (b :: boxes) = b.join (hull boxes) := by
  rw [hull, List.foldl_cons, join_empty_left, foldl_join_eq hb h]

/-- The hull of two lists of boxes is the join of their hulls. -/
theorem hull_append {others : List (Bounds ℝ)} (h : ∀ b ∈ boxes, Regular b)
    (hothers : ∀ b ∈ others, Regular b) :
    hull (boxes ++ others) = (hull boxes).join (hull others) := by
  rw [hull, List.foldl_append]
  exact foldl_join_eq (regular_hull h) hothers

/-- Moving distributes over the join of many boxes. -/
theorem hull_map_translate (h : ∀ b ∈ boxes, Regular b) (v : Point ℝ) :
    hull (boxes.map (·.translate v)) = (hull boxes).translate v := by
  induction boxes with
  | nil => exact (translate_empty v).symm
  | cons b rest ih =>
      obtain ⟨hb, hrest⟩ := List.forall_mem_cons.mp h
      have hmoved : ∀ c ∈ rest.map (·.translate v), Regular c := by
        intro c hc
        obtain ⟨original, horiginal, rfl⟩ := List.mem_map.mp hc
        exact (hrest original horiginal).translate v
      rw [List.map_cons, hull_cons (hb.translate v) hmoved, ih hrest, hull_cons hb hrest,
        hb.translate_join (regular_hull hrest)]

/-- The hull of boxes is empty only if all of them are. -/
theorem hull_eq_empty_iff (h : ∀ b ∈ boxes, Regular b) :
    hull boxes = empty ↔ ∀ b ∈ boxes, b = empty := by
  induction boxes with
  | nil => simp [hull]
  | cons b rest ih =>
      obtain ⟨hb, hrest⟩ := List.forall_mem_cons.mp h
      rw [hull_cons hb hrest, List.forall_mem_cons, ← ih hrest]
      rcases hb.join_cases (regular_hull hrest) with ⟨rfl, hjoin⟩ | ⟨hempty, hjoin⟩ |
        ⟨hwidth, -, hjoin⟩
      · rw [hjoin]
        simp
      · rw [hjoin, hempty]
        simp
      · -- neither of the two is empty
        have hleft := isEmpty_eq_false hwidth
        have hboth := isEmpty_eq_false (hwidth.trans (width_le_merge b (hull rest)))
        rw [hjoin]
        constructor
        · intro heq
          rw [isEmpty_iff.mpr heq] at hboth
          cases hboth
        · rintro ⟨heq, -⟩
          rw [isEmpty_iff.mpr heq] at hleft
          cases hleft

end Bounds

/-! ### The boxes of geometries -/

namespace Bounds

/-- A square around a moved point is the moved square. -/
theorem around_add (center v : Point ℝ) (size : ℝ) :
    around (center + v) size = (around center size).shift v := by
  simp only [around, shift, mk.injEq]
  refine ⟨Point.ext ?_ ?_, Point.ext ?_ ?_⟩
  · exact add_sub_right_comm _ _ _
  · exact add_sub_right_comm _ _ _
  · exact add_right_comm _ _ _
  · exact add_right_comm _ _ _

/-- A square is as wide as its size. -/
theorem width_around (center : Point ℝ) (size : ℝ) :
    (around center size).max.x - (around center size).min.x = size := by
  show center.x + size / ((2 : ℕ) : ℝ) - (center.x - size / ((2 : ℕ) : ℝ)) = size
  push_cast
  ring

/-- The hull of boxes at moved points is the moved hull. -/
theorem hull_map_add {box : Point ℝ → Bounds ℝ} (hadd : ∀ p v, box (p + v) = (box p).shift v)
    (hwidth : ∀ p, -Scalar.largest ≤ (box p).max.x - (box p).min.x) (points : List (Point ℝ))
    (v : Point ℝ) :
    hull ((points.map (· + v)).map box) = (hull (points.map box)).translate v := by
  have hregular : ∀ b ∈ points.map box, Regular b := by
    intro b hb
    obtain ⟨p, -, rfl⟩ := List.mem_map.mp hb
    exact .inr (hwidth p)
  rw [← hull_map_translate hregular, List.map_map, List.map_map]
  congr 1
  refine List.map_congr_left fun p _ => ?_
  show box (p + v) = (box p).translate v
  rw [translate_eq_shift (isEmpty_eq_false (hwidth p)), hadd]

/-- The hull of boxes at points is regular if they are not too far inside out. -/
theorem regular_hull_map {box : Point ℝ → Bounds ℝ}
    (hwidth : ∀ p, -Scalar.largest ≤ (box p).max.x - (box p).min.x) (points : List (Point ℝ)) :
    (hull (points.map box)).Regular := by
  refine regular_hull fun b hb => ?_
  obtain ⟨p, -, rfl⟩ := List.mem_map.mp hb
  exact .inr (hwidth p)

end Bounds

/-- The points of an arc move with its centre. -/
theorem Span.points_add (span : Span ℝ) (v : Point ℝ) :
    ({ span with center := span.center + v } : Span ℝ).points = span.points.map (· + v) := by
  simp only [Span.points, List.map_map]
  refine List.map_congr_left fun p _ => ?_
  exact Point.ext (add_right_comm _ _ _) (add_right_comm _ _ _)

namespace Geometry

/-- The sizes that a geometry is written with. -/
def sizes {α : Type} : Geometry α → List α
  | circle _ diameter => [diameter]
  | rectangle _ width height => [width, height]
  | polygon _ => []
  | line _ _ width | arc _ width => [width]

/-- A move changes no sizes. -/
@[simp] theorem sizes_translate {α : Type} [Scalar α] (g : Geometry α) (v : Point α) :
    (g.translate v).sizes = g.sizes := by
  cases g <;> rfl

/-- No size of a geometry is beyond the range of coordinates. -/
def SizesWithin (g : Geometry ℝ) : Prop := ∀ size ∈ g.sizes, |size| ≤ Scalar.largest

/-- No size of a geometry and no corner of its box is beyond the range of coordinates. -/
structure WithinRange (g : Geometry ℝ) : Prop where
  sizes : g.SizesWithin
  min : |g.bounds.min.x| ≤ Scalar.largest ∧ |g.bounds.min.y| ≤ Scalar.largest
  max : |g.bounds.max.x| ≤ Scalar.largest ∧ |g.bounds.max.y| ≤ Scalar.largest

/-- A size that is negative is not beyond the range either. -/
theorem SizesWithin.le {g : Geometry ℝ} (h : g.SizesWithin) {size : ℝ} (hsize : size ∈ g.sizes) :
    -Scalar.largest ≤ size :=
  (abs_le.mp (h size hsize)).1

/-- A square of a size within the range is not too far inside out. -/
theorem SizesWithin.le_width_around {g : Geometry ℝ} (h : g.SizesWithin) {size : ℝ}
    (hsize : size ∈ g.sizes) (p : Point ℝ) :
    -Scalar.largest ≤ (Bounds.around p size).max.x - (Bounds.around p size).min.x := by
  rw [Bounds.width_around]
  exact h.le hsize

/-- The box of a polygon is the hull of its vertices. -/
theorem bounds_polygon (vertices : List (Point ℝ)) :
    (polygon vertices).bounds = Bounds.hull (vertices.map Bounds.ofPoint) := by
  rw [Bounds.hull, List.foldl_map]
  rfl

/-- The box of a line is the hull of the squares around its ends. -/
theorem bounds_line (start stop : Point ℝ) (width : ℝ) :
    (line start stop width).bounds = Bounds.hull ([start, stop].map (Bounds.around · width)) := by
  show _ = (Bounds.empty.join (.around start width)).join (.around stop width)
  rw [Bounds.join_empty_left]
  rfl

/-- The box of an arc is the hull of the squares around its points. -/
theorem bounds_arc (span : Span ℝ) (width : ℝ) :
    (arc span width).bounds = Bounds.hull (span.points.map (Bounds.around · width)) := by
  rw [Bounds.hull, List.foldl_map]
  rfl

/-- The box of a point is not inside out. -/
theorem le_width_ofPoint (p : Point ℝ) :
    -Scalar.largest ≤ (Bounds.ofPoint p).max.x - (Bounds.ofPoint p).min.x := by
  show -Scalar.largest ≤ p.x - p.x
  linarith [largest_pos]

/-- Geometry with sizes within the range has a regular box. -/
theorem regular_bounds {g : Geometry ℝ} (h : g.SizesWithin) : g.bounds.Regular := by
  cases g with
  | circle center diameter => exact .inr (h.le_width_around List.mem_cons_self center)
  | rectangle origin width height =>
      refine .inr ?_
      show -Scalar.largest ≤ origin.x + width - origin.x
      rw [add_sub_cancel_left]
      exact h.le List.mem_cons_self
  | polygon vertices =>
      rw [bounds_polygon]
      exact Bounds.regular_hull_map le_width_ofPoint vertices
  | line start stop width =>
      rw [bounds_line]
      exact Bounds.regular_hull_map (h.le_width_around List.mem_cons_self) _
  | arc span width =>
      rw [bounds_arc]
      exact Bounds.regular_hull_map (h.le_width_around List.mem_cons_self) _

/-- **The box of moved geometry** is the moved box, also if it is empty or inside out. -/
theorem bounds_translate {g : Geometry ℝ} (h : g.SizesWithin) (v : Point ℝ) :
    (g.translate v).bounds = g.bounds.translate v := by
  cases g with
  | circle center diameter =>
      have hempty := Bounds.isEmpty_eq_false (h.le_width_around List.mem_cons_self center)
      exact (Bounds.around_add center v diameter).trans (Bounds.translate_eq_shift hempty v).symm
  | rectangle origin width height =>
      have hwidth : -Scalar.largest ≤ origin.x + width - origin.x := by
        rw [add_sub_cancel_left]
        exact h.le List.mem_cons_self
      have hempty : (Bounds.ofSize origin width height).isEmpty = false :=
        Bounds.isEmpty_eq_false hwidth
      refine Eq.trans ?_ (Bounds.translate_eq_shift hempty v).symm
      exact congrArg (Bounds.mk _) (Point.ext (add_right_comm _ _ _) (add_right_comm _ _ _))
  | polygon vertices =>
      rw [translate, bounds_polygon, bounds_polygon]
      exact Bounds.hull_map_add (fun _ _ => rfl) le_width_ofPoint vertices v
  | line start stop width =>
      rw [translate, bounds_line, bounds_line]
      exact Bounds.hull_map_add (fun p v => Bounds.around_add p v width)
        (h.le_width_around List.mem_cons_self) [start, stop] v
  | arc span width =>
      rw [translate, bounds_arc, bounds_arc, Span.points_add]
      exact Bounds.hull_map_add (fun p v => Bounds.around_add p v width)
        (h.le_width_around List.mem_cons_self) span.points v

end Geometry

/-! ### What layers draw -/

namespace Picture

open Bounds

variable {p picture : Picture ℝ} {layers : LayerTable ℝ} {boxes : Std.TreeMap LayerId (Bounds ℝ)}

/-- The boxes of what is drawn. -/
noncomputable def boxesOf (placed : List (PlacedShape ℝ)) : List (Bounds ℝ) :=
  placed.map (·.shape.bounds)

/-- A box is that of what a layer draws, unless it draws a shape of a size beyond the range. -/
def Draws (p : Picture ℝ) (id : LayerId) (box : Bounds ℝ) : Prop :=
  ∃ commands placed, p.layer? id = some commands ∧ p.Flattens commands placed ∧
    ((∀ x ∈ placed, x.shape.geometry.SizesWithin) → box = hull (boxesOf placed))

/-- The box that an item adds. A paste of a layer without a known box adds nothing. -/
noncomputable def itemBox (boxes : Std.TreeMap LayerId (Bounds ℝ)) : Item ℝ → Bounds ℝ
  | .shape s => s.bounds
  | .paste q => (boxes[q.source]?.map (·.translate q.center)).getD .empty

/-- The box of items is the join of what each of them adds. -/
theorem itemBounds_eq_foldl (boxes : Std.TreeMap LayerId (Bounds ℝ)) (items : List (Item ℝ)) :
    itemBounds boxes items = (items.map (itemBox boxes)).foldl join empty := by
  rw [itemBounds, List.foldl_map]
  congr 1
  funext box item
  cases item with
  | shape s => rfl
  | paste q =>
      simp only [itemBox]
      cases boxes[q.source]? with
      | some b => rfl
      | none => exact (join_empty_right box).symm

/-- Shapes with sizes within the range have regular boxes. -/
theorem regular_boxesOf {placed : List (PlacedShape ℝ)}
    (h : ∀ x ∈ placed, x.shape.geometry.SizesWithin) : ∀ b ∈ boxesOf placed, Regular b := by
  intro b hb
  obtain ⟨x, hx, rfl⟩ := List.mem_map.mp hb
  exact Geometry.regular_bounds (h x hx)

/-- A paste changes no sizes. -/
theorem sizesWithin_pasted {x : PlacedShape ℝ} {polarity : Polarity} {center : Point ℝ} :
    (x.pasted polarity center).shape.geometry.SizesWithin ↔ x.shape.geometry.SizesWithin := by
  unfold Geometry.SizesWithin
  rw [PlacedShape.pasted, Shape.translate, Geometry.sizes_translate]

/-- What is pasted has the moved boxes. -/
theorem boxesOf_pasted {placed : List (PlacedShape ℝ)}
    (h : ∀ x ∈ placed, x.shape.geometry.SizesWithin) (polarity : Polarity) (center : Point ℝ) :
    boxesOf (placed.map (.pasted polarity center)) =
      (boxesOf placed).map (·.translate center) := by
  simp only [boxesOf, List.map_map]
  exact List.map_congr_left fun x hx => Geometry.bounds_translate (h x hx) center

/-- **Items** draw something, and their boxes join to the box of what they draw, if what is pasted
is known to have the box of what it draws. -/
theorem flattens_items (items : List (Item ℝ))
    (hsources : ∀ source ∈ Item.sources items,
      ∃ box, boxes[source]? = some box ∧ p.Draws source box) :
    ∃ placed, p.Flattens (items.map .ofItem) placed ∧
      ((∀ x ∈ placed, x.shape.geometry.SizesWithin) → ∀ box : Bounds ℝ, box.Regular →
        (items.map (itemBox boxes)).foldl join box = box.join (hull (boxesOf placed))) := by
  induction items with
  | nil => exact ⟨[], .nil, fun _ box _ => (join_empty_right box).symm⟩
  | cons item rest ih =>
      cases item with
      | shape s =>
          obtain ⟨placed, hflattens, hbox⟩ := ih hsources
          refine ⟨.drawn s :: placed, .shape hflattens, fun hsizes box hregular => ?_⟩
          obtain ⟨hs, hrest⟩ := List.forall_mem_cons.mp hsizes
          have hfirst : s.bounds.Regular := Geometry.regular_bounds hs
          have hothers := regular_boxesOf hrest
          show (rest.map (itemBox boxes)).foldl join (box.join s.bounds) =
            box.join (hull (s.bounds :: boxesOf placed))
          rw [hbox hrest _ (hregular.join hfirst), hull_cons hfirst hothers,
            join_assoc hregular hfirst (regular_hull hothers)]
      | paste q =>
          obtain ⟨placed, hflattens, hbox⟩ := ih fun source hsource =>
            hsources source (List.mem_cons_of_mem _ hsource)
          obtain ⟨sourceBox, hsourceBox, commands, inner, hcommands, hinner, hsourceHull⟩ :=
            hsources q.source List.mem_cons_self
          refine ⟨_, .paste hcommands hinner hflattens, fun hsizes box hregular => ?_⟩
          obtain ⟨hpasted, hrest⟩ := List.forall_mem_append.mp hsizes
          have hinnerSizes : ∀ x ∈ inner, x.shape.geometry.SizesWithin := fun x hx =>
            sizesWithin_pasted.mp (hpasted _ (List.mem_map_of_mem hx))
          have hmoved := regular_boxesOf hpasted
          have hothers := regular_boxesOf hrest
          have hadded : itemBox boxes (.paste q) =
              hull (boxesOf (inner.map (.pasted q.polarity q.center))) := by
            rw [boxesOf_pasted hinnerSizes, hull_map_translate (regular_boxesOf hinnerSizes),
              ← hsourceHull hinnerSizes, itemBox, hsourceBox]
            rfl
          have hall : hull (boxesOf (inner.map (.pasted q.polarity q.center) ++ placed)) =
              (hull (boxesOf (inner.map (.pasted q.polarity q.center)))).join
                (hull (boxesOf placed)) := by
            rw [boxesOf, List.map_append]
            exact hull_append hmoved hothers
          rw [List.map_cons, List.foldl_cons, hadded,
            hbox hrest _ (hregular.join (regular_hull hmoved)), hall,
            join_assoc hregular (regular_hull hmoved) (regular_hull hothers)]

/-- **Groups of layers** in an order that they can be drawn in. Every box that is needed is known by
then, so each layer gets the box of what it draws. -/
theorem draws_groups (before : List LayerId) {ids : List LayerId}
    (hplaced : layers.Placed (before ++ ids))
    (hgiven : ∀ id ∈ ids, ∀ layer, layers[id]? = some layer →
      p.layer? id = some (layer.items.toList.map .ofItem))
    (hbefore : ∀ id ∈ before, ∃ box, boxes[id]? = some box ∧ p.Draws id box)
    (h : groups layers boxes ids = .ok picture) {id : LayerId} {bounds : Option (Bounds ℝ)}
    (hstart : .startLayer id bounds ∈ picture) :
    ∃ box, p.Draws id box ∧ bounds = if box.isEmpty then none else some box := by
  induction ids generalizing before boxes picture with
  | nil =>
      obtain rfl := Except.ok.inj h
      cases hstart
  | cons first rest ih =>
      obtain ⟨layer, others, hlayer, hothers, rfl⟩ := exists_of_groups_cons h
      obtain ⟨placed, hflattens, hbox⟩ := flattens_items layer.items.toList
        fun source hsource => hbefore source (hplaced.sources_before rfl ⟨layer, hlayer, hsource⟩)
      have hfirst : p.Draws first (itemBounds boxes layer.items.toList) := by
        refine ⟨_, placed, hgiven first List.mem_cons_self layer hlayer, hflattens,
          fun hsizes => ?_⟩
        rw [itemBounds_eq_foldl, hbox hsizes empty regular_empty, join_empty_left]
      rcases List.mem_append.mp hstart with hstart | hstart
      · rcases List.mem_append.mp hstart with hstart | hstart
        · rcases List.mem_cons.mp hstart with heq | hstart
          · obtain ⟨rfl, rfl⟩ := DrawCommand.startLayer.inj heq
            exact ⟨_, hfirst, rfl⟩
          · obtain ⟨item, -, heq⟩ := List.mem_map.mp hstart
            cases item <;> cases heq
        · cases List.mem_singleton.mp hstart
      · refine ih (before ++ [first]) (by simpa using hplaced)
          (fun id hid => hgiven id (List.mem_cons_of_mem _ hid)) (fun id hid => ?_) hothers hstart
        rcases List.mem_append.mp hid with hearlier | hnew
        · have hne : first ≠ id := by
            rintro rfl
            exact (List.nodup_append.mp hplaced.nodup).2.2 _ hearlier _ List.mem_cons_self rfl
          obtain ⟨box, hknown, hdraws⟩ := hbefore id hearlier
          exact ⟨box, by simpa [Std.TreeMap.getElem?_insert, hne] using hknown, hdraws⟩
        · obtain rfl := List.mem_singleton.mp hnew
          exact ⟨_, by simp, hfirst⟩

end Picture

/-! ### Least and greatest coordinates -/

namespace Bounds

variable {boxes : List (Bounds ℝ)}

/-- The coordinates of a box are the least and the greatest ones of some boxes. -/
structure Spans (boxes : List (Bounds ℝ)) (bounds : Bounds ℝ) : Prop where
  min_x : IsLeast {x | ∃ b ∈ boxes, b.min.x = x} bounds.min.x
  min_y : IsLeast {y | ∃ b ∈ boxes, b.min.y = y} bounds.min.y
  max_x : IsGreatest {x | ∃ b ∈ boxes, b.max.x = x} bounds.max.x
  max_y : IsGreatest {y | ∃ b ∈ boxes, b.max.y = y} bounds.max.y

/-- The join of some boxes, coordinate by coordinate, if one of them has an extent. -/
def IsHull (boxes : List (Bounds ℝ)) : Option (Bounds ℝ) → Prop
  | none => ∀ b ∈ boxes, b.isEmpty = true
  | some bounds => (∃ b ∈ boxes, b.isEmpty = false) ∧ Spans boxes bounds

/-- A box that the empty box does not stand out of. -/
structure Within (b : Bounds ℝ) : Prop where
  min_x : b.min.x ≤ Scalar.largest
  min_y : b.min.y ≤ Scalar.largest
  max_x : -Scalar.largest ≤ b.max.x
  max_y : -Scalar.largest ≤ b.max.y

/-- A box within the range stays so when another one is merged into it. -/
theorem Within.merge {b : Bounds ℝ} (hb : b.Within) (c : Bounds ℝ) : (b.merge c).Within := by
  rw [merge_eq]
  exact
    { min_x := inf_le_left.trans hb.min_x
      min_y := inf_le_left.trans hb.min_y
      max_x := hb.max_x.trans le_sup_left
      max_y := hb.max_y.trans le_sup_left }

/-- Two boxes may be merged in either order. -/
theorem merge_comm (b c : Bounds ℝ) : b.merge c = c.merge b := by
  simp only [merge_eq, inf_comm, sup_comm]

/-- Within the range the empty box needs no special treatment: its least coordinates are greater
than all others, and its greatest ones less. -/
theorem Within.merge_empty {b : Bounds ℝ} (h : b.Within) : b.merge empty = b := by
  rw [merge_eq]
  cases b with
  | mk min max =>
      refine congrArg₂ Bounds.mk (Point.ext ?_ ?_) (Point.ext ?_ ?_)
      · exact inf_eq_left.mpr h.min_x
      · exact inf_eq_left.mpr h.min_y
      · exact sup_eq_left.mpr h.max_x
      · exact sup_eq_left.mpr h.max_y

/-- **Within the range** boxes are joined coordinate by coordinate, also if one of them is empty, as
they are where the range has an end. -/
theorem Regular.join_eq_merge {b c : Bounds ℝ} (hb : b.Regular) (hc : c.Regular) (hb' : b.Within)
    (hc' : c.Within) : b.join c = b.merge c := by
  rcases hb.join_cases hc with ⟨rfl, h⟩ | ⟨rfl, h⟩ | ⟨-, -, h⟩
  · rw [h, merge_comm, hc'.merge_empty]
  · rw [h, hb'.merge_empty]
  · exact h

/-- The box of points within the range is found from the empty one by their coordinates alone, as it
is where the range has an end. -/
theorem ofPoints_eq_foldl_merge_of_within {points : List (Point ℝ)}
    (h : ∀ p ∈ points, (ofPoint p).Within) :
    ofPoints points = points.foldl (fun b p => b.merge (ofPoint p)) empty := by
  have hregular (p : Point ℝ) : (ofPoint p).Regular := by
    refine .inr ?_
    show -Scalar.largest ≤ p.x - p.x
    linarith [largest_pos]
  have hfold : ∀ b : Bounds ℝ, b.Regular → b.Within →
      points.foldl (fun b p => b.join (ofPoint p)) b =
        points.foldl (fun b p => b.merge (ofPoint p)) b := by
    induction points with
    | nil => exact fun b _ _ => rfl
    | cons p rest ih =>
        obtain ⟨hp, hrest⟩ := List.forall_mem_cons.mp h
        intro b hb hwithin
        have hjoin := hb.join_eq_merge (hregular p) hwithin hp
        rw [List.foldl_cons, List.foldl_cons, hjoin]
        exact ih hrest _ (hjoin ▸ hb.join (hregular p)) (hwithin.merge _)
  have hempty : (empty : Bounds ℝ).Within :=
    ⟨le_rfl, le_rfl, le_rfl, le_rfl⟩
  exact hfold empty regular_empty hempty

/-- A single box has its own coordinates. -/
theorem spans_singleton (b : Bounds ℝ) : Spans [b] b := by
  constructor <;> simp

/-- The least and greatest coordinates of one more box. -/
theorem Spans.cons {rest : List (Bounds ℝ)} {bounds : Bounds ℝ} (h : Spans rest bounds)
    (b : Bounds ℝ) : Spans (b :: rest) (b.merge bounds) := by
  have hset (coordinate : Bounds ℝ → ℝ) : {x | ∃ c ∈ b :: rest, coordinate c = x} =
      insert (coordinate b) {x | ∃ c ∈ rest, coordinate c = x} := by
    ext x
    simp [eq_comm]
  rw [merge_eq]
  constructor
  · exact hset (·.min.x) ▸ h.min_x.insert _
  · exact hset (·.min.y) ▸ h.min_y.insert _
  · exact hset (·.max.x) ▸ h.max_x.insert _
  · exact hset (·.max.y) ▸ h.max_y.insert _

/-- The hull of boxes within the range has their least and greatest coordinates. -/
theorem spans_hull (hne : boxes ≠ []) (hregular : ∀ b ∈ boxes, Regular b)
    (hwithin : ∀ b ∈ boxes, Within b) : Spans boxes (hull boxes) ∧ (hull boxes).Within := by
  induction boxes with
  | nil => exact absurd rfl hne
  | cons b rest ih =>
      obtain ⟨hb, hrest⟩ := List.forall_mem_cons.mp hregular
      obtain ⟨hb', hrest'⟩ := List.forall_mem_cons.mp hwithin
      cases rest with
      | nil =>
          rw [hull_cons hb hrest]
          show Spans [b] (b.join empty) ∧ (b.join empty).Within
          rw [join_empty_right]
          exact ⟨spans_singleton b, hb'⟩
      | cons c others =>
          obtain ⟨hspans, hhull⟩ := ih (List.cons_ne_nil _ _) hrest hrest'
          rw [hull_cons hb hrest, hb.join_eq_merge (regular_hull hrest) hb' hhull]
          exact ⟨hspans.cons b, hb'.merge _⟩

/-- **The hull** of boxes within the range is their join. -/
theorem isHull_hull (hregular : ∀ b ∈ boxes, Regular b) (hwithin : ∀ b ∈ boxes, Within b) :
    IsHull boxes (if (hull boxes).isEmpty then none else some (hull boxes)) := by
  by_cases hempty : hull boxes = empty
  · rw [if_pos (isEmpty_iff.mpr hempty)]
    exact fun b hb => isEmpty_iff.mpr ((hull_eq_empty_iff hregular).mp hempty b hb)
  · rw [if_neg (mt isEmpty_iff.mp hempty)]
    obtain ⟨b, hb, hne⟩ : ∃ b ∈ boxes, b ≠ empty := by
      by_contra hnone
      refine hempty ((hull_eq_empty_iff hregular).mpr fun b hb => ?_)
      by_contra hne
      exact hnone ⟨b, hb, hne⟩
    refine ⟨⟨b, hb, Bool.eq_false_iff.mpr (mt isEmpty_iff.mp hne)⟩, ?_⟩
    exact (spans_hull (List.ne_nil_of_mem hb) hregular hwithin).1

end Bounds

/-- Geometry within the range has a box that the empty one does not stand out of. -/
theorem Geometry.WithinRange.within {g : Geometry ℝ} (h : g.WithinRange) : g.bounds.Within where
  min_x := (abs_le.mp h.min.1).2
  min_y := (abs_le.mp h.min.2).2
  max_x := (abs_le.mp h.max.1).1
  max_y := (abs_le.mp h.max.2).1

/-- **The bounding box of every layer** of a picture that the composer makes is the join of the
boxes of all shapes that it draws, and there is none when none of them has an extent, if everything
that the layer draws is within the range of coordinates. What it draws is there in any case: every
paste can be followed to its end. -/
theorem finish_bounds {c : Composer ℝ} {picture : Picture ℝ}
    (h : (Composer.finish.run c).result = .ok picture) {id : LayerId} {bounds : Option (Bounds ℝ)}
    (hstart : .startLayer id bounds ∈ picture) :
    ∃ commands placed, picture.layer? id = some commands ∧ picture.Flattens commands placed ∧
      ((∀ x ∈ placed, x.shape.geometry.WithinRange) →
        Bounds.IsHull (placed.map (·.shape.bounds)) bounds) := by
  have hlayers : Picture.ofLayers c.allLayers = .ok picture := (result_finish c).symm.trans h
  obtain ⟨found, hisOrder, hgroups⟩ := Picture.exists_isOrder_of_ofLayers hlayers
  have hgiven : ∀ id ∈ found, ∀ layer, c.allLayers[id]? = some layer →
      picture.layer? id = some (layer.items.toList.map .ofItem) := fun id hid layer hlayer =>
    (Picture.layer?_eq_some_iff hlayers).mpr
      ⟨(hisOrder.mem_iff_reaches id).mp hid, layer, hlayer, rfl⟩
  obtain ⟨box, ⟨commands, placed, hcommands, hflattens, hbox⟩, rfl⟩ :=
    Picture.draws_groups [] hisOrder.toPlaced hgiven (by simp) hgroups hstart
  refine ⟨commands, placed, hcommands, hflattens, fun hrange => ?_⟩
  have hregular : ∀ b ∈ Picture.boxesOf placed, b.Regular :=
    Picture.regular_boxesOf fun x hx => (hrange x hx).sizes
  have hwithin : ∀ b ∈ Picture.boxesOf placed, b.Within := by
    intro b hb
    obtain ⟨x, hx, rfl⟩ := List.mem_map.mp hb
    exact (hrange x hx).within
  rw [hbox fun x hx => (hrange x hx).sizes]
  exact Bounds.isHull_hull hregular hwithin

/-! ### A layer that is pasted twice -/

/-- Geometry that keeps to a hundred units is within the range. -/
theorem Geometry.withinRange_of_le {g : Geometry ℝ} (hsizes : ∀ size ∈ g.sizes, |size| ≤ 100)
    (hmin : |g.bounds.min.x| ≤ 100 ∧ |g.bounds.min.y| ≤ 100)
    (hmax : |g.bounds.max.x| ≤ 100 ∧ |g.bounds.max.y| ≤ 100) : g.WithinRange := by
  have hlargest : (100 : ℝ) ≤ Scalar.largest := by
    show (100 : ℝ) ≤ 1.7976931348623157e308
    norm_num
  exact
    { sizes := fun size hsize => (hsizes size hsize).trans hlargest
      min := ⟨hmin.1.trans hlargest, hmin.2.trans hlargest⟩
      max := ⟨hmax.1.trans hlargest, hmax.2.trans hlargest⟩ }

/-- The box of a circle reaches half its diameter around the centre. -/
theorem Geometry.bounds_circle (x y diameter : ℝ) :
    (circle (⟨x, y⟩ : Point ℝ) diameter).bounds =
      ⟨⟨x - diameter / 2, y - diameter / 2⟩, ⟨x + diameter / 2, y + diameter / 2⟩⟩ := by
  simp only [bounds, Bounds.around, OfNat.ofNat]

/-- What the main layer of `pastedTwice` draws: a line between two copies of a circle. -/
noncomputable def drawnTwice : List (PlacedShape ℝ) :=
  [⟨[.dark], ⟨.circle ⟨0 + 3, 0 + 0⟩ 2, .dark⟩⟩, ⟨[], ⟨.line ⟨3, 0⟩ ⟨6, 0⟩ 1, .dark⟩⟩,
    ⟨[.clear], ⟨.circle ⟨0 + 6, 0 + 0⟩ 2, .dark⟩⟩]

/-- What the example draws is within the range. -/
theorem withinRange_drawnTwice : ∀ x ∈ drawnTwice, x.shape.geometry.WithinRange := by
  have hcircle (x : ℝ) (hx : 0 ≤ x) (hx' : x ≤ 10) :
      (Geometry.circle (⟨0 + x, 0 + 0⟩ : Point ℝ) 2).WithinRange := by
    refine Geometry.withinRange_of_le (by norm_num [Geometry.sizes]) ?_ ?_
    · simp only [Geometry.bounds_circle, abs_le]
      refine ⟨⟨?_, ?_⟩, ?_, ?_⟩ <;> linarith
    · simp only [Geometry.bounds_circle, abs_le]
      refine ⟨⟨?_, ?_⟩, ?_, ?_⟩ <;> linarith
  have hline : (Geometry.line (⟨3, 0⟩ : Point ℝ) ⟨6, 0⟩ 1).bounds =
      ⟨⟨5 / 2, -1 / 2⟩, ⟨13 / 2, 1 / 2⟩⟩ := by
    have hround (p : Point ℝ) : (Bounds.around p 1).isEmpty = false := by
      refine Bounds.isEmpty_eq_false ?_
      rw [Bounds.width_around]
      linarith [largest_pos]
    rw [Geometry.bounds, Bounds.join_eq_merge (hround _) (hround _)]
    norm_num [Bounds.merge_eq, Bounds.around, Scalar.instOfNat]
  intro x hx
  simp only [drawnTwice, List.mem_cons, List.not_mem_nil, or_false] at hx
  rcases hx with rfl | rfl | rfl
  · exact hcircle 3 (by norm_num) (by norm_num)
  · refine Geometry.withinRange_of_le (by norm_num [Geometry.sizes]) ?_ ?_
    · norm_num [hline, abs_le]
    · norm_num [hline, abs_le]
  · exact hcircle 6 (by norm_num) (by norm_num)

/-- The box of the main layer is that of the circles and the line. -/
theorem finish_bounds_pastedTwice :
    ∃ picture bounds, (Composer.finish.run pastedTwice).result = .ok picture ∧
      .startLayer .main bounds ∈ picture ∧ (∀ x ∈ drawnTwice, x.shape.geometry.WithinRange) ∧
        Bounds.IsHull (drawnTwice.map (·.shape.bounds)) bounds := by
  have hmain : pastedTwice.allLayers[LayerId.main]? = some (.ofItems .main
      [.paste ⟨⟨"D10"⟩, ⟨3, 0⟩, .dark⟩, .shape ⟨.line ⟨3, 0⟩ ⟨6, 0⟩ 1, .dark⟩,
        .paste ⟨⟨"D10"⟩, ⟨6, 0⟩, .clear⟩]) := by
    simp [Composer.allLayers, Composer.main, pastedTwice]
  have hcircle : pastedTwice.allLayers[(⟨"D10"⟩ : LayerId)]? = some (.ofItems ⟨"D10"⟩
      [.shape ⟨.circle ⟨0, 0⟩ 2, .dark⟩]) := by
    simp only [Composer.allLayers, Composer.main, pastedTwice, Std.TreeMap.getElem?_insert]
    rfl
  obtain ⟨picture, hpicture⟩ := Picture.exists_ofLayers order_pastedTwice
  have hfinish : (Composer.finish.run pastedTwice).result = .ok picture :=
    (result_finish pastedTwice).trans hpicture
  have hgroups : Picture.groups pastedTwice.allLayers ∅ [⟨"D10"⟩, .main] = .ok picture := by
    rwa [Picture.ofLayers, order_pastedTwice] at hpicture
  obtain ⟨_, others, -, hothers, hsplit⟩ := Picture.exists_of_groups_cons hgroups
  obtain ⟨_, _, -, -, rfl⟩ := Picture.exists_of_groups_cons hothers
  have hstart : .startLayer .main _ ∈ picture :=
    hsplit ▸ List.mem_append_right _ List.mem_cons_self
  obtain ⟨commands, placed, hcommands, hflattens, hhull⟩ := finish_bounds hfinish hstart
  have hlayers (id : LayerId) (layer : Layer ℝ) (hid : id ∈ [(⟨"D10"⟩ : LayerId), .main])
      (hlayer : pastedTwice.allLayers[id]? = some layer) :
      picture.layer? id = some (layer.items.toList.map .ofItem) := by
    rw [Picture.layer?_groups hgroups, if_pos hid, hlayer]
    rfl
  have hsource := hlayers _ _ (by simp) hcircle
  rw [Layer.items_ofItems] at hsource
  obtain rfl : commands = _ :=
    Option.some.inj (hcommands.symm.trans (hlayers _ _ (by simp) hmain))
  rw [Layer.items_ofItems] at hflattens
  have hdrawn := Picture.Flattens.paste (q := ⟨⟨"D10"⟩, ⟨3, 0⟩, .dark⟩) hsource (.shape .nil)
    (.shape (s := ⟨.line ⟨3, 0⟩ ⟨6, 0⟩ 1, .dark⟩)
      (.paste (q := ⟨⟨"D10"⟩, ⟨6, 0⟩, .clear⟩) hsource (.shape .nil) .nil))
  obtain rfl : placed = drawnTwice := hflattens.unique hdrawn
  exact ⟨picture, _, hfinish, hstart, withinRange_drawnTwice, hhull withinRange_drawnTwice⟩

end Photoplot
