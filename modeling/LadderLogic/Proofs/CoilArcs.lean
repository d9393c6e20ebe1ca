/-
The arcs of a coil bulge around its terminals.

A coil is drawn as two arcs, and wires end at its terminals, half a symbol to either side of
its centre.  Here the drawing is read as geometry, in exact arithmetic: an arc of a path lies
on a circle of its radius through both of its ends (`Arc.IsCentre`), and the flag of the path
says on which side of these ends it runs (`Arc.Shows`).

The ends of either arc of a coil are two radii apart, so that there is one such circle only,
and its centre is the terminal (`isCentre_upright`).  The arcs therefore do not go through the
terminals: they are half circles around them, they reach as far again as the symbol is said
to, and a wire meets its arc only if it is long enough to come in from outside
(`touches_upright_iff`).  For the coil of a rung that is so if symbols take at most half of
the room for them.
-/

import LadderLogic.Proofs.SymbolEdges

namespace LadderLogic

open Svg (Node Pen PathStep)

/-! ## Points of arcs and of lines -/

/-- The square of the distance of two points. -/
def Point.sqDist (p q : Point Rat) : Rat :=
  (p.x - q.x) * (p.x - q.x) + (p.y - q.y) * (p.y - q.y)

/-- On which side of the line from `start` to `stop` a point lies.  It is positive where angles
around `start` grow, which is clockwise on a page. -/
def Point.side (start stop p : Point Rat) : Rat :=
  (stop.x - start.x) * (p.y - start.y) - (stop.y - start.y) * (p.x - start.x)

/-- The point lies on the segment. -/
def Segment.Holds (w : Segment Rat) (p : Point Rat) : Prop :=
  ∃ t : Rat, 0 ≤ t ∧ t ≤ 1 ∧ p.x = w.start.x + t * (w.stop.x - w.start.x) ∧
    p.y = w.start.y + t * (w.stop.y - w.start.y)

/-- An arc of a path, with the point where the path was before it. -/
structure Svg.Arc (α : Type) where
  start : Point α
  radius : α
  sweep : Bool
  stop : Point α
deriving DecidableEq

namespace Svg.Arc

/-- The circle around `centre` with the radius of the arc goes through both ends of the arc. -/
def IsCentre (a : Arc Rat) (centre : Point Rat) : Prop :=
  centre.sqDist a.start = a.radius * a.radius ∧ centre.sqDist a.stop = a.radius * a.radius

/-- The point lies on the circle of the arc. -/
def OnCircle (a : Arc Rat) (p : Point Rat) : Prop :=
  ∃ centre, a.IsCentre centre ∧ centre.sqDist p = a.radius * a.radius

/-- The point lies on the arc.  Going with growing angles leaves the arc on the other side of
its ends, and the centre of the smaller of two arcs is not on the side of the arc. -/
def Shows (a : Arc Rat) (p : Point Rat) : Prop :=
  ∃ centre, a.IsCentre centre ∧ centre.sqDist p = a.radius * a.radius ∧
    if a.sweep then Point.side a.start a.stop p ≤ 0 ∧ 0 ≤ Point.side a.start a.stop centre
    else 0 ≤ Point.side a.start a.stop p ∧ Point.side a.start a.stop centre ≤ 0

end Svg.Arc

/-- The segment and the arc have a point in common. -/
def Segment.Touches (w : Segment Rat) (a : Svg.Arc Rat) : Prop := ∃ p, w.Holds p ∧ a.Shows p

/-- A level wire holds the points of its level between its ends. -/
theorem Segment.holds_wire {x₁ x₂ y : Rat} {p : Point Rat} :
    (Segment.wire x₁ x₂ y).Holds p ↔ p.y = y ∧ p.x ∈ Set.uIcc x₁ x₂ := by
  rw [← segment_eq_uIcc, segment_eq_image', Set.mem_image]
  constructor
  · rintro ⟨t, ht₀, ht₁, hx, hy⟩
    refine ⟨?_, t, ⟨ht₀, ht₁⟩, hx.symm⟩
    rw [hy]
    simp [wire]
  · rintro ⟨hy, t, ⟨ht₀, ht₁⟩, hx⟩
    refine ⟨t, ht₀, ht₁, hx.symm, ?_⟩
    rw [hy]
    simp [wire]

/-! ## Half circles -/

namespace Svg.Arc

/-- The arc from above a point to below it, at the distance of the radius. -/
def upright {α : Type} [Scalar α] (t : Point α) (radius : α) (sweep : Bool) : Arc α :=
  ⟨⟨t.x, t.y - radius⟩, radius, sweep, ⟨t.x, t.y + radius⟩⟩

/-- How far the arc reaches to the side that it is on, in radii. -/
def bow (sweep : Bool) : Rat := if sweep then 1 else -1

theorem bow_mul_bow (sweep : Bool) : bow sweep * bow sweep = 1 := by
  cases sweep <;> norm_num [bow]

variable {t : Point Rat} {r : Rat} {sweep : Bool}

/-- Two radii apart, the ends leave one centre only. -/
theorem isCentre_upright (hr : 0 < r) {c : Point Rat} :
    (upright t r sweep).IsCentre c ↔ c = t := by
  obtain ⟨cx, cy⟩ := c
  obtain ⟨tx, ty⟩ := t
  simp only [IsCentre, upright, Point.sqDist, Point.mk.injEq]
  constructor
  · rintro ⟨habove, hbelow⟩
    -- as far from one end as from the other is on the level between them
    have hlevel : r * (cy - ty) = 0 := by linear_combination (habove - hbelow) / 4
    have hy : cy - ty = 0 := (mul_eq_zero.1 hlevel).resolve_left hr.ne'
    have hx : (cx - tx) * (cx - tx) = 0 := by
      linear_combination habove - (cy - ty + 2 * r) * hy
    exact ⟨sub_eq_zero.1 (mul_self_eq_zero.1 hx), sub_eq_zero.1 hy⟩
  · rintro ⟨rfl, rfl⟩
    constructor <;> ring

theorem side_upright (p : Point Rat) :
    Point.side (upright t r sweep).start (upright t r sweep).stop p = 2 * r * (t.x - p.x) := by
  simp only [Point.side, upright]
  ring

/-- An upright arc is the half of the circle around `t` on one side of `t`. -/
theorem shows_upright (hr : 0 < r) {p : Point Rat} :
    (upright t r sweep).Shows p ↔ t.sqDist p = r * r ∧ 0 ≤ bow sweep * (p.x - t.x) := by
  have hpositive : 0 < 2 * r := by linarith
  simp only [Shows, isCentre_upright hr, exists_eq_left, side_upright, sub_self, mul_zero, le_refl,
    and_true]
  -- the sign of the side is the one of the way to the left
  cases sweep with
  | false =>
    have hside : 0 ≤ 2 * r * (t.x - p.x) ↔ 0 ≤ -1 * (p.x - t.x) := by
      rw [mul_nonneg_iff_of_pos_left hpositive, neg_one_mul, neg_sub]
    exact and_congr_right fun _ => hside
  | true =>
    have hside : 2 * r * (t.x - p.x) ≤ 0 ↔ 0 ≤ 1 * (p.x - t.x) := by
      rw [← neg_nonneg, ← mul_neg, neg_sub, mul_nonneg_iff_of_pos_left hpositive, one_mul]
    exact and_congr_right fun _ => hside

/-- The point that a half circle is around is not on its circle. -/
theorem not_onCircle_upright (hr : 0 < r) : ¬ (upright t r sweep).OnCircle t := by
  rintro ⟨c, hcentre, hdist⟩
  rw [(isCentre_upright hr).1 hcentre] at hdist
  have hradius : t.sqDist t = r * r := hdist
  have hzero : r * r = 0 := by
    rw [← hradius, Point.sqDist]
    ring
  exact hr.ne' (mul_self_eq_zero.1 hzero)

/-- On the level of `t` the half circle has one point, the one farthest out. -/
theorem shows_upright_level (hr : 0 < r) {x : Rat} :
    (upright t r sweep).Shows ⟨x, t.y⟩ ↔ x = t.x + bow sweep * r := by
  have hbow := bow_mul_bow sweep
  rw [shows_upright hr]
  constructor
  · rintro ⟨hdist, hside⟩
    -- the distance is the radius, so that the way out is the radius or its opposite
    have hsquare : (bow sweep * (x - t.x)) * (bow sweep * (x - t.x)) = r * r := by
      rw [← hdist, Point.sqDist]
      linear_combination (x - t.x) * (x - t.x) * hbow
    have hway : bow sweep * (x - t.x) = r := (mul_self_inj hside hr.le).1 hsquare
    linear_combination bow sweep * hway - (x - t.x) * hbow
  · rintro rfl
    refine ⟨?_, ?_⟩
    · rw [Point.sqDist]
      linear_combination r * r * hbow
    · have hway : bow sweep * (t.x + bow sweep * r - t.x) = r := by linear_combination r * hbow
      exact hway.symm ▸ hr.le

/-- A half circle reaches as far as its radius, to its side only. -/
theorem between_of_shows_upright (hr : 0 < r) {p : Point Rat}
    (hp : (upright t r sweep).Shows p) :
    0 ≤ bow sweep * (p.x - t.x) ∧ bow sweep * (p.x - t.x) ≤ r := by
  have hbow := bow_mul_bow sweep
  obtain ⟨hdist, hside⟩ := (shows_upright hr).1 hp
  refine ⟨hside, ?_⟩
  -- of the square of the radius, what lies in the other direction only takes away
  have hsquare : (bow sweep * (p.x - t.x)) * (bow sweep * (p.x - t.x)) ≤ r * r := by
    rw [← hdist, Point.sqDist]
    nlinarith [mul_self_nonneg (t.y - p.y)]
  exact (mul_self_le_mul_self_iff hside hr.le).2 hsquare

/-- A wire on the level of `t` touches a half circle around `t` if it holds the point that is
farthest out. -/
theorem touches_upright_iff (hr : 0 < r) (t : Point Rat) (sweep : Bool) (x₁ x₂ : Rat) :
    (Segment.wire x₁ x₂ t.y).Touches (upright t r sweep) ↔
      t.x + bow sweep * r ∈ Set.uIcc x₁ x₂ := by
  constructor
  · rintro ⟨⟨x, y⟩, hwire, harc⟩
    obtain ⟨rfl, hx⟩ := Segment.holds_wire.1 hwire
    rwa [← (shows_upright_level hr).1 harc]
  · intro hx
    exact ⟨⟨t.x + bow sweep * r, t.y⟩, Segment.holds_wire.2 ⟨rfl, hx⟩,
      (shows_upright_level hr).2 rfl⟩

end Svg.Arc

/-! ## The arcs of a document -/

namespace Svg

variable {α : Type}

/-- The arcs of a path, each from where the path has come to.  Before the path has come
anywhere there are none. -/
def arcsFrom (here : Option (Point α)) : List (PathStep α) → List (Arc α)
  | [] => []
  | .move target :: steps => arcsFrom (some target) steps
  | .arc radius sweep target :: steps =>
    here.toList.map (fun start => ⟨start, radius, sweep, target⟩) ++ arcsFrom (some target) steps

/-- The arcs in the value of an attribute. -/
def Value.arcs : Value α → List (Arc α)
  | path steps => arcsFrom none steps
  | _ => []

/-- All arcs of a tree, in the order in which they are drawn. -/
def Node.arcs (n : Node α) : List (Arc α) :=
  n.collect fun m => m.attributes.flatMap fun a => a.value.arcs

end Svg

namespace Glyph

variable {α : Type} [Scalar α] (half : α) (g : Glyph α)

/-- Where a wire to the symbol ends. -/
def leftTerminal : Point α := ⟨g.position.x - half, g.position.y⟩

/-- Where a wire from the symbol starts. -/
def rightTerminal : Point α := ⟨g.position.x + half, g.position.y⟩

/-- The arcs that a symbol is drawn with. -/
def arcs : List (Svg.Arc α) :=
  match g.kind with
  | .contact => []
  | .coil => [.upright (g.leftTerminal half) half false, .upright (g.rightTerminal half) half true]

end Glyph

namespace Svg

namespace Pen

variable {α : Type} [Scalar α] (pen : Pen α)

theorem arcs_glyph (g : Glyph α) : (pen.glyph g).arcs = g.arcs (Scalar.half pen.symbolWidth) := by
  obtain ⟨position, operand, negated, kind⟩ := g
  cases kind <;> cases negated <;> rfl

/-- The arcs of a drawing are those of its symbols, in their order. -/
theorem arcs_draw (d : Diagram α) :
    (pen.draw d).arcs = d.glyphs.flatMap (Glyph.arcs (Scalar.half pen.symbolWidth)) := by
  have harcs : pen.InSymbolsOnly d fun m => m.attributes.flatMap fun a => a.value.arcs :=
    ⟨fun _ _ => rfl, fun _ _ => rfl, fun _ => rfl, rfl, rfl⟩
  rw [Node.arcs, collect_draw harcs]
  split
  · next hempty =>
    rw [Diagram.isEmpty, List.isEmpty_iff] at hempty
    rw [Diagram.glyphs, hempty]
    rfl
  · exact congrArg (List.flatMap · _) (funext pen.arcs_glyph)

end Pen
end Svg

/-! ## Coils and their wires -/

/-- The arcs are half circles around the terminals of the coil, open towards each other. -/
structure Glyph.Bulges (half : Rat) (g : Glyph Rat) (left right : Svg.Arc Rat) : Prop where
  leftCentre : ∀ c, left.IsCentre c ↔ c = g.leftTerminal half
  rightCentre : ∀ c, right.IsCentre c ↔ c = g.rightTerminal half
  /-- Neither terminal is on the circle of its arc. -/
  leftMisses : ¬ left.OnCircle (g.leftTerminal half)
  rightMisses : ¬ right.OnCircle (g.rightTerminal half)
  /-- The arcs lie outside of the terminals, and reach as far out again as these do. -/
  leftReach : ∀ p, left.Shows p → g.position.x - 2 * half ≤ p.x ∧ p.x ≤ g.position.x - half
  rightReach : ∀ p, right.Shows p → g.position.x + half ≤ p.x ∧ p.x ≤ g.position.x + 2 * half
  leftTip : left.Shows ⟨g.position.x - 2 * half, g.position.y⟩
  rightTip : right.Shows ⟨g.position.x + 2 * half, g.position.y⟩

/-- The wires of a line end at the terminals of its coils, and touch a coil if they come from
beyond its arc. -/
def BranchLine.FeedsCoils (half : Rat) (l : BranchLine Rat) : Prop :=
  ∀ (i : Nat) (g : Glyph Rat) (before behind : Segment Rat) (left right : Svg.Arc Rat),
    l.glyphs[i]? = some g → g.arcs half = [left, right] → l.wires[i]? = some before →
    l.wires[i + 1]? = some behind →
    (before.stop = g.leftTerminal half ∧
      (before.Touches left ↔ before.start.x ≤ g.position.x - 2 * half)) ∧
    behind.start = g.rightTerminal half ∧
      (behind.Touches right ↔ g.position.x + 2 * half ≤ behind.stop.x)

/-- The connectors of a rung end at the terminals of its coil, and touch the coil if symbols
take at most half of the room for them. -/
structure RungLayout.FeedsCoils (s : LayoutSettings Rat) (r : RungLayout Rat) : Prop where
  lines : ∀ l ∈ r.lines, l.FeedsCoils (s.symbolWidth / 2)
  coil : ∃ left right others last, r.coil.arcs (s.symbolWidth / 2) = [left, right] ∧
    r.connectors = others ++ [last] ∧
    last.start = r.coil.rightTerminal (s.symbolWidth / 2) ∧
    (last.Touches right ↔ 2 * s.symbolWidth ≤ s.elementWidth) ∧
    (r.lines ≠ [] → ∃ junctions feed, others = junctions ++ [feed] ∧
      feed.stop = r.coil.leftTerminal (s.symbolWidth / 2) ∧
      (feed.Touches left ↔ 2 * s.symbolWidth ≤ s.elementWidth))

section Coils

open Svg.Arc (upright)

variable {half : Rat} {g : Glyph Rat}

theorem Glyph.arcs_of_coil (half : Rat) (hg : g.kind = .coil) :
    g.arcs half = [upright (g.leftTerminal half) half false,
      upright (g.rightTerminal half) half true] := by
  rw [arcs, hg]

theorem Glyph.leftTip_eq (half : Rat) (g : Glyph Rat) :
    (g.leftTerminal half).x + Svg.Arc.bow false * half = g.position.x - 2 * half := by
  simp only [Svg.Arc.bow, leftTerminal, Bool.false_eq_true, if_false]
  ring

theorem Glyph.rightTip_eq (half : Rat) (g : Glyph Rat) :
    (g.rightTerminal half).x + Svg.Arc.bow true * half = g.position.x + 2 * half := by
  simp only [Svg.Arc.bow, rightTerminal, if_true]
  ring

theorem Glyph.bulges (hhalf : 0 < half) (g : Glyph Rat) :
    g.Bulges half (upright (g.leftTerminal half) half false)
      (upright (g.rightTerminal half) half true) where
  leftCentre _ := Svg.Arc.isCentre_upright hhalf
  rightCentre _ := Svg.Arc.isCentre_upright hhalf
  leftMisses := Svg.Arc.not_onCircle_upright hhalf
  rightMisses := Svg.Arc.not_onCircle_upright hhalf
  leftReach p hp := by
    obtain ⟨hout, hfar⟩ := Svg.Arc.between_of_shows_upright hhalf hp
    simp only [Svg.Arc.bow, leftTerminal, Bool.false_eq_true, if_false] at hout hfar
    constructor <;> linarith
  rightReach p hp := by
    obtain ⟨hout, hfar⟩ := Svg.Arc.between_of_shows_upright hhalf hp
    simp only [Svg.Arc.bow, rightTerminal, if_true] at hout hfar
    constructor <;> linarith
  leftTip := (Svg.Arc.shows_upright_level hhalf).2 (g.leftTip_eq half).symm
  rightTip := (Svg.Arc.shows_upright_level hhalf).2 (g.rightTip_eq half).symm

/-- A wire to the left terminal touches the left arc if it comes from beyond it. -/
theorem Glyph.wire_touches_left (hhalf : 0 < half) (g : Glyph Rat) (x : Rat) :
    (Segment.wire x (g.position.x - half) g.position.y).Touches
        (upright (g.leftTerminal half) half false) ↔ x ≤ g.position.x - 2 * half := by
  refine (Svg.Arc.touches_upright_iff hhalf (g.leftTerminal half) false x _).trans ?_
  rw [g.leftTip_eq, Set.mem_uIcc]
  constructor
  · -- a wire that comes from the other side ends before the arc
    rintro (⟨hx, -⟩ | ⟨hx, -⟩)
    · exact hx
    · linarith
  · intro hx
    exact Or.inl ⟨hx, by linarith⟩

/-- A wire from the right terminal touches the right arc if it goes beyond it. -/
theorem Glyph.wire_touches_right (hhalf : 0 < half) (g : Glyph Rat) (x : Rat) :
    (Segment.wire (g.position.x + half) x g.position.y).Touches
        (upright (g.rightTerminal half) half true) ↔ g.position.x + 2 * half ≤ x := by
  refine (Svg.Arc.touches_upright_iff hhalf (g.rightTerminal half) true _ x).trans ?_
  rw [g.rightTip_eq, Set.mem_uIcc]
  constructor
  · rintro (⟨-, hx⟩ | ⟨-, hx⟩)
    · exact hx
    · linarith
  · intro hx
    exact Or.inl ⟨by linarith, hx⟩

end Coils

namespace Layout.Frame

variable {f : Frame Rat}

/-- A wire of a branch is level, so that its ends are all there is to say. -/
theorem eq_wire_of_mem {x y : Rat} {gs : List (Glyph Rat)} {w : Segment Rat}
    (hw : w ∈ f.wires y x gs) : w = .wire w.start.x w.stop.x y := by
  obtain ⟨⟨x₁, y₁⟩, ⟨x₂, y₂⟩, kind⟩ := w
  obtain ⟨hkind, hstart, hstop⟩ := f.wires_level y _ hw
  cases hkind
  cases hstart
  cases hstop
  rfl

theorem feedsCoils_branchLine (hhalf : 0 < f.halfSymbol) (parallel : Bool) (branch : Branch)
    (y : Rat) : (f.branchLine parallel branch y).FeedsCoils f.halfSymbol := by
  intro i g before behind left right hg harcs hbefore hbehind
  obtain ⟨-, -, rfl⟩ := f.glyphs_getElem? y hg
  -- a symbol with arcs is a coil, and the arcs are those around its terminals
  have hkind : g.kind = .coil := by
    cases hk : g.kind with
    | coil => rfl
    | contact =>
      rw [Glyph.arcs, hk] at harcs
      cases harcs
  rw [Glyph.arcs_of_coil f.halfSymbol hkind] at harcs
  cases harcs
  -- `before` and `behind` stand on both sides of these equations, so they are used backwards
  have hto : before = .wire before.start.x (g.position.x - f.halfSymbol) g.position.y := by
    rw [← f.wires_enter g.position.y hg hbefore]
    exact eq_wire_of_mem (List.mem_of_getElem? hbefore)
  have hfrom : behind = .wire (g.position.x + f.halfSymbol) behind.stop.x g.position.y := by
    rw [← f.wires_leave g.position.y hg hbehind]
    exact eq_wire_of_mem (List.mem_of_getElem? hbehind)
  have hleft := Glyph.wire_touches_left hhalf g before.start.x
  have hright := Glyph.wire_touches_right hhalf g behind.stop.x
  rw [← hto] at hleft
  rw [← hfrom] at hright
  exact ⟨⟨by rw [hto]; rfl, hleft⟩, by rw [hfrom]; rfl, hright⟩

theorem feedsCoils_place (hhalf : 0 < f.halfSymbol) (rung : Rung) (top : Rat) :
    (f.place rung top).FeedsCoils f.settings where
  lines l hl := by
    obtain ⟨parallel, branch, y, rfl⟩ := exists_branchLine_of_mem hl
    exact feedsCoils_branchLine hhalf parallel branch y
  coil := by
    -- the coil stands in the middle of its slot, and the wires beside it fill the slot
    have hcoil : (f.place rung top).coil.position.x = f.coilX := rfl
    have hright : (f.place rung top).coil.position.x + 2 * f.halfSymbol ≤ f.right ↔
        2 * f.settings.symbolWidth ≤ f.settings.elementWidth := by
      rw [hcoil, f.coilX_eq, f.halfSymbol_eq]
      constructor <;> intro h <;> linarith
    have hleft : f.mergeX ≤ (f.place rung top).coil.position.x - 2 * f.halfSymbol ↔
        2 * f.settings.symbolWidth ≤ f.settings.elementWidth := by
      rw [hcoil, f.coilX_eq, f.halfSymbol_eq, f.mergeX_eq]
      constructor <;> intro h <;> linarith
    refine ⟨_, _, _, _, Glyph.arcs_of_coil f.halfSymbol rfl, rfl, rfl,
      (Glyph.wire_touches_right hhalf _ _).trans hright, ?_⟩
    intro hlines
    obtain ⟨junctions, hconnectors⟩ :=
      exists_feed (f := f) (f.place rung top).coil (f.place rung top).span.middle hlines
    refine ⟨junctions, _, List.append_cancel_right hconnectors, rfl, ?_⟩
    exact (Glyph.wire_touches_left hhalf _ _).trans hleft

end Layout.Frame

/-- **The arcs of a coil bulge around its terminals.**  In exact arithmetic, the arcs of a
drawing are two for each coil, and the terminals of the coil are the centres of their circles:
the arcs do not go through the terminals, and reach as far from them again.  On a page that is
laid out for the same symbols, the wires end at the terminals, and touch the arcs only if they
come from beyond them; those of the coil of a rung do if symbols take at most half of the room
for them. -/
theorem Diagram.coils_bulge (pen : Pen Rat) (hwidth : 0 < pen.symbolWidth) :
    (∀ d : Diagram Rat,
      (pen.draw d).arcs = d.glyphs.flatMap (Glyph.arcs (pen.symbolWidth / 2))) ∧
    (∀ g : Glyph Rat, g.kind = .coil → ∃ left right,
      g.arcs (pen.symbolWidth / 2) = [left, right] ∧
      g.Bulges (pen.symbolWidth / 2) left right) ∧
    ∀ (s : LayoutSettings Rat) (rungs : List Rung), s.symbolWidth = pen.symbolWidth →
      ∀ r ∈ (ofRungs s rungs).rungs, r.FeedsCoils s := by
  have hhalf : 0 < pen.symbolWidth / 2 := by linarith
  refine ⟨pen.arcs_draw, ?_, ?_⟩
  · intro g hg
    exact ⟨_, _, Glyph.arcs_of_coil _ hg, g.bulges hhalf⟩
  · intro s rungs hs r hr
    obtain ⟨rung, -, top, rfl⟩ := exists_place_of_mem_rungs hr
    rw [← hs] at hhalf
    exact Layout.Frame.feedsCoils_place (f := Layout.pageFrame s rungs) hhalf rung top

/-- Symbols that take two thirds of the room for them. -/
def crowded : LayoutSettings Rat := { LayoutSettings.standard with elementWidth := 30 }

/-- Black lines, with symbols of width 20. -/
def plainPen : Pen Rat := ⟨none, ⟨"black", "1"⟩, 3 / 2, 12, 20⟩

/-- A coil behind a contact. -/
def startMotor : Rung := ⟨"Motor", false, [[⟨"Start", false, .contact⟩]]⟩

theorem Diagram.coils_bulge_crowded :
    (ofRungs crowded [startMotor]).glyphs = [⟨⟨70, 65⟩, "Start", false, .contact⟩,
      ⟨⟨745, 65⟩, "Motor", false, .coil⟩] ∧
    (∃ left right, (plainPen.draw (ofRungs crowded [startMotor])).arcs = [left, right] ∧
      (∀ c, left.IsCentre c ↔ c = ⟨735, 65⟩) ∧ (∀ c, right.IsCentre c ↔ c = ⟨755, 65⟩) ∧
      left.Shows ⟨725, 65⟩ ∧ right.Shows ⟨765, 65⟩) ∧
    ∃ r ∈ (ofRungs crowded [startMotor]).rungs, r.FeedsCoils crowded := by
  have hglyphs : (ofRungs crowded [startMotor]).glyphs = [⟨⟨70, 65⟩, "Start", false, .contact⟩,
      ⟨⟨745, 65⟩, "Motor", false, .coil⟩] := by decide +kernel
  obtain ⟨harcs, hbulges, hfeeds⟩ := coils_bulge plainPen (by decide +kernel)
  obtain ⟨left, right, hcoil, hbulge⟩ := hbulges ⟨⟨745, 65⟩, "Motor", false, .coil⟩ rfl
  have hdrawn : (plainPen.draw (ofRungs crowded [startMotor])).arcs = [left, right] := by
    rw [harcs, hglyphs, ← hcoil]
    rfl
  have hleft : Glyph.leftTerminal (plainPen.symbolWidth / 2) ⟨⟨745, 65⟩, "Motor", false, .coil⟩ =
      ⟨735, 65⟩ := by decide +kernel
  have hright : Glyph.rightTerminal (plainPen.symbolWidth / 2) ⟨⟨745, 65⟩, "Motor", false, .coil⟩ =
      ⟨755, 65⟩ := by decide +kernel
  refine ⟨hglyphs, ⟨left, right, hdrawn, hleft ▸ hbulge.leftCentre, hright ▸ hbulge.rightCentre,
    ?_, ?_⟩, ?_⟩
  · convert hbulge.leftTip using 2
    norm_num [plainPen]
  · convert hbulge.rightTip using 2
    norm_num [plainPen]
  · exact ⟨_, List.mem_cons_self, hfeeds crowded [startMotor] rfl _ List.mem_cons_self⟩

/-- The coil stands at 745, between the ends of its wires at 735 and 755.  Its arcs go through
neither end, and meet neither wire; the right one reaches beyond the right rail, at 760. -/
theorem Diagram.coil_misses_terminals :
    (ofRungs crowded [startMotor]).right = 760 ∧
    ((ofRungs crowded [startMotor]).rungs.map (·.connectors)) =
      [[.wire 730 735 65, .wire 755 760 65]] ∧
    ∃ left right, (plainPen.draw (ofRungs crowded [startMotor])).arcs = [left, right] ∧
      ¬ left.OnCircle ⟨735, 65⟩ ∧ ¬ right.OnCircle ⟨755, 65⟩ ∧
      ¬ (Segment.wire 730 735 65).Touches left ∧ ¬ (Segment.wire 755 760 65).Touches right ∧
      left.Shows ⟨725, 65⟩ ∧ right.Shows ⟨765, 65⟩ := by
  have hpositive : (0 : Rat) < 10 := by norm_num
  have hdrawn : (plainPen.draw (ofRungs crowded [startMotor])).arcs =
      [.upright ⟨735, 65⟩ 10 false, .upright ⟨755, 65⟩ 10 true] := by decide +kernel
  refine ⟨by decide +kernel, by decide +kernel, _, _, hdrawn,
    Svg.Arc.not_onCircle_upright hpositive, Svg.Arc.not_onCircle_upright hpositive, ?_, ?_, ?_, ?_⟩
  · -- the arc meets the level of the wire at 725, the wire begins at 730
    intro htouch
    have htip := (Svg.Arc.touches_upright_iff hpositive ⟨735, 65⟩ false 730 735).1 htouch
    norm_num [Svg.Arc.bow, Set.mem_uIcc] at htip
  · intro htouch
    have htip := (Svg.Arc.touches_upright_iff hpositive ⟨755, 65⟩ true 755 760).1 htouch
    norm_num [Svg.Arc.bow, Set.mem_uIcc] at htip
  · exact (Svg.Arc.shows_upright_level hpositive).2 (by norm_num [Svg.Arc.bow])
  · exact (Svg.Arc.shows_upright_level hpositive).2 (by norm_num [Svg.Arc.bow])

end LadderLogic
