/-
Pages whose numbers are all finite.

Checked sizes can be too large for a page: the margins alone may add up to infinity
(`ofRungs_width_infinite`).  What the check leaves open is settled by the size of the page, or
by the sizes themselves.  If the page has room for half a symbol in its width, and for that and
a leeway in its height, then no number of the diagram is infinite or undefined, and so none in
its record or in a drawing of it.  Moderate sizes leave that room (`ofRungs_finite`).
-/

import Mathlib
import LadderLogic.Proofs.DrawingTree
import LadderLogic.Proofs.FiniteLayout

namespace LadderLogic

open Rounding

/-! ## The numbers of a drawing -/

namespace Svg

section Scalars

variable {α : Type}

def PathStep.scalars : PathStep α → List α
  | move target => target.coordinates
  | arc radius _ target => radius :: target.coordinates

def Value.scalars : Value α → List α
  | text _ => []
  | number x => [x]
  | numbers xs => xs
  | path steps => steps.flatMap PathStep.scalars

/-- Every number in the attributes of a tree. -/
def Node.scalars (n : Node α) : List α := n.collect fun m => m.attributes.flatMap (·.value.scalars)

theorem scalars_line (a b : Point α) : (line a b).scalars = [a.x, b.x, a.y, b.y] := rfl

theorem scalars_path (steps : List (PathStep α)) :
    (path steps).scalars = steps.flatMap PathStep.scalars := by
  rw [Node.scalars, Node.collect_eq]
  exact (List.append_nil _).trans (List.append_nil _)

theorem scalars_group (kind : String) (children : List (Node α)) :
    (group kind children).scalars = children.flatMap Node.scalars :=
  Node.collect_eq _ _

namespace Pen

variable [Scalar α] (pen : Pen α) (d : Diagram α)

theorem scalars_label (g : Glyph α) : (pen.label g).scalars =
    [pen.fontSize, g.position.x, g.position.y - Scalar.half pen.symbolWidth - labelGap] := rfl

theorem scalars_placeholder : (pen.placeholder d).scalars =
    [pen.fontSize, Scalar.half d.width, Scalar.half d.height] := rfl

theorem scalars_backdrop (paint : Paint) : (backdrop d paint).scalars =
    [d.height, d.width, Scalar.zero, Scalar.zero] := rfl

theorem scalars_ladder : (pen.ladder d).scalars = pen.strokeWidth ::
    (rail d.height d.left :: rail d.height d.right :: d.rungs.map pen.rung).flatMap
      Node.scalars :=
  Node.collect_eq _ _

theorem scalars_draw : (pen.draw d).scalars =
    [d.height, Scalar.zero, Scalar.zero, d.width, d.height, d.width] ++
      (pen.content d).flatMap Node.scalars :=
  Node.collect_eq _ _

end Pen

end Scalars

/-- All numbers of some nodes are finite. -/
def AllFinite (nodes : List (Node Float32)) : Prop :=
  ∀ x ∈ nodes.flatMap Node.scalars, x.isFinite = true

namespace AllFinite

theorem nil : AllFinite [] := List.forall_mem_nil _

theorem append {ns ns' : List (Node Float32)} (h : AllFinite ns) (h' : AllFinite ns') :
    AllFinite (ns ++ ns') := by
  rw [AllFinite, List.flatMap_append]
  exact List.forall_mem_append.2 ⟨h, h'⟩

theorem of_forall {ns : List (Node Float32)} (h : ∀ n ∈ ns, ∀ x ∈ n.scalars, x.isFinite = true) :
    AllFinite ns :=
  List.forall_mem_flatMap.2 h

end AllFinite

theorem isFinite_line {a b : Point Float32} {wide tall : Float32} (ha : a.Fits wide tall)
    (hb : b.Fits wide tall) : ∀ x ∈ (line a b).scalars, x.isFinite = true := by
  simp only [scalars_line, List.forall_mem_cons]
  exact ⟨ha.1.1, hb.1.1, ha.2.1, hb.2.1, List.forall_mem_nil _⟩

theorem allFinite_segments {wide tall : Float32} {ss : List (Segment Float32)}
    (hss : ∀ s ∈ ss, s.Fits wide tall) : AllFinite (ss.map segment) := by
  apply AllFinite.of_forall
  rw [List.forall_mem_map]
  exact fun s hs => isFinite_line (hss s hs).1 (hss s hs).2

section Symbols

variable {p : Point Float32} {width tall half : Float32} (hp : p.Fits width tall)
  (hwide : (width + half).isFinite = true) (htall : (tall + half).isFinite = true)
  (hhalf : Within half half)

include hp hwide htall

/-- Places no farther from a symbol than half its width. -/
theorem fits_near {h v : Float32} (hh : Within half h) (hv : Within half v) :
    (Point.mk (p.x - h) (p.y - v)).Fits (width + half) (tall + half) ∧
    (Point.mk (p.x - h) (p.y + v)).Fits (width + half) (tall + half) ∧
    (Point.mk (p.x + h) (p.y - v)).Fits (width + half) (tall + half) ∧
    (Point.mk (p.x + h) (p.y + v)).Fits (width + half) (tall + half) := by
  have before := hp.1.sub hh hwide
  have after := hp.1.add hh hwide
  have above := hp.2.sub hv htall
  have below := hp.2.add hv htall
  exact ⟨⟨before, above⟩, ⟨before, below⟩, ⟨after, above⟩, after, below⟩

include hhalf

theorem allFinite_contactLines (negated : Bool) : AllFinite (contactLines p half negated) := by
  have reach : Within half (half * Scalar.ratio 4 5) :=
    hhalf.mul_ratio hhalf.1 (by norm_num) (by norm_num) (by norm_num)
  have slant : Within half (half * Scalar.ratio 3 5) :=
    hhalf.mul_ratio hhalf.1 (by norm_num) (by norm_num) (by norm_num)
  obtain ⟨leftTop, leftBottom, rightTop, rightBottom⟩ := fits_near hp hwide htall hhalf reach
  obtain ⟨-, slashBottom, slashTop, -⟩ := fits_near hp hwide htall slant reach
  apply AllFinite.append
  · apply AllFinite.of_forall
    simp only [List.forall_mem_cons]
    exact ⟨isFinite_line leftTop leftBottom, isFinite_line rightTop rightBottom,
      List.forall_mem_nil _⟩
  · split
    · apply AllFinite.of_forall
      rw [List.forall_mem_singleton]
      exact isFinite_line slashBottom slashTop
    · exact .nil

theorem isFinite_coilPath : ∀ x ∈ (path (coilPath p half)).scalars, x.isFinite = true := by
  obtain ⟨leftTop, leftBottom, rightTop, rightBottom⟩ := fits_near hp hwide htall hhalf hhalf
  rw [scalars_path, List.forall_mem_flatMap]
  simp only [coilPath, List.forall_mem_cons, PathStep.scalars]
  exact ⟨leftTop.isFinite, ⟨hhalf.1, leftBottom.isFinite⟩, rightTop.isFinite,
    ⟨hhalf.1, rightBottom.isFinite⟩, List.forall_mem_nil _⟩

theorem allFinite_coilLines (negated : Bool) : AllFinite (coilLines p half negated) := by
  have rise : Within half (half * Scalar.ratio 7 10) :=
    hhalf.mul_ratio hhalf.1 (by norm_num) (by norm_num) (by norm_num)
  have slant : Within half (half * Scalar.ratio 2 5) :=
    hhalf.mul_ratio hhalf.1 (by norm_num) (by norm_num) (by norm_num)
  obtain ⟨-, slashBottom, slashTop, -⟩ := fits_near hp hwide htall slant rise
  apply AllFinite.of_forall
  refine List.forall_mem_cons.2 ⟨isFinite_coilPath hp hwide htall hhalf, ?_⟩
  split
  · rw [List.forall_mem_singleton]
    exact isFinite_line slashBottom slashTop
  · exact List.forall_mem_nil _

end Symbols

/-! ### Pens -/

/-- The sizes that a pen adds to a drawing. -/
structure Pen.Usable (pen : Pen Float32) : Prop where
  strokeWidth : pen.strokeWidth.isFinite = true
  fontSize : pen.fontSize.isFinite = true
  half : Within (Scalar.half pen.symbolWidth) (Scalar.half pen.symbolWidth)

namespace Pen

variable {pen : Pen Float32} {width tall : Float32} (hpen : pen.Usable)

include hpen

section Symbols

variable (hwide : (width + Scalar.half pen.symbolWidth).isFinite = true)
  (htall : (tall + Scalar.half pen.symbolWidth).isFinite = true)

include htall in
/-- The gap under a label is too small to leave the range of floats. -/
theorem isFinite_label {g : Glyph Float32} (hg : g.position.Fits width tall) :
    ∀ x ∈ (pen.label g).scalars, x.isFinite = true := by
  obtain ⟨hfour, hvalue⟩ := value_ofNat (n := 4) (by norm_num)
  have hsmall : |value (Float32.ofNat 4)| < 2 ^ 103 := by
    rw [hvalue]
    norm_num
  have hlevel : (g.position.y - Scalar.half pen.symbolWidth - Float32.ofNat 4).isFinite = true :=
    isFinite_sub_of_small (hg.2.sub hpen.half htall).1 hfour hsmall
  simp only [scalars_label, List.forall_mem_cons]
  exact ⟨hpen.fontSize, hg.1.1, hlevel, List.forall_mem_nil _⟩

include hwide htall

theorem isFinite_glyph {g : Glyph Float32} (hg : g.position.Fits width tall) :
    ∀ x ∈ (pen.glyph g).scalars, x.isFinite = true := by
  have label : AllFinite [pen.label g] := by
    apply AllFinite.of_forall
    rw [List.forall_mem_singleton]
    exact isFinite_label hpen htall hg
  rw [glyph]
  split
  · rw [scalars_group]
    exact (allFinite_contactLines hg hwide htall hpen.half g.negated).append label
  · rw [scalars_group]
    exact (allFinite_coilLines hg hwide htall hpen.half g.negated).append label

theorem allFinite_glyphs {gs : List (Glyph Float32)}
    (hgs : ∀ g ∈ gs, g.position.Fits width tall) : AllFinite (gs.map pen.glyph) := by
  apply AllFinite.of_forall
  rw [List.forall_mem_map]
  exact fun g hg => isFinite_glyph hpen hwide htall (hgs g hg)

theorem isFinite_rung {wide : Float32} {r : RungLayout Float32} (hr : r.Fits width wide tall) :
    ∀ x ∈ (pen.rung r).scalars, x.isFinite = true := by
  have lines : AllFinite (r.lines.flatMap pen.branch) := by
    apply AllFinite.of_forall
    intro n hn
    obtain ⟨l, hl, hn⟩ := List.mem_flatMap.1 hn
    have branch : AllFinite (pen.branch l) :=
      (allFinite_segments (hr.lines l hl).wires).append
        (allFinite_glyphs hpen hwide htall (hr.lines l hl).glyphs)
    exact List.forall_mem_flatMap.1 branch n hn
  have coil : AllFinite ([r.coil].map pen.glyph) :=
    allFinite_glyphs hpen hwide htall (List.forall_mem_singleton.2 hr.coil)
  rw [rung, scalars_group]
  exact (lines.append (allFinite_segments hr.connectors)).append coil

end Symbols

section Page

variable {d : Diagram Float32} (hd : d.Fits (d.width + Scalar.half pen.symbolWidth) tall)
  (hwide : (d.width + Scalar.half pen.symbolWidth).isFinite = true)
  (htall : (tall + Scalar.half pen.symbolWidth).isFinite = true)

omit hpen in
include hd in
theorem isFinite_rail {x : Float32} (hx : Within (d.width + Scalar.half pen.symbolWidth) x) :
    ∀ n ∈ (rail d.height x).scalars, n.isFinite = true := by
  obtain ⟨hzero, hvalue⟩ := value_ofNat (n := 0) (by norm_num)
  have zero : Within tall (Float32.ofNat 0) := by
    refine ⟨hzero, ?_⟩
    rw [hvalue, Nat.cast_zero, abs_zero]
    exact hd.height.nonneg
  exact isFinite_line ⟨hx, zero⟩ ⟨hx, hd.height⟩

omit hpen in
include hd in
theorem isFinite_backdrop (paint : Paint) :
    ∀ x ∈ (backdrop d paint).scalars, x.isFinite = true := by
  obtain ⟨hzero, -⟩ := value_ofNat (n := 0) (by norm_num)
  simp only [scalars_backdrop, List.forall_mem_cons]
  exact ⟨hd.height.1, hd.width.1, hzero, hzero, List.forall_mem_nil _⟩

include hd hwide htall

theorem isFinite_ladder : ∀ x ∈ (pen.ladder d).scalars, x.isFinite = true := by
  rw [scalars_ladder]
  refine List.forall_mem_cons.2 ⟨hpen.strokeWidth, AllFinite.of_forall ?_⟩
  simp only [List.forall_mem_cons, List.forall_mem_map]
  exact ⟨isFinite_rail hd hd.left, isFinite_rail hd hd.right,
    fun r hr => isFinite_rung hpen hwide htall (hd.rungs r hr)⟩

theorem isFinite_placeholder : ∀ x ∈ (pen.placeholder d).scalars, x.isFinite = true := by
  obtain ⟨hfinite, -⟩ := isFinite_of_add htall
  simp only [scalars_placeholder, List.forall_mem_cons]
  exact ⟨hpen.fontSize, (hd.width.half hwide).1, (hd.height.half hfinite).1, List.forall_mem_nil _⟩

/-- Everything that a pen adds to a page with enough room around it is finite. -/
theorem isFinite_draw : ∀ x ∈ (pen.draw d).scalars, x.isFinite = true := by
  obtain ⟨hzero, -⟩ := value_ofNat (n := 0) (by norm_num)
  have background : AllFinite (pen.background.map (backdrop d)).toList := by
    apply AllFinite.of_forall
    intro n hn
    obtain ⟨paint, -, rfl⟩ := Option.map_eq_some_iff.1 (Option.mem_toList.1 hn)
    exact isFinite_backdrop hd paint
  have body : AllFinite [if d.isEmpty then pen.placeholder d else pen.ladder d] := by
    apply AllFinite.of_forall
    rw [List.forall_mem_singleton]
    split
    · exact isFinite_placeholder hpen hd hwide htall
    · exact isFinite_ladder hpen hd hwide htall
  rw [scalars_draw]
  refine List.forall_mem_append.2 ⟨?_, background.append body⟩
  simp only [List.forall_mem_cons]
  exact ⟨hd.height.1, hzero, hzero, hd.width.1, hd.height.1, hd.width.1, List.forall_mem_nil _⟩

end Page
end Pen

theorem isNumeral_of_mem_digits {x : Float32} (hx : x.isFinite = true) :
    ∀ c ∈ digits x, Numeral.isNumeral c = true := by
  obtain ⟨negative, m, hm⟩ := FloatValue.ofFloat32_of_isFinite hx
  rw [digits, hm]
  exact fun c => Numeral.isNumeral_of_mem_write fun _ htail => absurd htail List.not_mem_nil

end Svg

/-! ## Pages that are finite, and pages that are not -/

namespace Diagram

variable {s : LayoutSettings Float32}

/-- Every number of a diagram is finite, and is written in digits: `null` does not stand for any
in its record, and a drawing of it has neither `NaN` nor `inf`. -/
structure WrittenInDigits (symbolWidth : Float32) (d : Diagram Float32) : Prop where
  coordinates : ∀ x ∈ d.coordinates, x.isFinite = true
  record : ∀ x ∈ d.toJson.numbers,
    ∀ c ∈ Numeral.write .record (.ofFloat32 x), Numeral.isNumeral c = true
  drawing : ∀ pen : Svg.Pen Float32, pen.symbolWidth = symbolWidth →
    pen.strokeWidth.isFinite = true → pen.fontSize.isFinite = true →
    ∀ x ∈ (pen.draw d).scalars, x.isFinite = true ∧
      ∀ c ∈ Svg.digits x, Numeral.isNumeral c = true

theorem writtenInDigits_of_room {rungs : List Rung} (hs : s.Sound)
    (hwide : ((ofRungs s rungs).width + Scalar.half s.symbolWidth).isFinite = true)
    (htall : ((ofRungs s rungs).height + Layout.leeway + Scalar.half s.symbolWidth).isFinite =
      true) :
    (ofRungs s rungs).WrittenInDigits s.symbolWidth := by
  have hfits := fits_ofRungs hs hwide (isFinite_of_add htall).1
  refine ⟨hfits.isFinite, ?_, ?_⟩
  · rw [numbers_toJson]
    exact fun x hx => Json.Value.isNumeral_of_mem (hfits.isFinite x hx)
  · intro pen hsymbol hstroke hfont x hx
    have hpen : pen.Usable :=
      ⟨hstroke, hfont, hsymbol ▸ within_half_self (hs.finite .symbolWidth) hs.symbolWidth.le⟩
    rw [← hsymbol] at hfits hwide htall
    have hfinite := Svg.Pen.isFinite_draw hpen hfits hwide htall x hx
    exact ⟨hfinite, Svg.isNumeral_of_mem_digits hfinite⟩

/-- **Pages that are finite, and pages that are not.**  Sizes that pass the check lay out any
rungs in finite numbers, if the page has room for half a symbol in its width, and for that and
a leeway in its height.  Up to moderate sizes and counts it has.  Margins of half the range of
floats pass the check too, and no page with them has a finite width. -/
theorem ofRungs_finite (hcheck : s.check = .ok ()) (rungs : List Rung) :
    (((ofRungs s rungs).width + Scalar.half s.symbolWidth).isFinite = true →
      ((ofRungs s rungs).height + Layout.leeway + Scalar.half s.symbolWidth).isFinite = true →
      (ofRungs s rungs).WrittenInDigits s.symbolWidth) ∧
    (s.Moderate rungs → (ofRungs s rungs).WrittenInDigits s.symbolWidth) ∧
    (2 ^ 127 ≤ value s.padding → (ofRungs s rungs).width.isFinite = false) := by
  have hs := LayoutSettings.sound_of_check hcheck
  refine ⟨writtenInDigits_of_room hs, ?_, ?_⟩
  · intro hmoderate
    obtain ⟨hwide, htall⟩ := room_of_moderate hs hmoderate
    exact writtenInDigits_of_room hs hwide htall
  · intro hpadding
    exact width_infinite_of_padding hs hpadding rungs

-- A width and a height that are finite are not enough: the coil is half a slot to the left of
-- the right rail, rounded, and the wire begins half a slot to the right of it, rounded again.
example :
    let slot := Float32.ofNat (3 * 2 ^ 104)
    let s : LayoutSettings Float32 := ⟨slot, 1, 0, 0, Float32.ofBits 0x7F7FFFFF, slot⟩
    let d := ofRungs s [⟨"motor", false, []⟩]
    s.check = .ok () ∧ d.width.isFinite = true ∧ d.height.isFinite = true ∧
      ¬ ∀ x ∈ d.coordinates, x.isFinite = true := by
  decide +kernel

/-- The standard sizes, but for the margin. -/
def wideMargins (padding : Float32) : LayoutSettings Float32 :=
  { LayoutSettings.standard with padding }

/-- A coil that keeps itself on. -/
def latch : Rung where
  operand := "motor"
  negated := false
  branches := [[⟨"start", false, .contact⟩, ⟨"stop", true, .contact⟩],
    [⟨"motor", false, .contact⟩]]

theorem moderate_latch : LayoutSettings.standard.Moderate [latch] where
  size f := by cases f <;> decide +kernel
  contacts := by decide
  branches := by decide
  rungs := by decide

theorem ofRungs_finite_latch :
    (wideMargins 1.6e38).check = .ok () ∧
    (ofRungs (wideMargins 1.6e38) [latch]).WrittenInDigits 20 ∧
    (ofRungs LayoutSettings.standard [latch]).WrittenInDigits 20 ∧
    (ofRungs (wideMargins 2e38) [latch]).width.isFinite = false :=
  ⟨by decide +kernel,
    (ofRungs_finite (s := wideMargins 1.6e38) (by decide +kernel) [latch]).1 (by decide +kernel)
      (by decide +kernel),
    (ofRungs_finite (by decide +kernel) [latch]).2.1 moderate_latch,
    (ofRungs_finite (by decide +kernel) [latch]).2.2 (by decide +kernel)⟩

theorem ofRungs_width_infinite :
    (wideMargins 2e38).check = .ok () ∧
    (ofRungs (wideMargins 2e38) []).width.isFinite = false ∧
    Numeral.write .record (.ofFloat32 (ofRungs (wideMargins 2e38) []).width) = "null".toList ∧
    Svg.digits (ofRungs (wideMargins 2e38) []).width = "inf".toList := by
  decide +kernel

end Diagram
end LadderLogic
