/-
A drawing shows everything once.

What a document has to look like to be a drawing of a diagram is said without the pen that
draws it.  Nodes are read by the names of their elements and attributes (`name?`, `value?`):
a wire is a `line` between its own ends, a symbol is a group with its strokes around its own
place (`Glyph.strokes`) and one text, a rung is a group with the nodes of its branches, its
connectors and its coil in this order (`RungParts.nodes`), a page with rungs is two rails and
the groups of its rungs (`Node.IsPage`).  Lines, paths and groups have no other attributes than
those that say what they are, and nothing has a `transform`, so that everything shows where it
is drawn.  `draw_shows_once` finds a page in what a pen draws.

The names of the elements of a document, in their order, are its `tags`.  What a page is
made of determines them (`Diagram.DrawnBy.tags_eq`), so the counts of lines, paths and texts
follow from the shape of the page alone.
-/

import LadderLogic.Proofs.DrawingTree
import Mathlib.Data.List.Forall2
import Mathlib.Data.List.Perm.Basic

namespace LadderLogic

variable {α : Type}

/-! ## Reading a node -/

namespace Svg.Node

/-- The names of all elements of a tree, in the order in which they open. -/
def tags (n : Node α) : List String := n.collect fun m => m.name?.toList

theorem tags_of_name? {n : Node α} {name : String} (h : n.name? = some name) :
    n.tags = name :: n.children.flatMap tags := by
  rw [tags, collect_eq, h]
  rfl

/-- A straight line from one point to another, and nothing else. -/
structure IsLine (start stop : Point α) (n : Node α) : Prop where
  name : n.name? = some "line"
  leaf : n.children = []
  x1 : n.value? "x1" = some (.number start.x)
  y1 : n.value? "y1" = some (.number start.y)
  x2 : n.value? "x2" = some (.number stop.x)
  y2 : n.value? "y2" = some (.number stop.y)
  only : n.attributes.map (·.name) = ["x1", "x2", "y1", "y2"]

/-- A path with the given steps, and nothing else. -/
structure IsPath (steps : List (PathStep α)) (n : Node α) : Prop where
  name : n.name? = some "path"
  leaf : n.children = []
  steps : n.value? "d" = some (.path steps)
  only : n.attributes.map (·.name) = ["d"]

/-- A text element with the given text, centred at a place. -/
structure IsCaption (content : String) (place : Point α) (n : Node α) : Prop where
  name : n.name? = some "text"
  children : n.children = [.text content]
  x : n.value? "x" = some (.number place.x)
  y : n.value? "y" = some (.number place.y)
  anchor : n.value? "text-anchor" = some (.text "middle")
  still : n.value? "transform" = none

/-- A group of the given kind. -/
structure IsGroup (kind : String) (n : Node α) : Prop where
  name : n.name? = some "g"
  kind : n.value? "class" = some (.text kind)
  only : n.attributes.map (·.name) = ["class"]

/-- A rectangle over the whole page in the given paint. -/
structure IsBackdrop [Scalar α] (d : Diagram α) (paint : Paint) (n : Node α) : Prop where
  name : n.name? = some "rect"
  leaf : n.children = []
  x : n.value? "x" = some (.number Scalar.zero)
  y : n.value? "y" = some (.number Scalar.zero)
  width : n.value? "width" = some (.number d.width)
  height : n.value? "height" = some (.number d.height)
  fill : n.value? "fill" = some (.text paint.color)
  opacity : n.value? "fill-opacity" = some (.text paint.opacity)
  still : n.value? "transform" = none

/-- A document of the size of the diagram, which shows just the diagram. -/
structure IsSheet [Scalar α] (d : Diagram α) (n : Node α) : Prop where
  name : n.name? = some "svg"
  width : n.value? "width" = some (.number d.width)
  height : n.value? "height" = some (.number d.height)
  view : n.value? "viewBox" = some (.numbers [Scalar.zero, Scalar.zero, d.width, d.height])
  still : n.value? "transform" = none

end Svg.Node

open Svg (Node Pen Paint PathStep)

/-! ## What a diagram has to be drawn as -/

/-- The segment is drawn as a line between its own ends. -/
def Segment.DrawnBy (s : Segment α) (n : Node α) : Prop := n.IsLine s.start s.stop

/-- The class of a symbol. -/
def GlyphKind.className : GlyphKind → String
  | contact => "contact"
  | coil => "coil"

/-- A stroke of a symbol. -/
inductive Stroke (α : Type) where
  | line (start stop : Point α)
  | path (steps : List (PathStep α))
deriving DecidableEq

/-- The name of the element for a stroke. -/
def Stroke.tag : Stroke α → String
  | line _ _ => "line"
  | path _ => "path"

/-- The stroke is drawn as it is. -/
def Stroke.DrawnBy : Stroke α → Node α → Prop
  | line start stop, n => n.IsLine start stop
  | path steps, n => n.IsPath steps

namespace Glyph

variable [Scalar α] (g : Glyph α)

open Scalar (ofNat ratio)

/-- An upright line in a column, as far above the level of the symbol as below it. -/
def side (x reach : α) : Stroke α := .line ⟨x, g.position.y - reach⟩ ⟨x, g.position.y + reach⟩

/-- An arc from above the level of the symbol to as far below it, in a column. -/
def bow (x radius : α) (sweep : Bool) : List (PathStep α) :=
  [.move ⟨x, g.position.y - radius⟩, .arc radius sweep ⟨x, g.position.y + radius⟩]

/-- The slash through a negated symbol, from the lower left to the upper right. -/
def slash (slant rise : α) : List (Stroke α) :=
  if g.negated then
    [.line ⟨g.position.x - slant, g.position.y + rise⟩ ⟨g.position.x + slant, g.position.y - rise⟩]
  else []

/-- The strokes of a symbol that reaches as far as given to both sides of its place.  The sides
of a contact are shorter than the symbol is wide; the arcs of a coil are as high as it is wide. -/
def strokes (half : α) : List (Stroke α) :=
  match g.kind with
  | .contact =>
    g.side (g.position.x - half) (half * ratio 4 5) ::
      g.side (g.position.x + half) (half * ratio 4 5) ::
      g.slash (half * ratio 3 5) (half * ratio 4 5)
  | .coil =>
    .path (g.bow (g.position.x - half) half false ++ g.bow (g.position.x + half) half true) ::
      g.slash (half * ratio 2 5) (half * ratio 7 10)

/-- Where the operand of a symbol is written: above the symbol, with a gap. -/
def labelPlace (half : α) : Point α := ⟨g.position.x, g.position.y - half - ofNat 4⟩

/-- The symbol is drawn as a group around its own place: its strokes, and one text with its
operand. -/
structure DrawnBy (half : α) (n : Node α) : Prop where
  group : n.IsGroup g.kind.className
  children : ∃ strokes label, n.children = strokes ++ [label] ∧
    List.Forall₂ Stroke.DrawnBy (g.strokes half) strokes ∧
    label.IsCaption g.operand (g.labelPlace half)

end Glyph

/-- The nodes of a branch. -/
structure BranchParts (α : Type) where
  wires : List (Node α)
  glyphs : List (Node α)

/-- The nodes of a rung, apart from its group. -/
structure RungParts (α : Type) where
  lines : List (BranchParts α)
  connectors : List (Node α)
  coil : Node α

/-- The nodes of a page with rungs, apart from its groups. -/
structure PageParts (α : Type) where
  background : Option (Node α)
  left : Node α
  right : Node α
  rungs : List (RungParts α)

/-- The wires of a branch, then its symbols. -/
def BranchParts.nodes (b : BranchParts α) : List (Node α) := b.wires ++ b.glyphs

/-- Branch after branch, then the connectors, then the coil. -/
def RungParts.nodes (r : RungParts α) : List (Node α) :=
  r.lines.flatMap BranchParts.nodes ++ r.connectors ++ [r.coil]

/-- The group of a rung. -/
structure Svg.Node.IsRung (r : RungParts α) (n : Node α) : Prop where
  group : n.IsGroup "rung"
  children : n.children = r.nodes

/-- A document with a background or none, and one group: the rails, then the rungs. -/
structure Svg.Node.IsPage (p : PageParts α) (n : Node α) : Prop where
  name : n.name? = some "svg"
  children : ∃ ladder rungs, n.children = p.background.toList ++ [ladder] ∧
    ladder.name? = some "g" ∧ ladder.value? "transform" = none ∧
    ladder.children = p.left :: p.right :: rungs ∧ List.Forall₂ IsRung p.rungs rungs

section Drawn

variable [Scalar α]

structure BranchLine.DrawnBy (half : α) (l : BranchLine α) (b : BranchParts α) : Prop where
  wires : List.Forall₂ Segment.DrawnBy l.wires b.wires
  glyphs : List.Forall₂ (Glyph.DrawnBy · half) l.glyphs b.glyphs

structure RungLayout.DrawnBy (half : α) (r : RungLayout α) (p : RungParts α) : Prop where
  lines : List.Forall₂ (BranchLine.DrawnBy half) r.lines p.lines
  connectors : List.Forall₂ Segment.DrawnBy r.connectors p.connectors
  coil : r.coil.DrawnBy half p.coil

/-- Everything in the diagram has its node, in its order, and there is a background if there
is a paint for it. -/
structure Diagram.DrawnBy (paint : Option Paint) (half : α) (d : Diagram α) (p : PageParts α) :
    Prop where
  background : Option.Rel (Node.IsBackdrop d) paint p.background
  left : p.left.IsLine ⟨d.left, Scalar.zero⟩ ⟨d.left, d.height⟩
  right : p.right.IsLine ⟨d.right, Scalar.zero⟩ ⟨d.right, d.height⟩
  rungs : List.Forall₂ (RungLayout.DrawnBy half) d.rungs p.rungs

end Drawn

/-! ## The names of the elements -/

theorem flatMap_eq_of_forall₂ {β γ δ : Type} {R : β → γ → Prop} {f : β → List δ} {g : γ → List δ}
    {bs : List β} {cs : List γ} (h : List.Forall₂ R bs cs) (hfg : ∀ b c, R b c → g c = f b) :
    cs.flatMap g = bs.flatMap f := by
  induction h with
  | nil => rfl
  | cons hbc _ ih => rw [List.flatMap_cons, List.flatMap_cons, hfg _ _ hbc, ih]

/-- The elements of a symbol: its group, its strokes and its text.  It does not matter how
wide symbols are. -/
def Glyph.tags (g : Glyph α) : List String :=
  "g" :: ((match g.kind with
    | .contact => ["line", "line"]
    | .coil => ["path"]) ++ (if g.negated then ["line"] else []) ++ ["text"])

/-- The elements of straight lines. -/
def lineTags (segments : List (Segment α)) : List String := segments.flatMap fun _ => ["line"]

def BranchLine.tags (l : BranchLine α) : List String :=
  lineTags l.wires ++ l.glyphs.flatMap Glyph.tags

/-- The elements of a rung, in their order. -/
def RungLayout.tags (r : RungLayout α) : List String :=
  "g" :: (r.lines.flatMap BranchLine.tags ++ lineTags r.connectors ++ r.coil.tags)

theorem Svg.Node.IsLine.tags_eq {start stop : Point α} {n : Node α} (h : n.IsLine start stop) :
    n.tags = ["line"] := by
  rw [Node.tags_of_name? h.name, h.leaf]
  rfl

theorem Svg.Node.IsRung.tags_eq {p : RungParts α} {n : Node α} (h : n.IsRung p) :
    n.tags = "g" :: p.nodes.flatMap Node.tags := by
  rw [Node.tags_of_name? h.group.name, h.children]

theorem tags_segments {segments : List (Segment α)} {nodes : List (Node α)}
    (h : List.Forall₂ Segment.DrawnBy segments nodes) :
    nodes.flatMap Node.tags = lineTags segments :=
  flatMap_eq_of_forall₂ h fun _ _ hs => Node.IsLine.tags_eq hs

theorem Stroke.DrawnBy.tags_eq {s : Stroke α} {n : Node α} (h : s.DrawnBy n) :
    n.tags = [s.tag] := by
  cases s with
  | line start stop => exact Node.IsLine.tags_eq h
  | path steps =>
    have hpath : n.IsPath steps := h
    rw [Node.tags_of_name? hpath.name, hpath.leaf]
    rfl

section Drawn

variable [Scalar α] {half : α}

theorem Glyph.DrawnBy.tags_eq {g : Glyph α} {n : Node α} (h : g.DrawnBy half n) :
    n.tags = g.tags := by
  obtain ⟨strokes, label, hchildren, hstrokes, hlabel⟩ := h.children
  have htext : label.tags = ["text"] := by
    rw [Node.tags_of_name? hlabel.name, hlabel.children]
    rfl
  have htags : strokes.flatMap Node.tags = (g.strokes half).flatMap fun s => [s.tag] :=
    flatMap_eq_of_forall₂ hstrokes fun _ _ hs => hs.tags_eq
  rw [Node.tags_of_name? h.group.name, hchildren, List.flatMap_append, htags,
    List.flatMap_singleton, htext, Glyph.tags, Glyph.strokes]
  cases g.kind <;> simp [Glyph.slash, Glyph.side, Stroke.tag, apply_ite (List.flatMap _)]

theorem BranchLine.DrawnBy.tags_eq {l : BranchLine α} {b : BranchParts α}
    (h : l.DrawnBy half b) : b.nodes.flatMap Node.tags = l.tags := by
  have hglyphs : b.glyphs.flatMap Node.tags = l.glyphs.flatMap Glyph.tags :=
    flatMap_eq_of_forall₂ h.glyphs fun _ _ hg => hg.tags_eq
  rw [BranchParts.nodes, List.flatMap_append, tags_segments h.wires, hglyphs]
  rfl

theorem RungLayout.DrawnBy.tags_eq {r : RungLayout α} {p : RungParts α}
    (h : r.DrawnBy half p) : "g" :: p.nodes.flatMap Node.tags = r.tags := by
  have hlines : (p.lines.flatMap BranchParts.nodes).flatMap Node.tags =
      r.lines.flatMap BranchLine.tags := by
    rw [List.flatMap_assoc]
    exact flatMap_eq_of_forall₂ h.lines fun _ _ hl => hl.tags_eq
  rw [RungParts.nodes, List.flatMap_append, List.flatMap_append, hlines,
    tags_segments h.connectors, List.flatMap_singleton, h.coil.tags_eq]
  rfl

/-- The element of a background, if there is one. -/
def backdropTags (paint : Option Paint) : List String := if paint.isSome then ["rect"] else []

theorem tags_background {d : Diagram α} {paint : Option Paint}
    {background : Option (Node α)} (h : Option.Rel (Node.IsBackdrop d) paint background) :
    background.toList.flatMap Node.tags = backdropTags paint := by
  cases h with
  | none => rfl
  | some hrect => simp [backdropTags, Node.tags_of_name? hrect.name, hrect.leaf]

theorem count_backdropTags (paint : Option Paint) {name : String} (h : name ≠ "rect") :
    (backdropTags paint).count name = 0 := by
  cases paint <;> simp [backdropTags, Ne.symm h]

/-- The elements of a page, in their order. -/
theorem Diagram.DrawnBy.tags_eq {d : Diagram α} {paint : Option Paint} {p : PageParts α}
    {n : Node α} (h : d.DrawnBy paint half p) (hn : n.IsPage p) :
    n.tags = "svg" :: (backdropTags paint ++
      "g" :: (["line", "line"] ++ d.rungs.flatMap RungLayout.tags)) := by
  obtain ⟨ladder, rungs, hchildren, hname, -, hladder, hrungs⟩ := hn.children
  -- from the groups to their parts, and from the parts to the rungs that they show
  have hgroups : rungs.flatMap Node.tags =
      p.rungs.flatMap fun q => "g" :: q.nodes.flatMap Node.tags :=
    flatMap_eq_of_forall₂ hrungs fun _ _ hq => hq.tags_eq
  have hparts : (p.rungs.flatMap fun q => "g" :: q.nodes.flatMap Node.tags) =
      d.rungs.flatMap RungLayout.tags :=
    flatMap_eq_of_forall₂ h.rungs fun _ _ hr => hr.tags_eq
  rw [Node.tags_of_name? hn.name, hchildren, List.flatMap_append, tags_background h.background,
    List.flatMap_singleton, Node.tags_of_name? hname, hladder, List.flatMap_cons,
    List.flatMap_cons, h.left.tags_eq, h.right.tags_eq, hgroups, hparts]
  rfl

end Drawn

/-! ## Counting -/

theorem count_lineTags (segments : List (Segment α)) (name : String) :
    (lineTags segments).count name = if name = "line" then segments.length else 0 := by
  induction segments with
  | nil => simp [lineTags]
  | cons s segments ih =>
    rw [lineTags, List.flatMap_cons, ← lineTags, List.count_append, ih]
    by_cases h : name = "line"
    · simp [h]
      omega
    · simp [h, Ne.symm h]

/-- Up to order, the elements of branches are their lines and their symbols. -/
theorem tags_lines_perm (lines : List (BranchLine α)) :
    (lines.flatMap BranchLine.tags).Perm
      (lineTags (lines.flatMap (·.wires)) ++ (lines.flatMap (·.glyphs)).flatMap Glyph.tags) := by
  rw [lineTags, List.flatMap_assoc, List.flatMap_assoc]
  exact (List.flatMap_append_perm lines (fun l => lineTags l.wires)
    fun l => l.glyphs.flatMap Glyph.tags).symm

/-- Apart from its group, every element of a rung belongs to a line or to a symbol. -/
theorem count_rungTags (rungs : List (RungLayout α)) {name : String} (hname : name ≠ "g") :
    (rungs.flatMap RungLayout.tags).count name =
      (lineTags (rungs.flatMap RungLayout.wires)).count name +
      (lineTags (rungs.flatMap (·.connectors))).count name +
      ((rungs.flatMap RungLayout.glyphs).flatMap Glyph.tags).count name := by
  induction rungs with
  | nil => rfl
  | cons r rungs ih =>
    have hlines := (tags_lines_perm r.lines).count_eq name
    rw [List.count_append] at hlines
    simp only [lineTags, RungLayout.tags, RungLayout.wires, RungLayout.glyphs, List.flatMap_cons,
      List.flatMap_append, List.flatMap_nil, List.append_nil, List.count_append,
      List.count_cons_of_ne (Ne.symm hname)] at hlines ih ⊢
    omega

/-- What the symbols of a drawing are made of. -/
theorem count_glyphTags (glyphs : List (Glyph α)) :
    (glyphs.flatMap Glyph.tags).count "line" =
        2 * glyphs.countP (·.kind = .contact) + glyphs.countP (·.negated) ∧
      (glyphs.flatMap Glyph.tags).count "path" = glyphs.countP (·.kind = .coil) ∧
      (glyphs.flatMap Glyph.tags).count "text" = glyphs.length := by
  induction glyphs with
  | nil => simp
  | cons g glyphs ih =>
    obtain ⟨hline, hpath, htext⟩ := ih
    obtain ⟨position, operand, negated, kind⟩ := g
    cases kind <;> cases negated <;> simp [Glyph.tags, hline, hpath, htext] <;> omega

/-- How many lines, paths and texts there are on a page. -/
theorem Diagram.DrawnBy.counts [Scalar α] {half : α} {d : Diagram α} {paint : Option Paint}
    {p : PageParts α} {n : Node α} (h : d.DrawnBy paint half p) (hn : n.IsPage p) :
    n.tags.count "line" =
        2 + d.wires.length + d.connectors.length + 2 * d.glyphs.countP (·.kind = .contact) +
          d.glyphs.countP (·.negated) ∧
      n.tags.count "path" = d.glyphs.countP (·.kind = .coil) ∧
      n.tags.count "text" = d.glyphs.length := by
  obtain ⟨hline, hpath, htext⟩ := count_glyphTags d.glyphs
  -- apart from the rails there is nothing but rungs, whatever is counted
  have hrungs : ∀ name, name ≠ "g" → name ≠ "svg" → name ≠ "rect" → n.tags.count name =
      ["line", "line"].count name + (lineTags d.wires).count name +
        (lineTags d.connectors).count name + (d.glyphs.flatMap Glyph.tags).count name := by
    intro name hg hsvg hrect
    have hcount := count_rungTags d.rungs hg
    rw [h.tags_eq hn, List.count_cons_of_ne (Ne.symm hsvg), List.count_append,
      count_backdropTags paint hrect, List.count_cons_of_ne (Ne.symm hg), List.count_append, hcount,
      Diagram.wires, Diagram.connectors, Diagram.glyphs]
    omega
  refine ⟨?_, ?_, ?_⟩
  · rw [hrungs "line" (by decide) (by decide) (by decide), hline, count_lineTags, count_lineTags,
      if_pos rfl, if_pos rfl]
    simp only [List.count_cons_self, List.count_nil]
    omega
  · rw [hrungs "path" (by decide) (by decide) (by decide), hpath, count_lineTags, count_lineTags]
    simp
  · rw [hrungs "text" (by decide) (by decide) (by decide), htext, count_lineTags, count_lineTags]
    simp

/-! ## What a pen draws -/

namespace Svg

theorem isLine_line (start stop : Point α) : (line start stop).IsLine start stop :=
  ⟨rfl, rfl, rfl, rfl, rfl, rfl, rfl⟩

theorem isPath_path (steps : List (PathStep α)) : (path steps).IsPath steps := ⟨rfl, rfl, rfl, rfl⟩

theorem drawnBy_segments (segments : List (Segment α)) :
    List.Forall₂ Segment.DrawnBy segments (segments.map segment) := by
  rw [List.forall₂_map_right_iff, List.forall₂_same]
  intro s _
  exact isLine_line s.start s.stop

namespace Pen

variable [Scalar α] (pen : Pen α)

/-- The nodes that a pen draws for a rung. -/
def rungParts (r : RungLayout α) : RungParts α where
  lines := r.lines.map fun l => ⟨l.wires.map segment, l.glyphs.map pen.glyph⟩
  connectors := r.connectors.map segment
  coil := pen.glyph r.coil

/-- The nodes that a pen draws for a page with rungs. -/
def pageParts (d : Diagram α) : PageParts α where
  background := pen.background.map (backdrop d)
  left := rail d.height d.left
  right := rail d.height d.right
  rungs := d.rungs.map pen.rungParts

theorem drawnBy_slash (g : Glyph α) (slant rise : α) :
    List.Forall₂ Stroke.DrawnBy (g.slash slant rise) (if g.negated then
      [line ⟨g.position.x - slant, g.position.y + rise⟩
        ⟨g.position.x + slant, g.position.y - rise⟩] else []) := by
  rw [Glyph.slash]
  split
  · exact .cons (isLine_line _ _) .nil
  · exact .nil

theorem drawnBy_contactLines (g : Glyph α) (half : α) (hg : g.kind = .contact) :
    List.Forall₂ Stroke.DrawnBy (g.strokes half) (contactLines g.position half g.negated) := by
  rw [Glyph.strokes, hg]
  exact .cons (isLine_line _ _) (.cons (isLine_line _ _) (drawnBy_slash g _ _))

theorem drawnBy_coilLines (g : Glyph α) (half : α) (hg : g.kind = .coil) :
    List.Forall₂ Stroke.DrawnBy (g.strokes half) (coilLines g.position half g.negated) := by
  rw [Glyph.strokes, hg]
  exact .cons (isPath_path _) (drawnBy_slash g _ _)

theorem drawnBy_glyph (g : Glyph α) : g.DrawnBy (Scalar.half pen.symbolWidth) (pen.glyph g) := by
  have hlabel : (pen.label g).IsCaption g.operand (g.labelPlace (Scalar.half pen.symbolWidth)) :=
    ⟨rfl, rfl, rfl, rfl, rfl, rfl⟩
  rw [glyph]
  split
  · next hkind =>
    refine ⟨?_, _, _, rfl, drawnBy_contactLines g _ hkind, hlabel⟩
    rw [hkind]
    exact ⟨rfl, rfl, rfl⟩
  · next hkind =>
    refine ⟨?_, _, _, rfl, drawnBy_coilLines g _ hkind, hlabel⟩
    rw [hkind]
    exact ⟨rfl, rfl, rfl⟩

theorem drawnBy_rungParts (r : RungLayout α) :
    r.DrawnBy (Scalar.half pen.symbolWidth) (pen.rungParts r) where
  lines := by
    simp only [rungParts, List.forall₂_map_right_iff, List.forall₂_same]
    intro l _
    refine ⟨drawnBy_segments l.wires, ?_⟩
    rw [List.forall₂_map_right_iff, List.forall₂_same]
    exact fun g _ => pen.drawnBy_glyph g
  connectors := drawnBy_segments r.connectors
  coil := pen.drawnBy_glyph r.coil

theorem isRung_rung (r : RungLayout α) : (pen.rung r).IsRung (pen.rungParts r) := by
  refine ⟨⟨rfl, rfl, rfl⟩, ?_⟩
  rw [rung, rungParts, RungParts.nodes, List.flatMap_map]
  rfl

theorem rel_backdrop (d : Diagram α) :
    Option.Rel (Node.IsBackdrop d) pen.background (pen.background.map (backdrop d)) := by
  cases pen.background with
  | none => exact .none
  | some paint => exact .some ⟨rfl, rfl, rfl, rfl, rfl, rfl, rfl, rfl, rfl⟩

theorem drawnBy_pageParts (d : Diagram α) :
    d.DrawnBy pen.background (Scalar.half pen.symbolWidth) (pen.pageParts d) where
  background := pen.rel_backdrop d
  left := isLine_line _ _
  right := isLine_line _ _
  rungs := by
    simp only [pageParts, List.forall₂_map_right_iff, List.forall₂_same]
    exact fun r _ => pen.drawnBy_rungParts r

theorem isPage_draw {d : Diagram α} (hd : d.rungs ≠ []) :
    (pen.draw d).IsPage (pen.pageParts d) := by
  have hladder : (if d.isEmpty then pen.placeholder d else pen.ladder d) = pen.ladder d := by
    rw [Diagram.isEmpty, if_neg (by simpa using hd)]
  refine ⟨rfl, pen.ladder d, d.rungs.map pen.rung, ?_, rfl, rfl, rfl, ?_⟩
  · rw [draw, Node.children, content, hladder]
    rfl
  · simp only [pageParts, List.forall₂_map_left_iff, List.forall₂_map_right_iff, List.forall₂_same]
    exact fun r _ => pen.isRung_rung r

/-- **A drawing shows everything once, unmoved and in order.**  A page without rungs is a
background, if there is a paint for it, and one text in the middle.  A page with rungs is a
background, two rails over the whole height, and for each rung a group with its branches, its
connectors and its coil, all of them in their own places.  So the lines, paths and texts of the
document can be counted in the diagram. -/
theorem draw_shows_once (d : Diagram α) :
    (pen.draw d).IsSheet d ∧
    (d.rungs = [] → ∃ background placeholder,
      (pen.draw d).children = background.toList ++ [placeholder] ∧
      Option.Rel (Node.IsBackdrop d) pen.background background ∧
      placeholder.IsCaption "Ladder diagram will be rendered here."
        ⟨Scalar.half d.width, Scalar.half d.height⟩ ∧
      (pen.draw d).tags.count "line" = 0 ∧ (pen.draw d).tags.count "path" = 0 ∧
      (pen.draw d).tags.count "text" = 1) ∧
    (d.rungs ≠ [] → ∃ p, (pen.draw d).IsPage p ∧
      d.DrawnBy pen.background (Scalar.half pen.symbolWidth) p ∧
      (pen.draw d).tags.count "line" =
        2 + d.wires.length + d.connectors.length + 2 * d.glyphs.countP (·.kind = .contact) +
          d.glyphs.countP (·.negated) ∧
      (pen.draw d).tags.count "path" = d.glyphs.countP (·.kind = .coil) ∧
      (pen.draw d).tags.count "text" = d.glyphs.length) := by
  refine ⟨⟨rfl, rfl, rfl, rfl, rfl⟩, ?_, ?_⟩
  · intro hempty
    have hplaceholder : (pen.draw d).children =
        (pen.background.map (backdrop d)).toList ++ [pen.placeholder d] := by
      rw [draw, Node.children, content, Diagram.isEmpty, hempty]
      rfl
    have htags : (pen.draw d).tags = "svg" :: (backdropTags pen.background ++ ["text"]) := by
      rw [Node.tags_of_name? rfl, hplaceholder, List.flatMap_append,
        tags_background (pen.rel_backdrop d)]
      rfl
    refine ⟨_, _, hplaceholder, pen.rel_backdrop d, ⟨rfl, rfl, rfl, rfl, rfl, rfl⟩, ?_, ?_, ?_⟩
    · simp [htags, count_backdropTags]
    · simp [htags, count_backdropTags]
    · simp [htags, count_backdropTags]
  · intro hd
    have hpage := pen.isPage_draw hd
    have hdrawn := pen.drawnBy_pageParts d
    exact ⟨pen.pageParts d, hpage, hdrawn, hdrawn.counts hpage⟩

/-- Black on white, with symbols of width 20. -/
def blackOnWhite : Pen Float32 := ⟨some ⟨"white", "1"⟩, ⟨"black", "1"⟩, 1, 12, 20⟩

/-- A page that no layout gives: a coil in the middle of a branch, and a contact at its end. -/
def swapped : Diagram Float32 where
  width := 100
  height := 50
  left := 0
  right := 100
  rungs := [{
    span := ⟨0, 50⟩
    coil := ⟨⟨80, 25⟩, "Lamp", true, .contact⟩
    lines := [{
      y := 25
      glyphs := [⟨⟨30, 25⟩, "Start", true, .contact⟩, ⟨⟨60, 25⟩, "Motor", false, .coil⟩]
      wires := [.wire 0 20 25, .wire 40 50 25]
      connectsToSplit := false
      connectsToMerge := false }]
    connectors := [.upright 70 0 50 .merge] }]

theorem draw_shows_once_swapped :
    (∃ p, (blackOnWhite.draw swapped).IsPage p ∧ swapped.DrawnBy blackOnWhite.background 10 p) ∧
      swapped.glyphs.map (Glyph.strokes · 10) =
        [[.line ⟨20, 17⟩ ⟨20, 33⟩, .line ⟨40, 17⟩ ⟨40, 33⟩, .line ⟨24, 33⟩ ⟨36, 17⟩],
         [.path [.move ⟨50, 15⟩, .arc 10 false ⟨50, 35⟩, .move ⟨70, 15⟩, .arc 10 true ⟨70, 35⟩]],
         [.line ⟨70, 17⟩ ⟨70, 33⟩, .line ⟨90, 17⟩ ⟨90, 33⟩, .line ⟨74, 33⟩ ⟨86, 17⟩]] ∧
      (blackOnWhite.draw swapped).tags.count "line" = 11 ∧
      (blackOnWhite.draw swapped).tags.count "path" = 1 ∧
      (blackOnWhite.draw swapped).tags.count "text" = 3 ∧
      (blackOnWhite.draw { swapped with rungs := [] }).tags.count "text" = 1 := by
  obtain ⟨p, hpage, hdrawn, hline, hpath, htext⟩ :=
    (draw_shows_once blackOnWhite swapped).2.2 (by simp [swapped])
  obtain ⟨-, -, -, -, -, -, -, hempty⟩ :=
    (draw_shows_once blackOnWhite { swapped with rungs := [] }).2.1 rfl
  have hhalf : Scalar.half blackOnWhite.symbolWidth = 10 := by decide +kernel
  rw [hhalf] at hdrawn
  refine ⟨⟨p, hpage, hdrawn⟩, by decide +kernel, ?_, ?_, ?_, hempty⟩
  · rw [hline]
    decide
  · rw [hpath]
    decide
  · rw [htext]
    decide

end Pen
end Svg
end LadderLogic
