/-
The tree of a drawing.

`Node.nodes` lists a node and everything below it, in document order, and `Node.collect` puts
together what a function finds in each of them.  Names, texts, numbers and arcs of a document
are all collected this way, each by a function of its own.

What is found in symbols only can be read off the diagram: a drawing has what is found in its
symbols, one after another (`Pen.collect_draw`).
-/

import LadderLogic.Svg.Drawing

namespace LadderLogic

variable {α β : Type}

/-! ## Nodes -/

namespace Svg.Node

/-- The name of an element. -/
def name? : Node α → Option String
  | element name _ _ => some name
  | text _ => none

def attributes : Node α → List (Attribute α)
  | element _ attributes _ => attributes
  | text _ => []

def children : Node α → List (Node α)
  | element _ _ children => children
  | text _ => []

/-- The value of an attribute. -/
def value? (wanted : String) (n : Node α) : Option (Value α) :=
  (n.attributes.find? (·.name == wanted)).map (·.value)

mutual

/-- The node and everything below it, in document order. -/
def nodes : Node α → List (Node α)
  | element name attributes children => element name attributes children :: nodesOf children
  | text content => [text content]

def nodesOf : List (Node α) → List (Node α)
  | [] => []
  | child :: rest => nodes child ++ nodesOf rest

end

theorem nodesOf_eq (ns : List (Node α)) : nodesOf ns = ns.flatMap nodes := by
  induction ns with
  | nil => rfl
  | cons n ns ih => rw [nodesOf, ih, List.flatMap_cons]

theorem nodes_eq (n : Node α) : n.nodes = n :: n.children.flatMap nodes := by
  cases n with
  | element name attributes children => rw [nodes, nodesOf_eq, Node.children]
  | text content => rfl

/-- What a function finds in the nodes of a tree, in document order. -/
def collect (own : Node α → List β) (n : Node α) : List β := n.nodes.flatMap own

/-- It finds what is in the node itself, then what is in its children. -/
theorem collect_eq (own : Node α → List β) (n : Node α) :
    n.collect own = own n ++ n.children.flatMap (collect own) := by
  rw [collect, nodes_eq, List.flatMap_cons, List.flatMap_assoc]
  rfl

end Svg.Node

/-! ## Symbols and lines of a diagram -/

/-- The symbols of a rung, the coil last. -/
def RungLayout.glyphs (r : RungLayout α) : List (Glyph α) := r.lines.flatMap (·.glyphs) ++ [r.coil]

def RungLayout.wires (r : RungLayout α) : List (Segment α) := r.lines.flatMap (·.wires)

def Diagram.glyphs (d : Diagram α) : List (Glyph α) := d.rungs.flatMap RungLayout.glyphs

def Diagram.wires (d : Diagram α) : List (Segment α) := d.rungs.flatMap RungLayout.wires

def Diagram.connectors (d : Diagram α) : List (Segment α) := d.rungs.flatMap (·.connectors)

/-! ## What is in symbols only -/

namespace Svg.Pen

variable [Scalar α] {pen : Pen α} {d : Diagram α} {own : Node α → List β}

variable (pen d own) in
/-- Around the symbols of a page there is nothing to be found: not in lines and groups, not in
the background, and not in what holds the rungs. -/
structure InSymbolsOnly : Prop where
  line : ∀ start stop, own (line start stop) = []
  group : ∀ kind children, own (group kind children) = []
  backdrop : ∀ paint, own (backdrop d paint) = []
  ladder : own (pen.ladder d) = []
  page : own (pen.draw d) = []

variable (h : pen.InSymbolsOnly d own)

include h

theorem collect_line (start stop : Point α) : (Svg.line start stop).collect own = [] := by
  rw [Node.collect_eq, h.line]
  rfl

theorem collect_segments (segments : List (Segment α)) :
    (segments.map segment).flatMap (Node.collect own) = [] := by
  rw [List.flatMap_map, List.flatMap_eq_nil_iff]
  intro s _
  exact collect_line h s.start s.stop

theorem collect_branch (l : BranchLine α) :
    (pen.branch l).flatMap (Node.collect own) =
      l.glyphs.flatMap fun g => (pen.glyph g).collect own := by
  rw [branch, List.flatMap_append, collect_segments h, List.nil_append, List.flatMap_map]

theorem collect_rung (r : RungLayout α) :
    (pen.rung r).collect own = r.glyphs.flatMap fun g => (pen.glyph g).collect own := by
  have hgroup : (pen.rung r).collect own =
      (r.lines.flatMap pen.branch ++ r.connectors.map segment ++ [pen.glyph r.coil]).flatMap
        (Node.collect own) := by
    rw [Node.collect_eq, rung, h.group]
    rfl
  rw [hgroup, List.flatMap_append, List.flatMap_append, collect_segments h, List.append_nil,
    List.flatMap_singleton, RungLayout.glyphs, List.flatMap_append, List.flatMap_singleton,
    List.flatMap_assoc, List.flatMap_assoc]
  simp only [collect_branch h]

theorem collect_ladder :
    (pen.ladder d).collect own = d.glyphs.flatMap fun g => (pen.glyph g).collect own := by
  have hchildren : (pen.ladder d).children =
      rail d.height d.left :: rail d.height d.right :: d.rungs.map pen.rung := rfl
  rw [Node.collect_eq, h.ladder, hchildren, List.flatMap_cons, List.flatMap_cons, rail, rail,
    collect_line h, collect_line h, List.flatMap_map, Diagram.glyphs, List.flatMap_assoc]
  simp only [collect_rung h, List.nil_append]

/-- A drawing has what is found in its symbols, in their order; if there are none, what is
found in the text that stands for them. -/
theorem collect_draw : (pen.draw d).collect own =
    if d.isEmpty then (pen.placeholder d).collect own
    else d.glyphs.flatMap fun g => (pen.glyph g).collect own := by
  have hbackground : (pen.background.map (backdrop d)).toList.flatMap (Node.collect own) = [] := by
    rw [List.flatMap_eq_nil_iff]
    intro n hn
    obtain ⟨paint, -, rfl⟩ := Option.map_eq_some_iff.1 (Option.mem_toList.1 hn)
    rw [Node.collect_eq, h.backdrop]
    rfl
  have hchildren : (pen.draw d).children = pen.content d := rfl
  rw [Node.collect_eq, h.page, hchildren, content, List.flatMap_append, hbackground,
    List.flatMap_singleton, List.nil_append, List.nil_append]
  split
  · rfl
  · exact collect_ladder h

end Svg.Pen
end LadderLogic
