/-
Wires end where symbols begin.

The layout ends a wire half a symbol before the place of a symbol, and begins the next one
half a symbol behind it; the pen draws the edges of the symbol around the same place, with a
width of its own.  When a page is drawn with the settings it was laid out with, both widths
are one number, both halves are one division, and both edges are one operation on the same
operands.  So the two agree in any arithmetic, to the last bit, and no law of arithmetic is
used (`RungLayout.Meets`).  They agree in both directions: a wire ends on the level around
which the edge of its symbol is drawn.
-/

import LadderLogic.Proofs.DrawnParts
import LadderLogic.Proofs.PageTiling
import LadderLogic.Render

namespace LadderLogic

open Svg (Node Pen Paint)

variable {α : Type}

/-! ## Edges -/

namespace Svg.Node

variable [Scalar α]

/-- The sides of a contact: two upright lines around two points, the left one first. -/
def HasSides (reach : α) (left right : Point α) (n : Node α) : Prop :=
  ∃ first second rest, n.children = first :: second :: rest ∧
    first.IsLine ⟨left.x, left.y - reach⟩ ⟨left.x, left.y + reach⟩ ∧
    second.IsLine ⟨right.x, right.y - reach⟩ ⟨right.x, right.y + reach⟩

/-- The arcs of a coil, each from above a point to below it, the left one first. -/
def HasArcs (radius : α) (left right : Point α) (n : Node α) : Prop :=
  ∃ path rest, n.children = path :: rest ∧
    path.IsPath [.move ⟨left.x, left.y - radius⟩, .arc radius false ⟨left.x, left.y + radius⟩,
      .move ⟨right.x, right.y - radius⟩, .arc radius true ⟨right.x, right.y + radius⟩]

/-- The symbol begins and ends at the given points. -/
def HasEdges (half : α) (kind : GlyphKind) (left right : Point α) (n : Node α) : Prop :=
  match kind with
  | .contact => n.HasSides (half * Scalar.ratio 4 5) left right
  | .coil => n.HasArcs half left right

end Svg.Node

theorem Glyph.DrawnBy.edges [Scalar α] {half : α} {g : Glyph α} {n : Node α}
    (h : g.DrawnBy half n) :
    n.HasEdges half g.kind ⟨g.position.x - half, g.position.y⟩
      ⟨g.position.x + half, g.position.y⟩ := by
  obtain ⟨strokes, label, hchildren, hstrokes, -⟩ := h.children
  rw [Glyph.strokes] at hstrokes
  cases hkind : g.kind with
  | contact =>
    rw [hkind] at hstrokes
    obtain ⟨first, others, hfirst, hothers, rfl⟩ := List.forall₂_cons_left_iff.1 hstrokes
    obtain ⟨second, rest, hsecond, -, rfl⟩ := List.forall₂_cons_left_iff.1 hothers
    exact ⟨first, second, _, hchildren, hfirst, hsecond⟩
  | coil =>
    rw [hkind] at hstrokes
    obtain ⟨path, rest, hpath, -, rfl⟩ := List.forall₂_cons_left_iff.1 hstrokes
    exact ⟨path, _, hchildren, hpath⟩

/-! ## Meeting edges -/

section Meeting

variable [Scalar α]

/-- The symbols of a line are drawn from the end of the wire before them to the start of the
wire behind them. -/
structure BranchLine.Meets (half : α) (l : BranchLine α) (b : BranchParts α) : Prop where
  /-- There is a wire on either side of every symbol, and a node for every symbol. -/
  wires : l.wires.length = l.glyphs.length + 1
  glyphs : b.glyphs.length = l.glyphs.length
  edges : ∀ (i : Nat) (g : Glyph α) (node : Node α) (before behind : Segment α),
    l.glyphs[i]? = some g → b.glyphs[i]? = some node → l.wires[i]? = some before →
    l.wires[i + 1]? = some behind → node.HasEdges half g.kind before.stop behind.start

/-- The coil of a rung is drawn up to the start of the last connector, and from the end of the
connector that comes from where the branches end, if there are branches. -/
structure RungLayout.Meets (half merge : α) (r : RungLayout α) (p : RungParts α) : Prop where
  lines : List.Forall₂ (BranchLine.Meets half) r.lines p.lines
  /-- The place where the branches end is the end of their last wires. -/
  merges : ∀ l ∈ r.lines, ∀ w, l.wires[l.glyphs.length]? = some w → w.stop.x = merge
  coil : ∃ left others last, r.connectors = others ++ [last] ∧
    p.coil.HasArcs half left last.start ∧
    (r.lines ≠ [] → ∃ junctions feed, others = junctions ++ [feed] ∧ feed.kind = .wire ∧
      feed.start.x = merge ∧ feed.stop = left)

end Meeting

theorem forall₂_getElem? {β γ : Type} {R : β → γ → Prop} {bs : List β} {cs : List γ} {i : Nat}
    {b : β} {c : γ} (h : List.Forall₂ R bs cs) (hb : bs[i]? = some b) (hc : cs[i]? = some c) :
    R b c := by
  induction h generalizing i with
  | nil => cases hb
  | cons hhead _ ih =>
    cases i with
    | zero =>
      cases hb
      cases hc
      exact hhead
    | succ i => exact ih hb hc

/-! ## What a layout meets -/

namespace Layout.Frame

variable [Scalar α] {f : Frame α} {rung : Rung} {top : α}

theorem exists_branchLine_of_mem {l : BranchLine α} (hl : l ∈ (f.place rung top).lines) :
    ∃ parallel branch y, l = f.branchLine parallel branch y := by
  obtain ⟨i, hi, rfl⟩ := List.mem_mapIdx.1 hl
  exact ⟨_, _, _, rfl⟩

/-- A branch meets every drawing of it with symbols of the width it was laid out for. -/
theorem meets_branchLine {parallel : Bool} {branch : Branch} {y : α} {b : BranchParts α}
    (h : (f.branchLine parallel branch y).DrawnBy f.halfSymbol b) :
    (f.branchLine parallel branch y).Meets f.halfSymbol b where
  wires := f.length_wires y f.left (f.glyphs branch y)
  glyphs := h.glyphs.length_eq.symm
  edges i g node before behind hg hnode hbefore hbehind := by
    -- on both sides the edge is the place of the symbol, less or plus the same half
    obtain ⟨-, -, hlevel⟩ := f.glyphs_getElem? y hg
    have hstop : before.stop = ⟨g.position.x - f.halfSymbol, g.position.y⟩ := by
      rw [hlevel, ← f.wires_enter y hg hbefore,
        ← (f.wires_level y before (List.mem_of_getElem? hbefore)).2.2]
    have hstart : behind.start = ⟨g.position.x + f.halfSymbol, g.position.y⟩ := by
      rw [hlevel, ← f.wires_leave y hg hbehind,
        ← (f.wires_level y behind (List.mem_of_getElem? hbehind)).2.1]
    rw [hstop, hstart]
    exact (forall₂_getElem? h.glyphs hg hnode).edges

/-- Behind the branches there is a wire to the coil. -/
theorem exists_feed {lines : List (BranchLine α)} (coil : Glyph α) (middle : α)
    (hlines : lines ≠ []) :
    ∃ junctions, f.connectors lines coil middle =
      junctions ++ [.wire f.mergeX (coil.position.x - f.halfSymbol) middle] ++
        [.wire (coil.position.x + f.halfSymbol) f.right middle] := by
  match lines with
  | [] => exact absurd rfl hlines
  | [_] => exact ⟨[], rfl⟩
  | one :: two :: rest =>
    exact ⟨[.upright f.splitX one.y _ .split, .upright f.mergeX one.y _ .merge], rfl⟩

theorem meets_place {p : RungParts α} (h : (f.place rung top).DrawnBy f.halfSymbol p) :
    (f.place rung top).Meets f.halfSymbol f.mergeX p where
  lines := by
    have hlines : ∀ l ∈ (f.place rung top).lines, ∃ parallel branch y,
        l = f.branchLine parallel branch y := fun l hl => exists_branchLine_of_mem hl
    refine ((List.forall₂_and_left _ _).2 ⟨hlines, h.lines⟩).imp ?_
    rintro l b ⟨⟨parallel, branch, y, rfl⟩, hdrawn⟩
    exact meets_branchLine hdrawn
  merges l hl w hw := by
    obtain ⟨parallel, branch, y, rfl⟩ := exists_branchLine_of_mem hl
    exact f.wires_last y hw
  coil := by
    -- the connector behind the coil is always the last one, the one before it may be missing
    by_cases hlines : (f.place rung top).lines = []
    · exact ⟨_, _, _, rfl, h.coil.edges, fun hne => absurd hlines hne⟩
    · obtain ⟨junctions, hconnectors⟩ :=
        exists_feed (f := f) (f.place rung top).coil (f.place rung top).span.middle hlines
      exact ⟨_, _, _, hconnectors, h.coil.edges, fun _ => ⟨junctions, _, rfl, rfl, rfl, rfl⟩⟩

end Layout.Frame

/-- Every page meets every drawing of it with symbols of the width it was laid out for. -/
theorem Diagram.meets_ofRungs [Scalar α] {s : LayoutSettings α} {rungs : List Rung}
    {paint : Option Paint} {p : PageParts α}
    (h : (ofRungs s rungs).DrawnBy paint (Scalar.half s.symbolWidth) p) :
    List.Forall₂
      (RungLayout.Meets (Scalar.half s.symbolWidth) ((ofRungs s rungs).right - s.elementWidth))
      (ofRungs s rungs).rungs p.rungs := by
  have hplaced : ∀ r ∈ (ofRungs s rungs).rungs, ∃ rung ∈ rungs, ∃ top,
      r = (Layout.pageFrame s rungs).place rung top := fun r hr => exists_place_of_mem_rungs hr
  refine ((List.forall₂_and_left _ _).2 ⟨hplaced, h.rungs⟩).imp ?_
  -- the half symbol of the frame of the page is the one of the drawing
  rintro r q ⟨⟨rung, -, top, rfl⟩, hdrawn⟩
  exact Layout.Frame.meets_place (f := Layout.pageFrame s rungs) hdrawn

/-! ## Pages drawn with the settings that they were laid out with -/

theorem Svg.Pen.symbolWidth_of_ofStyle {style : StyleSettings α} {width : α} {pen : Pen α}
    (h : Pen.ofStyle style width = .ok pen) : pen.symbolWidth = width := by
  rw [Pen.ofStyle] at h
  split at h
  · cases h
  · split at h
    · cases h
    · cases h
      rfl

theorem Diagram.exists_pen_of_write {settings : Settings Float32} {d : Diagram Float32}
    {text : String} (h : d.write settings .svg = .ok text) :
    ∃ pen, Pen.ofStyle settings.style settings.layout.symbolWidth = .ok pen ∧
      text = (pen.draw d).document := by
  rw [write, svg] at h
  split at h
  · cases h
  · next pen hpen =>
    cases h
    exact ⟨pen, hpen, rfl⟩

/-- **Wires end where symbols begin.**  Whatever the settings are, a page that is laid out and
drawn with them has the edges of every symbol at the ends of the wires around it, and those of
every coil at the ends of the connectors: the numbers are the same. -/
theorem Diagram.write_meets (settings : Settings Float32) (rungs : List Rung) (text : String)
    (h : (ofRungs settings.layout rungs).write settings .svg = .ok text) :
    ∃ pen, Pen.ofStyle settings.style settings.layout.symbolWidth = .ok pen ∧
      text = (pen.draw (ofRungs settings.layout rungs)).document ∧
      (rungs ≠ [] → ∃ p, (pen.draw (ofRungs settings.layout rungs)).IsPage p ∧
        (ofRungs settings.layout rungs).DrawnBy pen.background
          (Scalar.half settings.layout.symbolWidth) p ∧
        List.Forall₂
          (RungLayout.Meets (Scalar.half settings.layout.symbolWidth)
            ((ofRungs settings.layout rungs).right - settings.layout.elementWidth))
          (ofRungs settings.layout rungs).rungs p.rungs) := by
  obtain ⟨pen, hpen, htext⟩ := exists_pen_of_write h
  refine ⟨pen, hpen, htext, ?_⟩
  intro hne
  have hrungs : (ofRungs settings.layout rungs).rungs ≠ [] := by
    cases rungs with
    | nil => exact absurd rfl hne
    | cons rung rest => exact List.cons_ne_nil _ _
  have hdrawn := pen.drawnBy_pageParts (ofRungs settings.layout rungs)
  rw [Svg.Pen.symbolWidth_of_ofStyle hpen] at hdrawn
  exact ⟨pen.pageParts _, pen.isPage_draw hrungs, hdrawn, meets_ofRungs hdrawn⟩

/-- Symbols whose half width is rounded, and so are the edges of symbols. -/
def narrow : Settings Float32 :=
  ⟨{ LayoutSettings.standard with symbolWidth := 0.7 }, .standard⟩

/-- A coil behind a contact or behind another coil. -/
def relay : Rung where
  operand := "Motor"
  negated := false
  branches := [[⟨"Start", true, .contact⟩], [⟨"Lamp", false, .coil⟩]]

theorem Diagram.write_meets_relay :
    ∃ text, (ofRungs narrow.layout [relay, ⟨"Idle", false, []⟩]).write narrow .svg = .ok text ∧
      ∃ page p q b node, text = Node.document page ∧ page.IsPage p ∧ p.rungs[0]? = some q ∧
        q.lines[0]? = some b ∧ b.glyphs[0]? = some node ∧
        node.HasSides 0.28 ⟨119.65, 65⟩ ⟨120.35, 65⟩ := by
  have hstyle : (Pen.ofStyle narrow.style narrow.layout.symbolWidth).toOption.isSome = true := by
    decide +kernel
  cases hpen : Pen.ofStyle narrow.style narrow.layout.symbolWidth with
  | error fault =>
    rw [hpen] at hstyle
    cases hstyle
  | ok pen =>
    have hwrite : (ofRungs narrow.layout [relay, ⟨"Idle", false, []⟩]).write narrow .svg =
        .ok (pen.draw (ofRungs narrow.layout [relay, ⟨"Idle", false, []⟩])).document := by
      rw [write, svg, hpen]
    obtain ⟨pen', -, htext, hpage⟩ := write_meets narrow _ _ hwrite
    obtain ⟨p, hp, -, hmeets⟩ := hpage (List.cons_ne_nil _ _)
    obtain ⟨q, qs, hq, -, hqs⟩ := List.forall₂_cons_left_iff.1 hmeets
    obtain ⟨b, bs, hb, -, hbs⟩ := List.forall₂_cons_left_iff.1 hq.lines
    obtain ⟨node, hnode⟩ := List.length_eq_one_iff.1 hb.glyphs
    have hedges : node.HasSides _ _ _ := hb.edges 0 _ node _ _ rfl (by rw [hnode]; rfl) rfl rfl
    refine ⟨_, hwrite, _, p, q, b, node, htext, hp, by rw [hqs]; rfl, by rw [hbs]; rfl,
      by rw [hnode]; rfl, ?_⟩
    convert hedges using 1
    · decide +kernel
    · decide +kernel
    · decide +kernel

end LadderLogic
