/-
Rungs tile the page.

Rungs are placed one below the other, each where the one before it ends.  `Tiles` says so
without the running height: a list of rungs fills the page from one height to another.  In
exact arithmetic the levels within a rung have closed forms, counted from its upper edge
(`level_of_line`) and from its lower one, so that distances between lines are multiples of
the branch spacing; together with the tiling they bound the distance of any two lines of a
page.

Along a rung, every place lies between the rails because the page is as wide as its longest
branch needs.  Wires and connectors end at a few places only (`wires_ends`,
`connectors_ends`), and with the levels these give the box that everything drawn lies in.
-/

import LadderLogic.Proofs.Continuity

namespace LadderLogic

/-! ## What tiling means -/

/-- The rungs fill the page from one height down to another, each from where the one before
it ends. -/
inductive Tiles {α : Type} [Scalar α] : α → List (RungLayout α) → α → Prop
  | nil (y : α) : Tiles y [] y
  | cons {r : RungLayout α} {rest : List (RungLayout α)} {bottom : α}
      (hrest : Tiles r.span.bottom rest bottom) : Tiles r.span.top (r :: rest) bottom

/-- The lines of the rung lie at equal distances around its middle, well away from the rungs
above and below. -/
structure RungLayout.Spaced (s : LayoutSettings Rat) (rung : Rung) (r : RungLayout Rat) :
    Prop where
  count : r.lines.length = rung.branches.length
  height : r.span.height =
    (max 1 rung.branches.length : Nat) * s.branchSpacing + s.rungSpacing
  /-- Lines next to each other are one branch distance apart. -/
  next : ∀ (i : Nat) (l l' : BranchLine Rat), r.lines[i]? = some l → r.lines[i + 1]? = some l' →
    l'.y = l.y + s.branchSpacing
  /-- A line and the one as far from the other end lie opposite each other. -/
  opposite : ∀ (i : Nat) (l l' : BranchLine Rat), r.lines[i]? = some l →
    r.lines.reverse[i]? = some l' → l.y + l'.y = r.span.top + r.span.bottom
  lines : ∀ l ∈ r.lines, r.span.top + (s.branchSpacing + s.rungSpacing) / 2 ≤ l.y ∧
    l.y ≤ r.span.bottom - (s.branchSpacing + s.rungSpacing) / 2
  coil : r.span.top + (s.branchSpacing + s.rungSpacing) / 2 ≤ r.coil.position.y ∧
    r.coil.position.y ≤ r.span.bottom - (s.branchSpacing + s.rungSpacing) / 2

/-- The second line lies below the first, at least at the given distance. -/
def BranchLine.Above (distance : Rat) (l l' : BranchLine Rat) : Prop := l.y + distance ≤ l'.y

/-- A part of the page with upright and level sides. -/
structure Box where
  left : Rat
  right : Rat
  top : Rat
  bottom : Rat

/-- The point is not outside the box. -/
def Box.Holds (b : Box) (p : Point Rat) : Prop :=
  (b.left ≤ p.x ∧ p.x ≤ b.right) ∧ b.top ≤ p.y ∧ p.y ≤ b.bottom

/-- The page without its margins. -/
def Diagram.inner (d : Diagram Rat) (margin : Rat) : Box :=
  ⟨margin, d.width - margin, margin, d.height - margin⟩

/-- Nothing of the rung is drawn outside the box: neither the sides of a symbol nor the ends
of a line. -/
structure RungLayout.LiesIn (b : Box) (symbolWidth : Rat) (r : RungLayout Rat) : Prop where
  glyphs : ∀ g ∈ r.lines.flatMap (·.glyphs) ++ [r.coil],
    b.Holds ⟨g.position.x - symbolWidth / 2, g.position.y⟩ ∧
      b.Holds ⟨g.position.x + symbolWidth / 2, g.position.y⟩
  segments : ∀ w ∈ r.lines.flatMap (·.wires) ++ r.connectors, b.Holds w.start ∧ b.Holds w.stop

/-- The page is tiled by its rungs and has room for them. -/
structure Diagram.Tiled (s : LayoutSettings Rat) (rungs : List Rung) (d : Diagram Rat) :
    Prop where
  /-- The rungs reach from the upper margin to the lower one. -/
  tiles : Tiles s.padding d.rungs (d.height - s.padding)
  height : d.height = 2 * s.padding + (rungs.map fun rung =>
    (max 1 rung.branches.length : Nat) * s.branchSpacing + s.rungSpacing).sum
  spaced : List.Forall₂ (RungLayout.Spaced s) rungs d.rungs
  /-- From the first line of the page to the last, each is a branch distance below those
  before it. -/
  apart : (d.rungs.flatMap (·.lines)).Pairwise (BranchLine.Above s.branchSpacing)
  width : s.viewportWidth ≤ d.width
  inside : ∀ r ∈ d.rungs, r.LiesIn (d.inner s.padding) s.symbolWidth

/-! ## Rungs from top to bottom -/

namespace Layout
namespace Frame

theorem tiles_placeAll {α : Type} [Scalar α] (f : Frame α) (top : α) (rungs : List Rung) :
    Tiles top (f.placeAll top rungs).1 (f.placeAll top rungs).2 := by
  induction rungs generalizing top with
  | nil => exact .nil top
  | cons rung rest ih => exact .cons (r := f.place rung top) (ih _)

theorem exists_place_of_mem {α : Type} [Scalar α] {f : Frame α} {top : α} {rungs : List Rung}
    {r : RungLayout α} (hr : r ∈ (f.placeAll top rungs).1) :
    ∃ rung ∈ rungs, ∃ y, r = f.place rung y := by
  induction rungs generalizing top with
  | nil => exact absurd hr List.not_mem_nil
  | cons rung rest ih =>
    rcases List.mem_cons.1 hr with hr | hr
    · exact ⟨rung, List.mem_cons_self, top, hr⟩
    · obtain ⟨rung', hrung', y, hy⟩ := ih hr
      exact ⟨rung', List.mem_cons_of_mem _ hrung', y, hy⟩

theorem rungHeight_eq (f : Frame Rat) (branches : Nat) :
    f.rungHeight branches =
      (max 1 branches : Nat) * f.settings.branchSpacing + f.settings.rungSpacing := by
  rw [Nat.max_comm]
  rfl

/-- The height that rungs end at is the sum of their heights. -/
theorem placeAll_snd (f : Frame Rat) (top : Rat) (rungs : List Rung) :
    (f.placeAll top rungs).2 = top + (rungs.map fun rung =>
      (max 1 rung.branches.length : Nat) * f.settings.branchSpacing +
        f.settings.rungSpacing).sum := by
  induction rungs generalizing top with
  | nil => exact (add_zero top).symm
  | cons rung rest ih =>
    have hstep : (f.placeAll top (rung :: rest)).2 =
        (f.placeAll (top + f.rungHeight rung.branches.length) rest).2 := rfl
    rw [hstep, ih, rungHeight_eq, List.map_cons, List.sum_cons, add_assoc]

end Frame
end Layout

namespace Tiles

variable {top bottom : Rat} {rungs : List (RungLayout Rat)}

theorem top_le (h : Tiles top rungs bottom) (hheight : ∀ r ∈ rungs, 0 ≤ r.span.height) :
    top ≤ bottom := by
  induction h with
  | nil y => exact le_refl y
  | @cons r rest bottom hrest ih =>
    obtain ⟨hr, hbelow⟩ := List.forall_mem_cons.1 hheight
    have hdown : r.span.top ≤ r.span.bottom := le_add_of_nonneg_right hr
    exact hdown.trans (ih hbelow)

/-- Every rung lies between the heights that are tiled. -/
theorem between (h : Tiles top rungs bottom) (hheight : ∀ r ∈ rungs, 0 ≤ r.span.height) :
    ∀ r ∈ rungs, top ≤ r.span.top ∧ r.span.bottom ≤ bottom := by
  induction h with
  | nil y => exact fun r hr => absurd hr List.not_mem_nil
  | @cons r rest bottom hrest ih =>
    obtain ⟨hr, hbelow⟩ := List.forall_mem_cons.1 hheight
    have hdown : r.span.top ≤ r.span.bottom := le_add_of_nonneg_right hr
    refine List.forall_mem_cons.2 ⟨⟨le_refl _, hrest.top_le hbelow⟩, ?_⟩
    intro r' hr'
    obtain ⟨htop, hbottom⟩ := ih hbelow r' hr'
    exact ⟨hdown.trans htop, hbottom⟩

/-- Rungs do not overlap. -/
theorem pairwise (h : Tiles top rungs bottom) (hheight : ∀ r ∈ rungs, 0 ≤ r.span.height) :
    rungs.Pairwise fun r r' => r.span.bottom ≤ r'.span.top := by
  induction h with
  | nil y => exact .nil
  | @cons r rest bottom hrest ih =>
    obtain ⟨-, hbelow⟩ := List.forall_mem_cons.1 hheight
    refine .cons ?_ (ih hbelow)
    intro r' hr'
    exact (hrest.between hbelow r' hr').1

end Tiles

/-! ## Levels within a rung -/

namespace Layout
namespace Frame

section Levels

variable {f : Frame Rat} {rung : Rung} {top : Rat} {i : Nat} {l : BranchLine Rat}

/-- The level of a line, counted from the upper edge of its rung and from the lower one. -/
theorem level_of_line (hl : (f.place rung top).lines[i]? = some l) :
    l.y = top + (f.settings.branchSpacing + f.settings.rungSpacing) / 2 +
        i * f.settings.branchSpacing ∧
      (f.place rung top).span.bottom =
        l.y + (f.settings.branchSpacing + f.settings.rungSpacing) / 2 +
          (rung.branches.length - 1 - i : Nat) * f.settings.branchSpacing := by
  obtain ⟨hi, hy⟩ := place_line_y hl
  have hcount : max 1 rung.branches.length = rung.branches.length := Nat.max_eq_right (by omega)
  have hmiddle : (f.place rung top).coil.position.y =
      top + f.rungHeight rung.branches.length / 2 := rfl
  have hbottom : (f.place rung top).span.bottom = top + f.rungHeight rung.branches.length := rfl
  have hrest : ((rung.branches.length - 1 - i : Nat) : Rat) = rung.branches.length - 1 - i := by
    rw [Nat.cast_sub (by omega), Nat.cast_sub (by omega), Nat.cast_one]
  have hlevel : l.y = top + (f.settings.branchSpacing + f.settings.rungSpacing) / 2 +
      i * f.settings.branchSpacing := by
    rw [hy, hmiddle, branchY_eq f _ hi, rungHeight_eq, hcount]
    ring
  refine ⟨hlevel, ?_⟩
  rw [hbottom, hlevel, hrest, rungHeight_eq, hcount]
  ring

theorem spaced_place (hs : f.settings.Valid) (rung : Rung) (top : Rat) :
    (f.place rung top).Spaced f.settings rung where
  count := length_place_lines f rung top
  height := f.rungHeight_eq rung.branches.length
  next i l l' hl hl' := by
    rw [(level_of_line hl).1, (level_of_line hl').1]
    push_cast
    ring
  opposite i l l' hl hl' := by
    have hi := (place_line_y hl).1
    rw [List.getElem?_reverse (by rwa [length_place_lines]), length_place_lines] at hl'
    have htop : (f.place rung top).span.top = top := rfl
    -- one level is counted from above, the other as many lines from below
    rw [htop, (level_of_line hl).2, (level_of_line hl').1, (level_of_line hl).1]
    ring
  lines l hl := by
    obtain ⟨i, hi⟩ := List.mem_iff_getElem?.1 hl
    obtain ⟨hlevel, hbottom⟩ := level_of_line hi
    have htop : (f.place rung top).span.top = top := rfl
    have habove : 0 ≤ (i : Rat) * f.settings.branchSpacing :=
      mul_nonneg (Nat.cast_nonneg i) hs.branchSpacing.le
    have hbelow : 0 ≤ ((rung.branches.length - 1 - i : Nat) : Rat) * f.settings.branchSpacing :=
      mul_nonneg (Nat.cast_nonneg _) hs.branchSpacing.le
    rw [htop]
    constructor
    · linarith
    · linarith
  coil := by
    have hmiddle : (f.place rung top).coil.position.y =
        top + f.rungHeight rung.branches.length / 2 := rfl
    have hbottom : (f.place rung top).span.bottom = top + f.rungHeight rung.branches.length := rfl
    have htop : (f.place rung top).span.top = top := rfl
    -- a rung is at least as high as one line needs
    have hone : ((1 : Nat) : Rat) ≤ (max 1 rung.branches.length : Nat) := by
      exact_mod_cast Nat.le_max_left 1 _
    have hheight := mul_le_mul_of_nonneg_right hone hs.branchSpacing.le
    rw [hmiddle, hbottom, htop, rungHeight_eq]
    push_cast at hheight ⊢
    constructor
    · linarith
    · linarith

end Levels

end Frame
end Layout

namespace RungLayout.Spaced

variable {s : LayoutSettings Rat} {rung : Rung} {r r' : RungLayout Rat}

theorem height_nonneg (hs : s.Valid) (h : r.Spaced s rung) : 0 ≤ r.span.height := by
  rw [h.height]
  exact add_nonneg (mul_nonneg (Nat.cast_nonneg _) hs.branchSpacing.le) hs.rungSpacing

/-- Within a rung, later lines are at least a branch distance below earlier ones. -/
theorem pairwise (hs : s.Valid) (h : r.Spaced s rung) :
    r.lines.Pairwise (BranchLine.Above s.branchSpacing) := by
  have hpos := hs.branchSpacing
  have : IsTrans (BranchLine Rat) (BranchLine.Above s.branchSpacing) := by
    refine ⟨fun l l' l'' h₁ h₂ => ?_⟩
    simp only [BranchLine.Above] at h₁ h₂ ⊢
    linarith
  rw [← List.isChain_iff_pairwise, List.isChain_iff_getElem]
  intro i hi
  have hl := List.getElem?_eq_getElem (Nat.lt_of_succ_lt hi)
  exact (h.next i _ _ hl (List.getElem?_eq_getElem hi)).ge

/-- The lines of a rung are at least a branch distance above those of a later one. -/
theorem above {rung' : Rung} (hs : s.Valid) (h : r.Spaced s rung) (h' : r'.Spaced s rung')
    (hbelow : r.span.bottom ≤ r'.span.top) :
    ∀ l ∈ r.lines, ∀ l' ∈ r'.lines, l.Above s.branchSpacing l' := by
  intro l hl l' hl'
  have hrung := hs.rungSpacing
  have hupper := (h.lines l hl).2
  have hlower := (h'.lines l' hl').1
  -- half the distances of both rungs lie between the lines
  rw [BranchLine.Above]
  linarith

end RungLayout.Spaced

/-! ## Places along a rung -/

theorem Box.Holds.mono {b b' : Box} {p : Point Rat} (h : b.Holds p) (hleft : b'.left = b.left)
    (hright : b'.right = b.right) (htop : b'.top ≤ b.top) (hbottom : b.bottom ≤ b'.bottom) :
    b'.Holds p := by
  obtain ⟨⟨hl, hr⟩, ht, hb⟩ := h
  rw [← hleft] at hl
  rw [← hright] at hr
  exact ⟨⟨hl, hr⟩, htop.trans ht, hb.trans hbottom⟩

namespace Layout
namespace Frame

section Ends

variable {α : Type} [Scalar α] {f : Frame α} {y middle : α}

/-- Wires start and end at the rail, at symbols and where branches come together. -/
theorem wires_ends {P : α → Prop} {x : α} {gs : List (Glyph α)} (hx : P x) (hmerge : P f.mergeX)
    (hgs : ∀ g ∈ gs, P (g.position.x - f.halfSymbol) ∧ P (g.position.x + f.halfSymbol)) :
    ∀ w ∈ f.wires y x gs, P w.start.x ∧ P w.stop.x := by
  induction gs generalizing x with
  | nil =>
    intro w hw
    cases List.mem_singleton.1 hw
    exact ⟨hx, hmerge⟩
  | cons g gs ih =>
    obtain ⟨hg, hrest⟩ := List.forall_mem_cons.1 hgs
    rw [wires]
    exact List.forall_mem_cons.2 ⟨⟨hx, hg.1⟩, ih hg.2 hrest⟩

/-- Connectors start and end at junctions on the level of a line, and around the coil on the
level of the middle. -/
theorem connectors_ends {P : Point α → Prop} {lines : List (BranchLine α)} {coil : Glyph α}
    (hjunctions : ∀ l ∈ lines, P ⟨f.splitX, l.y⟩ ∧ P ⟨f.mergeX, l.y⟩)
    (hmerge : P ⟨f.mergeX, middle⟩) (hright : P ⟨f.right, middle⟩)
    (hcoil : P ⟨coil.position.x - f.halfSymbol, middle⟩ ∧
      P ⟨coil.position.x + f.halfSymbol, middle⟩) :
    ∀ c ∈ f.connectors lines coil middle, P c.start ∧ P c.stop := by
  -- to the coil and on to the rail
  have hfeed : ∀ c ∈ [Segment.wire f.mergeX (coil.position.x - f.halfSymbol) middle,
      .wire (coil.position.x + f.halfSymbol) f.right middle], P c.start ∧ P c.stop := by
    intro c hc
    rcases List.mem_pair.1 hc with rfl | rfl
    · exact ⟨hmerge, hcoil.1⟩
    · exact ⟨hcoil.2, hright⟩
  match lines with
  | [] =>
    rw [connectors_of_none]
    exact fun c hc => hfeed c (List.mem_cons_of_mem _ hc)
  | [l] =>
    rw [connectors_of_single]
    exact hfeed
  | one :: two :: rest =>
    have hlast := List.getLast?_eq_some_getLast (List.cons_ne_nil one (two :: rest))
    have hone := hjunctions one List.mem_cons_self
    have hend := hjunctions _ (List.mem_of_getLast? hlast)
    rw [f.connectors_of_parallel coil middle (by simp) rfl hlast]
    exact List.forall_mem_cons.2 ⟨⟨hone.1, hend.1⟩,
      List.forall_mem_cons.2 ⟨⟨hone.2, hend.2⟩, hfeed⟩⟩

end Ends

section Inside

variable {f : Frame Rat} {rung : Rung}

/-- The place is between the rails. -/
def BetweenRails (f : Frame Rat) (x : Rat) : Prop := f.left ≤ x ∧ x ≤ f.right

theorem halfSymbol_nonneg (hs : f.settings.Valid) : 0 ≤ f.halfSymbol := by
  rw [halfSymbol_eq]
  exact div_nonneg hs.symbolWidth.le (by norm_num)

/-- Both sides of a symbol are between the rails when none is beyond one. -/
theorem betweenRails_sides (hs : f.settings.Valid) {x : Rat} (hleft : f.left ≤ x - f.halfSymbol)
    (hright : x + f.halfSymbol ≤ f.right) :
    f.BetweenRails (x - f.halfSymbol) ∧ f.BetweenRails (x + f.halfSymbol) := by
  have hhalf := halfSymbol_nonneg hs
  exact ⟨⟨hleft, by linarith⟩, ⟨by linarith, hright⟩⟩

theorem mergeX_le_right (hs : f.settings.Valid) : f.mergeX ≤ f.right := by
  rw [mergeX_eq]
  exact sub_le_self _ hs.elementWidth.le

theorem betweenRails_junctions (hs : f.settings.Valid) {slots : Nat} (hroom : f.Room slots) :
    f.BetweenRails f.splitX ∧ f.BetweenRails f.mergeX := by
  have hsplit := left_le_splitX hs
  have hparts := splitX_le_mergeX hs hroom
  have hmerge := mergeX_le_right hs
  exact ⟨⟨hsplit, hparts.trans hmerge⟩, ⟨hsplit.trans hparts, hmerge⟩⟩

theorem betweenRails_contact (hs : f.settings.Valid) {branch : Branch}
    (hroom : f.Room branch.length) {i : Nat} (hi : i < branch.length) :
    f.BetweenRails (f.contactX i - f.halfSymbol) ∧ f.BetweenRails (f.contactX i + f.halfSymbol) :=
  betweenRails_sides hs ((left_le_splitX hs).trans (splitX_le_contactX hs i))
    ((contactX_le_mergeX hs hroom hi).trans (mergeX_le_right hs))

theorem betweenRails_coil (hs : f.settings.Valid) {slots : Nat} (hroom : f.Room slots) :
    f.BetweenRails (f.coilX - f.halfSymbol) ∧ f.BetweenRails (f.coilX + f.halfSymbol) := by
  obtain ⟨hbefore, hbehind⟩ := coilX_between hs
  exact betweenRails_sides hs ((betweenRails_junctions hs hroom).2.1.trans hbefore) hbehind

/-- Everything drawn for a rung is between the rails and within the height of the rung. -/
theorem liesIn_place (hs : f.settings.Valid) (hpage : f.Room 0) (top : Rat)
    (hroom : ∀ branch ∈ rung.branches, f.Room branch.length) :
    (f.place rung top).LiesIn ⟨f.left, f.right, top, (f.place rung top).span.bottom⟩
      f.settings.symbolWidth := by
  have hspaced := spaced_place hs rung top
  have hgap : 0 ≤ (f.settings.branchSpacing + f.settings.rungSpacing) / 2 :=
    div_nonneg (add_nonneg hs.branchSpacing.le hs.rungSpacing) (by norm_num)
  have hlevel : ∀ l ∈ (f.place rung top).lines,
      top ≤ l.y ∧ l.y ≤ (f.place rung top).span.bottom := by
    intro l hl
    have hline := hspaced.lines l hl
    exact ⟨(le_add_of_nonneg_right hgap).trans hline.1, hline.2.trans (sub_le_self _ hgap)⟩
  have hmiddle : top ≤ (f.place rung top).coil.position.y ∧
      (f.place rung top).coil.position.y ≤ (f.place rung top).span.bottom :=
    ⟨(le_add_of_nonneg_right hgap).trans hspaced.coil.1,
      hspaced.coil.2.trans (sub_le_self _ hgap)⟩
  -- the symbols of a line, by their places on the branch
  have hglyphs : ∀ l ∈ (f.place rung top).lines, ∀ g ∈ l.glyphs,
      (f.BetweenRails (g.position.x - f.halfSymbol) ∧
        f.BetweenRails (g.position.x + f.halfSymbol)) ∧ g.position.y = l.y := by
    intro l hl g hg
    obtain ⟨branch, hbranch, y, rfl⟩ := exists_branch_of_mem hl
    obtain ⟨i, hi⟩ := List.mem_iff_getElem?.1 hg
    obtain ⟨hlt, hx, hy⟩ := f.glyphs_getElem? y hi
    rw [hx]
    exact ⟨betweenRails_contact hs (hroom branch hbranch) hlt, hy⟩
  obtain ⟨hsplit, hmerge⟩ := betweenRails_junctions hs hpage
  have hcoil := betweenRails_coil hs hpage
  constructor
  · intro g hg
    rw [← halfSymbol_eq]
    rcases List.mem_append.1 hg with hg | hg
    · obtain ⟨l, hl, hg⟩ := List.mem_flatMap.1 hg
      obtain ⟨⟨hbefore, hbehind⟩, hy⟩ := hglyphs l hl g hg
      rw [hy]
      exact ⟨⟨hbefore, hlevel l hl⟩, ⟨hbehind, hlevel l hl⟩⟩
    · cases List.mem_singleton.1 hg
      exact ⟨⟨hcoil.1, hmiddle⟩, ⟨hcoil.2, hmiddle⟩⟩
  · intro w hw
    rcases List.mem_append.1 hw with hw | hw
    · obtain ⟨l, hl, hw⟩ := List.mem_flatMap.1 hw
      have hsides := fun g hg => (hglyphs l hl g hg).1
      have hy := hlevel l hl
      obtain ⟨branch, hbranch, y, rfl⟩ := exists_branch_of_mem hl
      obtain ⟨-, hstart, hstop⟩ := f.wires_level y w hw
      have hleft : f.BetweenRails f.left := ⟨le_refl _, hsplit.1.trans hsplit.2⟩
      have hends := wires_ends hleft hmerge hsides w hw
      refine ⟨⟨hends.1, ?_⟩, ⟨hends.2, ?_⟩⟩
      · rw [hstart]
        exact hy
      · rw [hstop]
        exact hy
    · have hright : f.BetweenRails f.right := ⟨hsplit.1.trans hsplit.2, le_refl _⟩
      exact connectors_ends (fun l hl => ⟨⟨hsplit, hlevel l hl⟩, ⟨hmerge, hlevel l hl⟩⟩)
        ⟨hmerge, hmiddle⟩ ⟨hright, hmiddle⟩ ⟨⟨hcoil.1, hmiddle⟩, ⟨hcoil.2, hmiddle⟩⟩ w hw

end Inside

end Frame
end Layout

theorem RungLayout.LiesIn.mono {b b' : Box} {width : Rat} {r : RungLayout Rat}
    (h : r.LiesIn b width) (hholds : ∀ p, b.Holds p → b'.Holds p) : r.LiesIn b' width where
  glyphs g hg := ⟨hholds _ (h.glyphs g hg).1, hholds _ (h.glyphs g hg).2⟩
  segments w hw := ⟨hholds _ (h.segments w hw).1, hholds _ (h.segments w hw).2⟩

/-! ## The page -/

namespace Diagram

variable {s : LayoutSettings Rat} {rungs : List Rung}

theorem tiles_ofRungs (s : LayoutSettings Rat) (rungs : List Rung) :
    Tiles s.padding (ofRungs s rungs).rungs ((ofRungs s rungs).height - s.padding) := by
  have hbottom : (ofRungs s rungs).height - s.padding =
      ((Layout.pageFrame s rungs).placeAll s.padding rungs).2 := add_sub_cancel_right _ _
  rw [hbottom]
  exact (Layout.pageFrame s rungs).tiles_placeAll s.padding rungs

theorem height_ofRungs_eq_sum (s : LayoutSettings Rat) (rungs : List Rung) :
    (ofRungs s rungs).height = 2 * s.padding + (rungs.map fun rung =>
      (max 1 rung.branches.length : Nat) * s.branchSpacing + s.rungSpacing).sum := by
  have hsettings : (Layout.pageFrame s rungs).settings = s := rfl
  rw [Layout.ofRungs_height, Layout.Frame.placeAll_snd, hsettings]
  ring

theorem exists_place_of_mem_rungs {α : Type} [Scalar α] {s : LayoutSettings α} {r : RungLayout α}
    (hr : r ∈ (ofRungs s rungs).rungs) :
    ∃ rung ∈ rungs, ∃ top, r = (Layout.pageFrame s rungs).place rung top :=
  Layout.Frame.exists_place_of_mem hr

theorem spaced_of_mem_rungs (hs : s.Valid) {r : RungLayout Rat}
    (hr : r ∈ (ofRungs s rungs).rungs) : ∃ rung, r.Spaced s rung := by
  obtain ⟨rung, -, top, rfl⟩ := exists_place_of_mem_rungs hr
  exact ⟨rung, Layout.Frame.spaced_place (f := Layout.pageFrame s rungs) hs rung top⟩

theorem height_nonneg_of_mem_rungs (hs : s.Valid) :
    ∀ r ∈ (ofRungs s rungs).rungs, 0 ≤ r.span.height := by
  intro r hr
  obtain ⟨rung, hrung⟩ := spaced_of_mem_rungs hs hr
  exact hrung.height_nonneg hs

/-- Any two lines of a page are a branch distance apart, in one rung or in two. -/
theorem lines_apart (hs : s.Valid) (rungs : List Rung) :
    ((ofRungs s rungs).rungs.flatMap (·.lines)).Pairwise (BranchLine.Above s.branchSpacing) := by
  have hordered := (tiles_ofRungs s rungs).pairwise (height_nonneg_of_mem_rungs hs)
  rw [List.pairwise_flatMap]
  constructor
  · intro r hr
    obtain ⟨rung, hrung⟩ := spaced_of_mem_rungs hs hr
    exact hrung.pairwise hs
  · refine hordered.imp_of_mem ?_
    intro r r' hr hr' hbelow
    obtain ⟨rung, hrung⟩ := spaced_of_mem_rungs hs hr
    obtain ⟨rung', hrung'⟩ := spaced_of_mem_rungs hs hr'
    exact hrung.above hs hrung' hbelow

theorem liesIn_inner (hs : s.Valid) :
    ∀ r ∈ (ofRungs s rungs).rungs,
      r.LiesIn ((ofRungs s rungs).inner s.padding) s.symbolWidth := by
  intro r hr
  obtain ⟨htop, hbottom⟩ :=
    (tiles_ofRungs s rungs).between (height_nonneg_of_mem_rungs hs) r hr
  obtain ⟨rung, hrung, y, rfl⟩ := exists_place_of_mem_rungs hr
  have hroom : ∀ branch ∈ rung.branches, (Layout.pageFrame s rungs).Room branch.length :=
    fun branch hbranch => Layout.room_of_le hs (Layout.length_le_longestBranch hrung hbranch)
  have hlies := Layout.Frame.liesIn_place (f := Layout.pageFrame s rungs) hs
    (Layout.room_of_le hs (Nat.zero_le _)) y hroom
  exact hlies.mono fun p hp => hp.mono rfl rfl htop hbottom

/-- **Rungs tile the page.**  On a page laid out with checked sizes, rungs follow each other
between the margins without gap or overlap; branches lie at equal distances around the middle
of their rung, and no two lines of the page are closer than a branch distance; and nothing is
drawn outside the margins. -/
theorem ofRungs_tiled (s : LayoutSettings Rat) (rungs : List Rung) (h : s.check = .ok ()) :
    (ofRungs s rungs).Tiled s rungs := by
  have hs := LayoutSettings.valid_of_check h
  refine ⟨tiles_ofRungs s rungs, height_ofRungs_eq_sum s rungs, ?_, lines_apart hs rungs,
    Layout.viewportWidth_le_pageWidth s rungs, liesIn_inner hs⟩
  rw [Layout.ofRungs_rungs]
  refine ((Layout.pageFrame s rungs).placeAll_forall₂ s.padding rungs).imp ?_
  rintro rung _ ⟨top, rfl⟩
  exact Layout.Frame.spaced_place (f := Layout.pageFrame s rungs) hs rung top

/-- Two branches in the first rung and none in the second, with symbols as wide as their room
and no margin: the first rung is twice as high as the second. -/
theorem ofRungs_tiled_tight :
    tightSizes.check = .ok () ∧ (ofRungs tightSizes motorAndIdle).height = 3 ∧
      (ofRungs tightSizes motorAndIdle).Tiled tightSizes motorAndIdle := by
  have hcheck : tightSizes.check = .ok () := by decide +kernel
  have hheight : (ofRungs tightSizes motorAndIdle).height = 3 := by decide +kernel
  exact ⟨hcheck, hheight, ofRungs_tiled tightSizes motorAndIdle hcheck⟩

end Diagram

end LadderLogic
