/-
Places in a source: bytes, rows and columns.

An offset stands between two characters of a text when it is the byte length of what comes
before it (`Text.IsBoundary`); in a string these are the valid positions
(`isBoundary_iff_isValid`).  `Position.behind` counts row and column of such a place from the
text before it: the line feeds, and the characters since the last of them.  Two computations
are compared with that count:

  * the scan of a reader, which moves a position over one character after another
    (`ofOffset_append`);
  * the search of `Span.atPosition` among the lines of the text.  The text before a place is
    made of closed lines and of the beginning of one more (`exists_closed`); the closed
    ones are the rows before it (`lines_append`), and the next row begins with what is left
    (`lines_unbroken`).

The search goes back from the count to the place, whatever the lines look like
(`atPosition_behind`), and never leaves the text for a position that is in none of them
(`exists_covered`).
-/

import LadderLogic.Text.Span
import Mathlib.Data.List.DropRight

namespace LadderLogic

namespace Text

/-! ## Boundaries of characters -/

/-- The offset stands between two characters of the text, or at one of its ends. -/
def IsBoundary (text : List Char) (offset : Nat) : Prop :=
  ∃ before after, text = before ++ after ∧ offset = byteLength before

theorem isBoundary_append (before after : List Char) :
    IsBoundary (before ++ after) (byteLength before) := ⟨before, after, rfl, rfl⟩

theorem isBoundary_length (text : List Char) : IsBoundary text (byteLength text) :=
  ⟨text, [], (List.append_nil text).symm, rfl⟩

theorem IsBoundary.le {text : List Char} {offset : Nat} (h : IsBoundary text offset) :
    offset ≤ byteLength text := by
  obtain ⟨before, after, rfl, rfl⟩ := h
  rw [byteLength_append]
  omega

/-- The bytes of a string are those of its characters. -/
theorem utf8ByteSize_ofList (text : List Char) :
    (String.ofList text).utf8ByteSize = byteLength text := by
  induction text with
  | nil => rfl
  | cons c text ih =>
    have hone : (String.ofList [c]).utf8ByteSize = c.utf8Size := by
      rw [← String.singleton_eq_ofList, String.utf8ByteSize_singleton]
    rw [← List.singleton_append, String.ofList_append, String.utf8ByteSize_append, hone, ih,
      List.singleton_append, byteLength_cons]

theorem byteLength_toList (source : String) :
    byteLength source.toList = source.utf8ByteSize := by
  rw [← utf8ByteSize_ofList, String.ofList_toList]

/-- In a string, the offsets between characters are the valid positions. -/
theorem isBoundary_iff_isValid {source : String} {offset : Nat} :
    IsBoundary source.toList offset ↔ String.Pos.Raw.IsValid source ⟨offset⟩ := by
  rw [String.Pos.Raw.isValid_iff_exists_append]
  constructor
  · rintro ⟨before, after, htext, rfl⟩
    refine ⟨String.ofList before, String.ofList after, ?_, ?_⟩
    · rw [← String.ofList_append, ← htext, String.ofList_toList]
    · rw [String.rawEndPos, utf8ByteSize_ofList]
  · rintro ⟨before, after, rfl, hoffset⟩
    refine ⟨before.toList, after.toList, String.toList_append, ?_⟩
    rw [byteLength_toList]
    exact congrArg String.Pos.Raw.byteIdx hoffset

/-! ## Lines -/

theorem lines_newline (text : List Char) : lines ('\n' :: text) = ['\n'] :: lines text := rfl

/-- A character that ends no line stands in front of the first one. -/
theorem lines_cons_of_ne {c : Char} (hc : c ≠ '\n') (text : List Char) :
    lines (c :: text) = (c :: (lines text).headD []) :: (lines text).tail := by
  rw [lines, if_neg hc]
  cases lines text with
  | nil => rfl
  | cons line rest => rfl

/-- Lines leave nothing out. -/
theorem flatten_lines (text : List Char) : (lines text).flatten = text := by
  induction text with
  | nil => rfl
  | cons c text ih =>
    by_cases hc : c = '\n'
    · rw [hc, lines_newline, List.flatten_cons, ih]
      rfl
    · rw [lines_cons_of_ne hc, List.flatten_cons, List.cons_append]
      cases hlines : lines text with
      | nil =>
        rw [hlines] at ih
        rw [← ih]
        rfl
      | cons line rest =>
        rw [hlines, List.flatten_cons] at ih
        rw [← ih]
        rfl

theorem lines_eq_nil_iff {text : List Char} : lines text = [] ↔ text = [] := by
  constructor
  · intro h
    rw [← flatten_lines text, h, List.flatten_nil]
  · rintro rfl
    rfl

theorem exists_lines_cons (c : Char) (text : List Char) :
    ∃ line rest, lines (c :: text) = line :: rest := by
  apply List.exists_cons_of_ne_nil
  intro h
  exact List.cons_ne_nil c text (lines_eq_nil_iff.1 h)

/-- The first line begins as the text does. -/
theorem head?_headD_lines (text : List Char) : ((lines text).headD []).head? = text.head? := by
  cases text with
  | nil => rfl
  | cons c text =>
    by_cases hc : c = '\n'
    · rw [hc, lines_newline]
      rfl
    · rw [lines_cons_of_ne hc]
      rfl

/-- Characters without a line feed among them stand in front of the first line. -/
theorem lines_unbroken {line : List Char} (hline : '\n' ∉ line) (hne : line ≠ [])
    (text : List Char) :
    lines (line ++ text) = (line ++ (lines text).headD []) :: (lines text).tail := by
  induction line with
  | nil => exact absurd rfl hne
  | cons c line ih =>
    obtain ⟨hc, hline⟩ := List.ne_and_not_mem_of_not_mem_cons hline
    rw [List.cons_append, lines_cons_of_ne (Ne.symm hc)]
    cases line with
    | nil => rfl
    | cons d line =>
      rw [ih hline (List.cons_ne_nil d line)]
      rfl

/-- The text is made of whole lines: it is empty, or its last line is ended. -/
def Closed (text : List Char) : Prop := ∀ c ∈ text.getLast?, c = '\n'

theorem Closed.tail {c d : Char} {text : List Char} (h : Closed (c :: d :: text)) :
    Closed (d :: text) := by
  intro x hx
  exact h x (by rwa [List.getLast?_cons_cons])

/-- Whole lines stay as they are, whatever comes after them. -/
theorem lines_append {text : List Char} (h : Closed text) (rest : List Char) :
    lines (text ++ rest) = lines text ++ lines rest := by
  induction text with
  | nil => rfl
  | cons c text ih =>
    cases text with
    | nil =>
      rw [h c rfl]
      rfl
    | cons d text =>
      have htail := ih h.tail
      by_cases hc : c = '\n'
      · rw [hc, List.cons_append, lines_newline, htail, lines_newline]
        rfl
      · -- the character joins the first of the lines behind it
        obtain ⟨line, others, hlines⟩ := exists_lines_cons d text
        rw [List.cons_append, lines_cons_of_ne hc, htail, lines_cons_of_ne hc, hlines]
        rfl

/-- Whole lines are as many as their line feeds. -/
theorem length_lines {text : List Char} (h : Closed text) :
    (lines text).length = text.count '\n' := by
  induction text with
  | nil => rfl
  | cons c text ih =>
    cases text with
    | nil =>
      rw [h c rfl]
      rfl
    | cons d text =>
      have htail := ih h.tail
      by_cases hc : c = '\n'
      · rw [hc, lines_newline, List.length_cons, htail, List.count_cons_self]
      · obtain ⟨line, others, hlines⟩ := exists_lines_cons d text
        rw [lines_cons_of_ne hc, List.count_cons_of_ne hc, ← htail, hlines]
        rfl

/-- Any text is made of whole lines and of the beginning of one more. -/
theorem exists_closed (text : List Char) :
    ∃ closed, text = closed ++ text.rtakeWhile (· != '\n') ∧ Closed closed ∧
      '\n' ∉ text.rtakeWhile (· != '\n') ∧ closed.count '\n' = text.count '\n' := by
  have hsplit : text = text.rdropWhile (· != '\n') ++ text.rtakeWhile (· != '\n') :=
    (List.rdropWhile_append_rtakeWhile).symm
  have hunbroken : '\n' ∉ text.rtakeWhile (· != '\n') := by
    intro hmem
    exact absurd (List.mem_rtakeWhile_imp hmem) (by decide)
  refine ⟨text.rdropWhile (· != '\n'), hsplit, ?_, hunbroken, ?_⟩
  · intro c hc
    have hne : text.rdropWhile (· != '\n') ≠ [] := by
      intro hnil
      rw [hnil] at hc
      cases hc
    have hlast := List.rdropWhile_last_not (· != '\n') text hne
    rw [List.getLast?_eq_some_getLast hne] at hc
    cases hc
    simpa using hlast
  · conv_rhs => rw [hsplit]
    rw [List.count_append, List.count_eq_zero_of_not_mem hunbroken, Nat.add_zero]

/-! ## Rows and columns -/

theorem before_append (before after : List Char) :
    Text.before (before ++ after) (byteLength before) = before := by
  induction before with
  | nil =>
    cases after with
    | nil => rfl
    | cons c after => rw [List.nil_append, byteLength_nil, Text.before, if_pos rfl]
  | cons c before ih =>
    have hpos := c.utf8Size_pos
    rw [List.cons_append, byteLength_cons, Text.before, if_neg (by omega), Nat.add_sub_cancel_left,
      ih]

end Text

namespace Position

open Text

/-- The place behind a text: its row is counted by line feeds, its column by the characters
since the last of them, both from one. -/
def behind (before : List Char) : Position :=
  ⟨1 + before.count '\n', 1 + (before.rtakeWhile (· != '\n')).length⟩

theorem behind_concat (before : List Char) (c : Char) :
    behind (before ++ [c]) = (behind before).advance c := by
  rw [behind, advance, List.count_append, List.count_singleton]
  by_cases hc : c = '\n'
  · rw [if_pos hc, hc, List.rtakeWhile_concat_neg (· != '\n') _ _ (by decide)]
    rfl
  · have hkept : (c != '\n') = true := by simpa using hc
    rw [if_neg hc, List.rtakeWhile_concat_pos (· != '\n') _ _ hkept, List.length_append]
    simp [behind, hc, Nat.add_assoc]

/-- The scan of a reader counts line feeds and characters. -/
theorem ofOffset_append (before after : List Char) :
    ofOffset (before ++ after) (byteLength before) = behind before := by
  rw [ofOffset, before_append]
  induction before using List.reverseRecOn with
  | nil => rfl
  | append_singleton before c ih =>
    rw [List.foldl_append, ih, behind_concat]
    rfl

end Position

namespace Span

open Text

/-! ## The character at a position -/

/-- The span covers some characters of the text. -/
def Covers (text : List Char) (s : Span) (covered : List Char) : Prop :=
  ∃ before after, text = before ++ covered ++ after ∧ s.start = byteLength before ∧
    s.stop = byteLength (before ++ covered)

theorem Covers.isBoundary {text covered : List Char} {s : Span} (h : s.Covers text covered) :
    IsBoundary text s.start ∧ IsBoundary text s.stop := by
  obtain ⟨before, after, rfl, hstart, hstop⟩ := h
  rw [hstart, hstop]
  refine ⟨⟨before, covered ++ after, ?_, rfl⟩, isBoundary_append (before ++ covered) after⟩
  rw [List.append_assoc]

theorem byteLength_take_one (text : List Char) :
    byteLength (text.take 1) = (text.head?.map Char.utf8Size).getD 0 := by
  cases text with
  | nil => rfl
  | cons c text => rfl

/-- A position in a row covers the character there, if the row has one. -/
theorem covers_of_row {text row : List Char} {p : Position} (hp : p.row ≠ 0)
    (hrow : (lines text)[p.row - 1]? = some row) :
    ∃ before after, text = before ++ row.drop (p.column - 1) ++ after ∧
      before = ((lines text).take (p.row - 1)).flatten ++ row.take (p.column - 1) ∧
      (atPosition text p).start = byteLength before ∧
      (atPosition text p).stop =
        byteLength (before ++ (row.drop (p.column - 1)).take 1) := by
  have hspan : atPosition text p =
      between (byteLength ((lines text).take (p.row - 1)).flatten +
          byteLength (row.take (p.column - 1)))
        (byteLength ((lines text).take (p.row - 1)).flatten +
          byteLength (row.take (p.column - 1)) +
          (row[p.column - 1]?.map Char.utf8Size).getD 0) := by
    rw [atPosition, if_neg hp, hrow]
  -- the rows before, the row itself and the rows behind it
  have hrows : lines text =
      (lines text).take (p.row - 1) ++ row :: (lines text).drop (p.row - 1 + 1) := by
    obtain ⟨hlt, hget⟩ := List.getElem?_eq_some_iff.1 hrow
    rw [← hget, List.getElem_cons_drop, List.take_append_drop]
  refine ⟨_, ((lines text).drop (p.row - 1 + 1)).flatten, ?_, rfl, ?_, ?_⟩
  · conv_lhs => rw [← flatten_lines text, hrows, List.flatten_append, List.flatten_cons]
    rw [List.append_assoc, List.append_assoc, ← List.append_assoc (row.take _),
      List.take_append_drop]
  · rw [hspan, byteLength_append]
    rfl
  · rw [hspan, byteLength_append, byteLength_take_one, byteLength_append, List.head?_eq_getElem?,
      List.getElem?_drop, Nat.add_zero]
    exact Nat.max_eq_right (Nat.le_add_right _ _)

/-- A position outside all rows covers nothing, behind the text. -/
theorem atPosition_of_none {text : List Char} {p : Position}
    (h : p.row = 0 ∨ (lines text)[p.row - 1]? = none) :
    atPosition text p = between (byteLength text) 0 := by
  rw [atPosition]
  rcases h with hzero | hnone
  · rw [if_pos hzero]
  · rw [hnone, ite_self]

/-- Whatever the row and the column are, at most one character of the text is covered. -/
theorem exists_covered (text : List Char) (p : Position) :
    ∃ covered, (atPosition text p).Covers text covered ∧ covered.length ≤ 1 := by
  by_cases hrow : p.row = 0 ∨ (lines text)[p.row - 1]? = none
  · refine ⟨[], ⟨text, [], ?_, ?_, ?_⟩, Nat.zero_le 1⟩
    · rw [List.append_nil, List.append_nil]
    · rw [atPosition_of_none hrow]
      rfl
    · rw [atPosition_of_none hrow, List.append_nil]
      exact Nat.max_eq_left (Nat.zero_le _)
  · obtain ⟨hp, hsome⟩ := not_or.1 hrow
    obtain ⟨row, hrow⟩ := Option.ne_none_iff_exists'.1 hsome
    obtain ⟨before, after, htext, -, hstart, hstop⟩ := covers_of_row hp hrow
    refine ⟨(row.drop (p.column - 1)).take 1, ⟨before,
      (row.drop (p.column - 1)).drop 1 ++ after, ?_, hstart, hstop⟩, List.length_take_le 1 _⟩
    conv_lhs => rw [htext, ← List.take_append_drop 1 (row.drop (p.column - 1))]
    simp only [List.append_assoc]

/-- The row of a place begins with the characters since the last line feed, and goes on with
the one at the place. -/
theorem exists_row {closed line after : List Char} (hclosed : Closed closed) (hline : '\n' ∉ line)
    (hne : line ++ after ≠ []) :
    ∃ row, (lines (closed ++ (line ++ after)))[closed.count '\n']? = some row ∧
      row.take line.length = line ∧ (row.drop line.length).head? = after.head? := by
  have hrow : (lines (line ++ after)).head? = some (line ++ (lines after).headD []) := by
    cases line with
    | nil =>
      obtain ⟨c, after, rfl⟩ := List.exists_cons_of_ne_nil hne
      obtain ⟨row, rest, hlines⟩ := exists_lines_cons c after
      rw [List.nil_append, hlines]
      rfl
    | cons c line =>
      rw [lines_unbroken hline (List.cons_ne_nil c line)]
      rfl
  refine ⟨line ++ (lines after).headD [], ?_, List.take_left, ?_⟩
  · rw [lines_append hclosed, ← length_lines hclosed, List.getElem?_append_right (le_refl _),
      Nat.sub_self, ← List.head?_eq_getElem?, hrow]
  · rw [List.drop_left, head?_headD_lines]

/-- The search among the lines finds the place again that row and column were counted for. -/
theorem atPosition_behind (before after : List Char) :
    (atPosition (before ++ after) (.behind before)).start = byteLength before ∧
      (atPosition (before ++ after) (.behind before)).stop =
        byteLength before + (after.head?.map Char.utf8Size).getD 0 := by
  obtain ⟨closed, hbefore, hclosed, hline, hcount⟩ := exists_closed before
  generalize hrest : before.rtakeWhile (· != '\n') = line at hbefore hline
  have hplace : Position.behind before = ⟨1 + closed.count '\n', 1 + line.length⟩ := by
    rw [Position.behind, hcount, hrest]
  have htext : before ++ after = closed ++ (line ++ after) := by
    rw [hbefore, List.append_assoc]
  have hindex : 1 + closed.count '\n' - 1 = closed.count '\n' := Nat.add_sub_cancel_left ..
  have hcolumn : 1 + line.length - 1 = line.length := Nat.add_sub_cancel_left ..
  by_cases hne : line ++ after = []
  · -- behind the last line feed, or in the empty text, there is no row any more
    obtain ⟨hnil, hafter⟩ := List.append_eq_nil_iff.1 hne
    have hnone : (lines (before ++ after))[1 + closed.count '\n' - 1]? = none := by
      rw [htext, hne, List.append_nil, hindex, ← length_lines hclosed]
      exact List.getElem?_eq_none (le_refl _)
    rw [hplace, atPosition_of_none (Or.inr hnone), hafter, List.append_nil]
    exact ⟨rfl, Nat.max_eq_left (Nat.zero_le _)⟩
  · obtain ⟨row, hrow, htake, hdrop⟩ := exists_row hclosed hline hne
    rw [← htext, ← hindex] at hrow
    have hfront : ((lines (before ++ after)).take (closed.count '\n')).flatten = closed := by
      rw [htext, lines_append hclosed, ← length_lines hclosed, List.take_left, flatten_lines]
    have hpos : 1 + closed.count '\n' ≠ 0 := by omega
    obtain ⟨found, rest, -, hfound, hstart, hstop⟩ :=
      covers_of_row (p := ⟨1 + closed.count '\n', 1 + line.length⟩) hpos hrow
    -- what comes before the character found is what comes before the place
    have hsame : found = before := by
      rw [hfound]
      dsimp only
      rw [hindex, hcolumn, hfront, htake, hbefore]
    rw [hplace, hstart, hstop, hsame, byteLength_append, byteLength_take_one]
    dsimp only
    rw [hcolumn, hdrop]
    exact ⟨rfl, rfl⟩

/-- **Rows and columns lead back to their place.**  At every place between two characters of
a source, the reader counts the row by line feeds and the column by characters since the last
one, and the span found for them begins at the place and ends behind the character there.
Any row and column at all give a span of the source, of one character or of none. -/
theorem atPosition_inverts (source : String) :
    (∀ offset, String.Pos.Raw.IsValid source ⟨offset⟩ →
      ∃ before after : String, source = before ++ after ∧ before.utf8ByteSize = offset ∧
        ∃ place : Position, place.row = 1 + before.toList.count '\n' ∧
          place.column = 1 + (before.toList.rtakeWhile (· != '\n')).length ∧
          Position.ofOffset source.toList offset = place ∧
          (atPosition source.toList place).start = offset ∧
          (atPosition source.toList place).stop =
            offset + (after.toList.head?.map Char.utf8Size).getD 0) ∧
    ∀ place : Position, ∃ before covered after : String, source = before ++ covered ++ after ∧
      (atPosition source.toList place).start = before.utf8ByteSize ∧
      (atPosition source.toList place).stop = (before ++ covered).utf8ByteSize ∧
      covered.length ≤ 1 := by
  constructor
  · intro offset hoffset
    obtain ⟨before, after, rfl, hend⟩ := String.Pos.Raw.isValid_iff_exists_append.1 hoffset
    have hsize : offset = byteLength before.toList := by
      rw [byteLength_toList]
      exact congrArg String.Pos.Raw.byteIdx hend
    have hspan := atPosition_behind before.toList after.toList
    rw [String.toList_append, hsize]
    exact ⟨before, after, rfl, (byteLength_toList before).symm, .behind before.toList, rfl, rfl,
      Position.ofOffset_append _ _, hspan⟩
  · intro place
    obtain ⟨covered, ⟨before, after, htext, hstart, hstop⟩, hone⟩ :=
      exists_covered source.toList place
    refine ⟨String.ofList before, String.ofList covered, String.ofList after, ?_, ?_, ?_, ?_⟩
    · rw [← String.ofList_append, ← String.ofList_append, ← htext, String.ofList_toList]
    · rw [hstart, utf8ByteSize_ofList]
    · rw [hstop, ← String.ofList_append, utf8ByteSize_ofList]
    · rw [String.length_ofList]
      exact hone

/-- Behind a last line feed the row is one that no line has. -/
theorem atPosition_inverts_last_newline :
    String.Pos.Raw.IsValid "é\n" ⟨3⟩ ∧ Position.ofOffset "é\n".toList 3 = ⟨2, 1⟩ ∧
      (atPosition "é\n".toList ⟨2, 1⟩).start = 3 := by
  have hvalid : String.Pos.Raw.IsValid "é\n" ⟨3⟩ :=
    isBoundary_iff_isValid.1 (isBoundary_length "é\n".toList)
  have hcount : Position.ofOffset "é\n".toList 3 = ⟨2, 1⟩ := by decide
  obtain ⟨_, _, -, -, place, -, -, hplace, hstart, -⟩ := (atPosition_inverts "é\n").1 3 hvalid
  rw [← hplace, hcount] at hstart
  exact ⟨hvalid, hcount, hstart⟩

end Span

end LadderLogic
