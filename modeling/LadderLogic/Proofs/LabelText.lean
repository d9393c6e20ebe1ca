/-
Labels cannot alter a drawing.

`readData` cuts a text into its tags and the character data between them, the way a
reader of markup does: a tag begins at a `<`, and ends at the first `>` outside quotation
marks.  It knows nothing of how the text was written.  The `outline` of a text is what is
left of it when the data inside `text` elements is taken out, and `captions` is what was
taken out.  Drawing diagrams that differ in their operands alone gives texts of the same
outline, and no operand opens a tag.
-/

import Mathlib
import LadderLogic.Proofs.DrawingTree

namespace LadderLogic.Svg

/-! ## Reading markup -/

/-- A tag, with the character data up to the next one. -/
structure Mark where
  tag : List Char
  data : List Char
deriving DecidableEq

/-- The quotation mark that is open after a character of a tag. -/
def quoteAfter (quote : Option Char) (c : Char) : Option Char :=
  match quote with
  | none => if c = '"' ∨ c = '\'' then some c else none
  | some q => if c = q then none else some q

mutual

/-- Reads character data: what stands before the next tag, and the tags from there on. -/
def readData : List Char → List Char × List Mark
  | [] => ([], [])
  | c :: rest =>
    if c = '<' then
      let (mark, marks) := readTag none rest
      ([], { mark with tag := '<' :: mark.tag } :: marks)
    else
      let (data, marks) := readData rest
      (c :: data, marks)

/-- Reads the rest of a tag, and the tags after it. -/
def readTag (quote : Option Char) : List Char → Mark × List Mark
  | [] => (⟨[], []⟩, [])
  | c :: rest =>
    if quote = none ∧ c = '>' then
      let (data, marks) := readData rest
      (⟨['>'], data⟩, marks)
    else
      let (mark, marks) := readTag (quoteAfter quote c) rest
      ({ mark with tag := c :: mark.tag }, marks)

end

namespace Mark

/-- A name in a tag ends before such a character. -/
def endsName (c : Char) : Bool := c.isWhitespace || c == '/' || c == '>'

/-- The name of the element that a tag opens; a closing tag opens none. -/
def name (m : Mark) : List Char := (m.tag.drop 1).takeWhile (!endsName ·)

/-- The data of a tag is the content of a `text` element. -/
def isCaption (m : Mark) : Bool := m.name = "text".toList

/-- A tag without its data, if that is the content of a `text` element. -/
def emptied (m : Mark) : Mark := if m.isCaption then { m with data := [] } else m

/-- Writes tags down with new contents for `text` elements. -/
def fill : List Mark → List (List Char) → List Char
  | [], _ => []
  | m :: marks, captions =>
    if m.isCaption then m.tag ++ captions.headD [] ++ fill marks captions.tail
    else m.tag ++ m.data ++ fill marks captions

end Mark

/-- The contents of the `text` elements of a text. -/
def captions (text : List Char) : List (List Char) :=
  ((readData text).2.filter Mark.isCaption).map Mark.data

/-- A text without the contents of `text` elements: what stands before the first tag, then
the tags with all other data. -/
def outline (text : List Char) : List Char × List Mark :=
  ((readData text).1, (readData text).2.map Mark.emptied)

theorem readData_cons_of_ne {c : Char} (hc : c ≠ '<') (rest : List Char) :
    readData (c :: rest) = (c :: (readData rest).1, (readData rest).2) := by
  rw [readData, if_neg hc]

theorem readData_append {s : List Char} (hs : '<' ∉ s) (rest : List Char) :
    readData (s ++ rest) = (s ++ (readData rest).1, (readData rest).2) := by
  induction s with
  | nil => rfl
  | cons c s ih =>
    rw [List.mem_cons, not_or] at hs
    rw [List.cons_append, readData_cons_of_ne (Ne.symm hs.1), ih hs.2]
    rfl

mutual

theorem text_readData : ∀ text : List Char,
    (readData text).1 ++ (readData text).2.flatMap (fun m => m.tag ++ m.data) = text
  | [] => rfl
  | c :: rest => by
    rw [readData]
    split
    · next hc =>
      have ih := text_readTag none rest
      simp_all
    · have ih := text_readData rest
      simp_all

theorem text_readTag (quote : Option Char) : ∀ text : List Char,
    (readTag quote text).1.tag ++ (readTag quote text).1.data ++
      (readTag quote text).2.flatMap (fun m => m.tag ++ m.data) = text
  | [] => rfl
  | c :: rest => by
    rw [readTag]
    split
    · next hc =>
      have ih := text_readData rest
      simp_all
    · have ih := text_readTag (quoteAfter quote c) rest
      simp_all

end

theorem isCaption_emptied (m : Mark) : m.emptied.isCaption = m.isCaption := by
  unfold Mark.emptied
  split <;> rfl

theorem tag_emptied (m : Mark) : m.emptied.tag = m.tag := by
  unfold Mark.emptied
  split <;> rfl

theorem fill_emptied (marks : List Mark) :
    Mark.fill (marks.map Mark.emptied) ((marks.filter Mark.isCaption).map Mark.data) =
      marks.flatMap (fun m => m.tag ++ m.data) := by
  induction marks with
  | nil => rfl
  | cons m marks ih =>
    by_cases hm : m.isCaption = true
    · rw [List.map_cons, Mark.fill, isCaption_emptied, if_pos hm, tag_emptied,
        List.filter_cons_of_pos hm, List.map_cons, List.flatMap_cons]
      simp only [List.headD_cons, List.tail_cons, ih]
    · have hsame : m.emptied = m := by rw [Mark.emptied, if_neg hm]
      rw [List.map_cons, Mark.fill, isCaption_emptied, if_neg hm, hsame,
        List.filter_cons_of_neg hm, ih, List.flatMap_cons]

/-- Nothing is lost: a text is its outline with its captions put back. -/
theorem fill_outline (text : List Char) :
    (outline text).1 ++ Mark.fill (outline text).2 (captions text) = text := by
  rw [outline, captions, fill_emptied, text_readData]

/-! ## Reading what is written -/

/-- A stretch of a tag that does not end it and leaves no quotation mark open. -/
def Inert (s : List Char) : Prop :=
  ∀ rest, readTag none (s ++ rest) =
    (⟨s ++ (readTag none rest).1.tag, (readTag none rest).1.data⟩, (readTag none rest).2)

namespace Inert

theorem nil : Inert [] := fun _ => rfl

theorem append {s t : List Char} (hs : Inert s) (ht : Inert t) : Inert (s ++ t) := by
  intro rest
  rw [List.append_assoc, hs, ht, List.append_assoc]

theorem flatMap {β : Type} {f : β → List Char} {l : List β} (h : ∀ b ∈ l, Inert (f b)) :
    Inert (l.flatMap f) := by
  induction l with
  | nil => exact nil
  | cons b l ih =>
    rw [List.flatMap_cons]
    exact (h b List.mem_cons_self).append (ih fun b' hb' => h b' (List.mem_cons_of_mem _ hb'))

theorem singleton {c : Char} (hend : c ≠ '>') (hdouble : c ≠ '"') (hsingle : c ≠ '\'') :
    Inert [c] := by
  intro rest
  have hquote : quoteAfter none c = none := by simp [quoteAfter, hdouble, hsingle]
  rw [List.singleton_append, readTag, if_neg (fun h => hend h.2), hquote]
  rfl

theorem of_forall {s : List Char} (hs : ∀ c ∈ s, Inert [c]) : Inert s := by
  have := flatMap (f := fun c => [c]) hs
  rwa [List.flatMap_singleton'] at this

theorem readTag_quoted {s : List Char} (hs : '"' ∉ s) (rest : List Char) :
    readTag (some '"') (s ++ '"' :: rest) =
      (⟨s ++ '"' :: (readTag none rest).1.tag, (readTag none rest).1.data⟩,
        (readTag none rest).2) := by
  induction s with
  | nil => rw [List.nil_append, readTag, if_neg (by simp)]; rfl
  | cons c s ih =>
    -- Even a bracket does not end the tag while the quotation mark is open.
    rw [List.mem_cons, not_or] at hs
    have hquote : quoteAfter (some '"') c = some '"' := by simp [quoteAfter, Ne.symm hs.1]
    rw [List.cons_append, readTag, if_neg (by simp), hquote, ih hs.2]
    rfl

theorem quoted {s : List Char} (hs : '"' ∉ s) : Inert ('"' :: (s ++ ['"'])) := by
  intro rest
  have hquote : quoteAfter none '"' = some '"' := rfl
  have hopen : '"' :: (s ++ ['"']) ++ rest = '"' :: (s ++ '"' :: rest) := by simp
  rw [hopen, readTag, if_neg (by simp), hquote, readTag_quoted hs]
  simp

end Inert

/-- The characters of the names of elements and attributes. -/
def isPlain (c : Char) : Bool := c.isAlphanum || c == '-'

theorem Inert.of_isPlain {s : List Char} (hs : ∀ c ∈ s, isPlain c = true) : Inert s := by
  refine Inert.of_forall fun c hc => Inert.singleton ?_ ?_ ?_
  all_goals
    rintro rfl
    cases hs _ hc

theorem quote_notMem_escapeValue (s : List Char) : '"' ∉ s.flatMap escapeValue := by
  intro h
  obtain ⟨c, -, hc⟩ := List.mem_flatMap.1 h
  revert hc
  unfold escapeValue escapeText
  split_ifs with hquote <;> simp_all [eq_comm]

theorem angle_notMem_escapeText (s : List Char) : '<' ∉ s.flatMap escapeText := by
  intro h
  obtain ⟨c, -, hc⟩ := List.mem_flatMap.1 h
  revert hc
  unfold escapeText
  split_ifs with hand hangle <;> simp_all [eq_comm]

theorem Inert.attribute {a : Attribute Float32} (hname : ∀ c ∈ a.name.toList, isPlain c = true) :
    Inert a.write := by
  have hspace : Inert [' '] := Inert.singleton (by decide) (by decide) (by decide)
  have hequals : Inert ['='] := Inert.singleton (by decide) (by decide) (by decide)
  have hvalue := Inert.quoted (quote_notMem_escapeValue a.value.write)
  have hwrite : a.write =
      [' '] ++ (a.name.toList ++ (['='] ++ '"' :: (a.value.write.flatMap escapeValue ++ ['"']))) :=
    rfl
  rw [hwrite]
  exact hspace.append ((Inert.of_isPlain hname).append (hequals.append hvalue))

/-! ### Tags and data, one after the other -/

section

variable {body s : List Char}

theorem readData_tag (hbody : Inert body) (rest : List Char) :
    readData ('<' :: (body ++ '>' :: rest)) =
      ([], ⟨'<' :: (body ++ ['>']), (readData rest).1⟩ :: (readData rest).2) := by
  have hend : readTag none ('>' :: rest) = (⟨['>'], (readData rest).1⟩, (readData rest).2) := by
    rw [readTag, if_pos ⟨rfl, rfl⟩]
  rw [readData, if_pos rfl, hbody, hend]

theorem captions_tag (hbody : Inert body) (rest : List Char) :
    captions ('<' :: (body ++ '>' :: rest)) =
      (if Mark.isCaption ⟨'<' :: (body ++ ['>']), []⟩ then [(readData rest).1] else []) ++
        captions rest := by
  rw [captions, captions, readData_tag hbody]
  have hcaption : Mark.isCaption ⟨'<' :: (body ++ ['>']), (readData rest).1⟩ =
      Mark.isCaption ⟨'<' :: (body ++ ['>']), []⟩ := rfl
  rw [List.filter_cons, hcaption]
  split <;> rfl

theorem outline_tag (hbody : Inert body) (rest : List Char) :
    outline ('<' :: (body ++ '>' :: rest)) =
      ([], ⟨'<' :: (body ++ ['>']),
        if Mark.isCaption ⟨'<' :: (body ++ ['>']), []⟩ then [] else (outline rest).1⟩ ::
          (outline rest).2) := by
  rw [outline, outline, readData_tag hbody, List.map_cons]
  have hcaption : Mark.isCaption ⟨'<' :: (body ++ ['>']), (readData rest).1⟩ =
      Mark.isCaption ⟨'<' :: (body ++ ['>']), []⟩ := rfl
  rw [Mark.emptied, hcaption]
  split <;> rfl

theorem captions_data (hs : '<' ∉ s) (rest : List Char) : captions (s ++ rest) = captions rest := by
  rw [captions, captions, readData_append hs]

theorem outline_data (hs : '<' ∉ s) (rest : List Char) :
    outline (s ++ rest) = (s ++ (outline rest).1, (outline rest).2) := by
  rw [outline, outline, readData_append hs]

end

/-! ## Trees -/

/-- The text of an opening tag, without its brackets. -/
def tagBody (name : String) (attributes : List (Attribute Float32)) : List Char :=
  name.toList ++ attributes.flatMap Attribute.write

/-- A name is plain if no reader of a tag stops at one of its characters. -/
def Plain (name : String) : Prop := name.toList.all isPlain = true

theorem Plain.forall {name : String} (h : Plain name) : ∀ c ∈ name.toList, isPlain c = true :=
  List.all_eq_true.1 h

theorem Plain.inert_tagBody {name : String} {attributes : List (Attribute Float32)}
    (hname : Plain name) (hnames : ∀ a ∈ attributes, Plain a.name) :
    Inert (tagBody name attributes) :=
  (Inert.of_isPlain hname.forall).append
    (Inert.flatMap fun a ha => Inert.attribute (hnames a ha).forall)

theorem endsName_of_isPlain {c : Char} (hc : isPlain c = true) : Mark.endsName c = false := by
  rw [Bool.eq_false_iff]
  intro h
  simp only [Mark.endsName, Char.isWhitespace, Bool.or_eq_true, beq_iff_eq, decide_eq_true_eq] at h
  rcases h with (((( rfl | rfl) | rfl) | rfl) | rfl) | rfl <;> cases hc

/-- The name that a reader finds in an opening tag is the one that was written. -/
theorem Plain.name_tagBody {name : String} (hname : Plain name)
    (attributes : List (Attribute Float32)) {c : Char} (hc : Mark.endsName c = true)
    (rest data : List Char) :
    Mark.name ⟨'<' :: (tagBody name attributes ++ c :: rest), data⟩ = name.toList := by
  have hchars : ∀ c ∈ name.toList, (!Mark.endsName c) = true := by
    intro c hc
    rw [endsName_of_isPlain (hname.forall c hc)]
    rfl
  -- the name is followed by the space before an attribute, or by what ends the tag
  have htail : (attributes.flatMap Attribute.write ++ c :: rest).takeWhile (!Mark.endsName ·) =
      [] := by
    cases attributes with
    | nil => simp [hc]
    | cons a attributes => simp [Attribute.write, Mark.endsName]
  rw [Mark.name, List.drop_one, List.tail_cons, tagBody, List.append_assoc,
    List.takeWhile_append_of_pos hchars, htail, List.append_nil]

namespace Node

/-- The text of a node that is nothing but text. -/
def ownText {α : Type} : Node α → List String
  | text content => [content]
  | element _ _ _ => []

/-- The texts of a tree, in the order in which they are written. -/
def texts {α : Type} (n : Node α) : List String := n.collect ownText

theorem texts_text {α : Type} (content : String) : (text content : Node α).texts = [content] := rfl

theorem texts_element {α : Type} (name : String) (attributes : List (Attribute α))
    (children : List (Node α)) :
    (element name attributes children).texts = children.flatMap texts :=
  collect_eq ownText _

mutual

/-- A tree with all its texts made empty. -/
def blank {α : Type} : Node α → Node α
  | text _ => text ""
  | element name attributes children => element name attributes (blankAll children)

def blankAll {α : Type} : List (Node α) → List (Node α)
  | [] => []
  | child :: rest => child.blank :: blankAll rest

end

theorem blankAll_eq {α : Type} (children : List (Node α)) :
    blankAll children = children.map blank := by
  induction children with
  | nil => rfl
  | cons child rest ih => rw [blankAll, ih, List.map_cons]

/-- Texts stand alone, in `text` elements only, and all names are plain. -/
inductive Captioned : Node Float32 → Prop
  | caption {attributes : List (Attribute Float32)} (hnames : ∀ a ∈ attributes, Plain a.name)
      (content : String) : Captioned (element "text" attributes [text content])
  | element {name : String} {attributes : List (Attribute Float32)} {children : List (Node Float32)}
      (hname : Plain name) (hne : name ≠ "text") (hnames : ∀ a ∈ attributes, Plain a.name)
      (hchildren : ∀ child ∈ children, Captioned child) :
      Captioned (element name attributes children)

/-- A text as it stands between the tags of its element, on a line of its own. -/
def captionText (content : String) : List Char :=
  '\n' :: (content.toList.flatMap escapeText ++ ['\n'])

theorem angle_notMem_captionText (content : String) : '<' ∉ captionText content := by
  have h := angle_notMem_escapeText content.toList
  simp [captionText, h]

theorem write_leaf_append (name : String) (attributes : List (Attribute Float32))
    (rest : List Char) :
    (element name attributes []).write ++ rest =
      '<' :: ((tagBody name attributes ++ ['/']) ++ '>' :: rest) := by
  simp [write, tagBody]

theorem write_element_append (name : String) (attributes : List (Attribute Float32))
    (child : Node Float32) (children : List (Node Float32)) (rest : List Char) :
    (element name attributes (child :: children)).write ++ rest =
      '<' :: (tagBody name attributes ++ '>' :: (writeRest (child :: children) ++
        (['\n'] ++ '<' :: (('/' :: name.toList) ++ '>' :: rest)))) := by
  simp [write, writeRest, tagBody]

theorem isCaption_opening {name : String} (hname : Plain name)
    (attributes : List (Attribute Float32)) {c : Char} (hc : Mark.endsName c = true)
    (rest : List Char) :
    Mark.isCaption ⟨'<' :: (tagBody name attributes ++ c :: rest), []⟩ =
      decide (name = "text") := by
  rw [Mark.isCaption, hname.name_tagBody attributes hc]
  exact decide_eq_decide.2 String.toList_inj

theorem isCaption_closing (name : List Char) : Mark.isCaption ⟨'<' :: '/' :: name, []⟩ = false := by
  have hname : Mark.name ⟨'<' :: '/' :: name, []⟩ = [] := by simp [Mark.name, Mark.endsName]
  rw [Mark.isCaption, hname]
  rfl

/-- What a node adds to the captions of a text, and to its outline. -/
structure Reads (n : Node Float32) : Prop where
  captions_append : ∀ rest, captions (n.write ++ rest) = n.texts.map captionText ++ captions rest
  outline_append : ∀ rest rest', outline rest = outline rest' →
    outline (n.write ++ rest) = outline (n.blank.write ++ rest')

theorem angle_notMem_newline : '<' ∉ ['\n'] := by decide

theorem writeRest_cons_append (child : Node Float32) (children : List (Node Float32))
    (rest : List Char) :
    writeRest (child :: children) ++ rest =
      ['\n'] ++ (child.write ++ (writeRest children ++ rest)) := by
  simp [writeRest]

theorem captions_writeRest {children : List (Node Float32)} (h : ∀ child ∈ children, child.Reads)
    (rest : List Char) :
    captions (writeRest children ++ rest) =
      (children.flatMap texts).map captionText ++ captions rest := by
  induction children with
  | nil => rfl
  | cons child children ih =>
    rw [writeRest_cons_append, captions_data angle_notMem_newline,
      (h child List.mem_cons_self).captions_append,
      ih fun c hc => h c (List.mem_cons_of_mem _ hc), List.flatMap_cons, List.map_append,
      List.append_assoc]

theorem outline_writeRest {children : List (Node Float32)} (h : ∀ child ∈ children, child.Reads)
    {rest rest' : List Char} (hrest : outline rest = outline rest') :
    outline (writeRest children ++ rest) = outline (writeRest (blankAll children) ++ rest') := by
  induction children with
  | nil => exact hrest
  | cons child children ih =>
    have htail := ih fun c hc => h c (List.mem_cons_of_mem _ hc)
    rw [blankAll, writeRest_cons_append, writeRest_cons_append, outline_data angle_notMem_newline,
      outline_data angle_notMem_newline,
      (h child List.mem_cons_self).outline_append _ _ htail]

theorem inert_closing {name : String} (hname : Plain name) : Inert ('/' :: name.toList) := by
  have hslash : Inert ['/'] := Inert.singleton (by decide) (by decide) (by decide)
  exact hslash.append (Inert.of_isPlain hname.forall)

theorem captions_closing {name : String} (hname : Plain name) (rest : List Char) :
    captions ('<' :: (('/' :: name.toList) ++ '>' :: rest)) = captions rest := by
  rw [captions_tag (inert_closing hname), List.cons_append, isCaption_closing]
  rfl

theorem outline_closing {name : String} (hname : Plain name) {rest rest' : List Char}
    (h : outline rest = outline rest') :
    outline ('<' :: (('/' :: name.toList) ++ '>' :: rest)) =
      outline ('<' :: (('/' :: name.toList) ++ '>' :: rest')) := by
  rw [outline_tag (inert_closing hname), outline_tag (inert_closing hname), h]

/-- A `text` element: its content is a caption, and the outline has only its tags. -/
theorem reads_caption {attributes : List (Attribute Float32)}
    (hnames : ∀ a ∈ attributes, Plain a.name) (content : String) :
    (element "text" attributes [text content]).Reads := by
  have hname : Plain "text" := rfl
  have hbody := hname.inert_tagBody hnames
  have hcaption : Mark.isCaption ⟨'<' :: (tagBody "text" attributes ++ ['>']), []⟩ = true :=
    isCaption_opening hname attributes (by decide) []
  have hwrite : ∀ (content : String) rest,
      (element "text" attributes [text content]).write ++ rest =
        '<' :: (tagBody "text" attributes ++ '>' :: (captionText content ++
          '<' :: (('/' :: "text".toList) ++ '>' :: rest))) := by
    intro content rest
    simp [write, writeRest, tagBody, captionText]
  have hclosing : ∀ rest, (readData ('<' :: (('/' :: "text".toList) ++ '>' :: rest))).1 = [] :=
    fun rest => by rw [readData_tag (inert_closing hname)]
  constructor
  · -- The data after the opening tag ends at the closing one, since an operand has no bracket.
    intro rest
    rw [hwrite, captions_tag hbody, if_pos hcaption, readData_append (angle_notMem_captionText _),
      captions_data (angle_notMem_captionText _), captions_closing hname, hclosing]
    simp [texts_element, texts_text]
  · intro rest rest' h
    have hblank : (element "text" attributes [text content]).blank =
        element "text" attributes [text ""] := by simp [blank, blankAll]
    rw [hblank, hwrite, hwrite, outline_tag hbody, outline_tag hbody, if_pos hcaption,
      if_pos hcaption, outline_data (angle_notMem_captionText _),
      outline_data (angle_notMem_captionText _), outline_closing hname h]

/-- Any other element passes on what its children add. -/
theorem reads_element {name : String} {attributes : List (Attribute Float32)}
    {children : List (Node Float32)} (hname : Plain name) (hne : name ≠ "text")
    (hnames : ∀ a ∈ attributes, Plain a.name) (h : ∀ child ∈ children, child.Reads) :
    (element name attributes children).Reads := by
  have hbody := hname.inert_tagBody hnames
  have hslash : Inert ['/'] := Inert.singleton (by decide) (by decide) (by decide)
  have hnone : ∀ {c} rest, Mark.endsName c = true →
      ¬ Mark.isCaption ⟨'<' :: (tagBody name attributes ++ c :: rest), []⟩ = true := by
    intro c rest hc
    rw [isCaption_opening hname attributes hc rest, decide_eq_true_eq]
    exact hne
  have hleaf :
      ¬ Mark.isCaption ⟨'<' :: (tagBody name attributes ++ ['/'] ++ ['>']), []⟩ = true := by
    rw [List.append_assoc]
    exact hnone _ (by decide)
  constructor
  · intro rest
    cases children with
    | nil =>
      rw [write_leaf_append, captions_tag (hbody.append hslash), if_neg hleaf]
      rfl
    | cons child children =>
      rw [write_element_append, captions_tag hbody, if_neg (hnone _ (by decide)), List.nil_append,
        captions_writeRest h, captions_data angle_notMem_newline, captions_closing hname,
        texts_element]
  · -- The tags are the same with and without operands; what differs is inside the children.
    intro rest rest' hrest
    cases children with
    | nil =>
      have hblank : (element name attributes []).blank = element name attributes [] := by
        rw [blank, blankAll]
      rw [hblank, write_leaf_append, write_leaf_append, outline_tag (hbody.append hslash),
        outline_tag (hbody.append hslash), hrest]
    | cons child children =>
      have hchildren : outline (writeRest (child :: children) ++
            (['\n'] ++ '<' :: (('/' :: name.toList) ++ '>' :: rest))) =
          outline (writeRest (blankAll (child :: children)) ++
            (['\n'] ++ '<' :: (('/' :: name.toList) ++ '>' :: rest'))) := by
        refine outline_writeRest h ?_
        rw [outline_data angle_notMem_newline, outline_data angle_notMem_newline,
          outline_closing hname hrest]
      rw [blank, write_element_append, outline_tag hbody, hchildren, blankAll,
        write_element_append, outline_tag hbody]

theorem Captioned.reads {n : Node Float32} (hn : n.Captioned) : n.Reads := by
  induction hn with
  | caption hnames content => exact reads_caption hnames content
  | element hname hne hnames hchildren ih => exact reads_element hname hne hnames ih

end Node

end LadderLogic.Svg

namespace LadderLogic

/-! ## Diagrams -/

section Operands

variable {α : Type}

def Glyph.unlabelled (g : Glyph α) : Glyph α := { g with operand := "" }

def BranchLine.unlabelled (l : BranchLine α) : BranchLine α :=
  { l with glyphs := l.glyphs.map Glyph.unlabelled }

def RungLayout.unlabelled (r : RungLayout α) : RungLayout α :=
  { r with coil := r.coil.unlabelled, lines := r.lines.map BranchLine.unlabelled }

/-- A diagram with every operand made empty. -/
def Diagram.unlabelled (d : Diagram α) : Diagram α :=
  { d with rungs := d.rungs.map RungLayout.unlabelled }

/-- The operands of a diagram, symbol by symbol: for each rung those of its branches, then
that of its coil. -/
def Diagram.operands (d : Diagram α) : List String := d.glyphs.map Glyph.operand

theorem Diagram.isEmpty_unlabelled (d : Diagram α) : d.unlabelled.isEmpty = d.isEmpty := by
  simp [Diagram.unlabelled, Diagram.isEmpty]

end Operands

namespace Svg

open Node

section Trees

variable {α : Type}

theorem blank_line (p q : Point α) : (line p q).blank = line p q := rfl

theorem blank_group (kind : String) (children : List (Node α)) :
    (group kind children).blank = group kind (children.map blank) := by
  rw [group, blank, blankAll_eq]
  rfl

variable [Scalar α] (pen : Pen α)

theorem texts_glyph (g : Glyph α) : (pen.glyph g).texts = [g.operand] := by
  rw [Pen.glyph]
  split <;> cases g.negated <;> rfl

theorem blank_glyph (g : Glyph α) : (pen.glyph g).blank = pen.glyph g.unlabelled := by
  obtain ⟨position, operand, negated, kind⟩ := g
  cases kind <;> cases negated <;> rfl

theorem blank_rung (r : RungLayout α) : (pen.rung r).blank = pen.rung r.unlabelled := by
  have hsegments : ∀ l : List (Segment α), (l.map segment).map blank = l.map segment := by
    intro l
    simp [segment, blank_line]
  have hbranch : ∀ l : BranchLine α, (pen.branch l).map blank = pen.branch l.unlabelled := by
    intro l
    rw [Pen.branch, Pen.branch, List.map_append, hsegments]
    simp [BranchLine.unlabelled, blank_glyph]
  rw [Pen.rung, Pen.rung, blank_group, List.map_append, List.map_append, hsegments,
    List.map_flatMap]
  simp [hbranch, blank_glyph, RungLayout.unlabelled, List.flatMap_map]

/-- The texts of a drawing are the operands of its symbols. -/
theorem texts_draw {d : Diagram α} (hd : d.isEmpty = false) :
    (pen.draw d).texts = d.operands := by
  have htexts : pen.InSymbolsOnly d ownText :=
    ⟨fun _ _ => rfl, fun _ _ => rfl, fun _ => rfl, rfl, rfl⟩
  rw [texts, Pen.collect_draw htexts, hd, Diagram.operands, List.map_eq_flatMap]
  exact congrArg (List.flatMap · _) (funext (texts_glyph pen))

theorem blank_draw {d : Diagram α} (hd : d.isEmpty = false) :
    (pen.draw d).blank = pen.draw d.unlabelled := by
  have hladder : (pen.ladder d).blank = pen.ladder d.unlabelled := by
    rw [Pen.ladder, blank, blankAll_eq, List.map_cons, List.map_cons, List.map_map]
    simp only [Function.comp_def, blank_rung]
    simp [Pen.ladder, Diagram.unlabelled, Pen.rail, blank_line, Function.comp_def]
  rw [Pen.draw, blank, blankAll_eq, Pen.draw, Pen.content, Pen.content, d.isEmpty_unlabelled, hd]
  cases pen.background with
  | none => simp [hladder, Diagram.unlabelled]
  | some paint => simp [hladder, Diagram.unlabelled, Pen.backdrop, blank, blankAll]

end Trees

/-! ### Drawings are captioned -/

theorem captioned_line (p q : Point Float32) : (line p q).Captioned :=
  .element rfl (by decide) (by simp [Plain]; decide) (by simp)

theorem captioned_group {kind : String} {children : List (Node Float32)}
    (h : ∀ child ∈ children, child.Captioned) : (group kind children).Captioned :=
  .element rfl (by decide) (by simp [Plain]; decide) h

theorem captioned_contactLines (p : Point Float32) (half : Float32) (negated : Bool) :
    ∀ child ∈ contactLines p half negated, child.Captioned := by
  intro child hchild
  have hline : ∃ start stop, child = line start stop := by
    cases negated <;> simp [contactLines] at hchild
    · rcases hchild with h | h <;> exact ⟨_, _, h⟩
    · rcases hchild with h | h | h <;> exact ⟨_, _, h⟩
  obtain ⟨start, stop, rfl⟩ := hline
  exact captioned_line start stop

theorem captioned_coilLines (p : Point Float32) (half : Float32) (negated : Bool) :
    ∀ child ∈ coilLines p half negated, child.Captioned := by
  intro child hchild
  rw [coilLines, List.mem_cons] at hchild
  rcases hchild with rfl | hchild
  · exact .element rfl (by decide) (by simp [Plain]; decide) (by simp)
  · cases negated <;> simp at hchild
    rw [hchild]
    exact captioned_line _ _

theorem captioned_glyph (pen : Pen Float32) (g : Glyph Float32) : (pen.glyph g).Captioned := by
  have hlabel : (pen.label g).Captioned := .caption (by simp [Plain]; decide) g.operand
  rw [Pen.glyph]
  split
  · refine captioned_group fun child hchild => ?_
    rcases List.mem_append.1 hchild with h | h
    · exact captioned_contactLines _ _ _ child h
    · rwa [List.mem_singleton.1 h]
  · refine captioned_group fun child hchild => ?_
    rcases List.mem_append.1 hchild with h | h
    · exact captioned_coilLines _ _ _ child h
    · rwa [List.mem_singleton.1 h]

theorem captioned_rung (pen : Pen Float32) (r : RungLayout Float32) : (pen.rung r).Captioned := by
  have hsegments : ∀ (l : List (Segment Float32)), ∀ child ∈ l.map segment, child.Captioned := by
    intro l child hchild
    obtain ⟨s, -, rfl⟩ := List.mem_map.1 hchild
    exact captioned_line s.start s.stop
  refine captioned_group fun child hchild => ?_
  simp only [Pen.branch, List.mem_append, List.mem_flatMap, List.mem_singleton] at hchild
  rcases hchild with (⟨l, -, h | h⟩ | h) | rfl
  · exact hsegments l.wires child h
  · obtain ⟨g, -, rfl⟩ := List.mem_map.1 h
    exact captioned_glyph pen g
  · exact hsegments r.connectors child h
  · exact captioned_glyph pen r.coil

theorem captioned_ladder (pen : Pen Float32) (d : Diagram Float32) : (pen.ladder d).Captioned := by
  refine .element rfl (by decide) (by simp [Plain]; decide) fun child hchild => ?_
  simp only [List.mem_cons, List.mem_map] at hchild
  rcases hchild with rfl | rfl | ⟨r, -, rfl⟩
  · exact captioned_line _ _
  · exact captioned_line _ _
  · exact captioned_rung pen r

theorem captioned_draw (pen : Pen Float32) {d : Diagram Float32} (hd : d.isEmpty = false) :
    (pen.draw d).Captioned := by
  refine .element rfl (by decide) (by simp [Plain]; decide) fun child hchild => ?_
  rw [Pen.content, hd, List.mem_append] at hchild
  rcases hchild with h | h
  · rw [Option.mem_toList, Option.map_eq_some_iff] at h
    obtain ⟨paint, -, rfl⟩ := h
    exact .element rfl (by decide) (by simp [Plain]; decide) (by simp)
  · rw [List.mem_singleton.1 h]
    exact captioned_ladder pen d

/-! ### Labels -/

theorem captions_draw (pen : Pen Float32) {d : Diagram Float32} (hd : d.isEmpty = false) :
    captions (pen.draw d).write = d.operands.map captionText := by
  have h := (captioned_draw pen hd).reads.captions_append []
  rw [texts_draw pen hd] at h
  simpa [captions, readData] using h

theorem outline_draw (pen : Pen Float32) {d : Diagram Float32} (hd : d.isEmpty = false) :
    outline (pen.draw d).write = outline (pen.draw d.unlabelled).write := by
  have h := (captioned_draw pen hd).reads.outline_append [] [] rfl
  rwa [blank_draw pen hd, List.append_nil, List.append_nil] at h

/-- Diagrams that differ in their operands alone are drawn as the same tags, with the same
attributes and with the same data between them, but for the content of `text` elements.
That content is the operand, on a line of its own and with no `<` in it, and nothing else of
the text depends on the operands. -/
theorem draw_labels_confined (pen : Pen Float32) {d d' : Diagram Float32}
    (hd : d.isEmpty = false) (hlabels : d.unlabelled = d'.unlabelled) :
    let text := (pen.draw d).document.toList
    let text' := (pen.draw d').document.toList
    outline text = outline text' ∧
    captions text = d.operands.map captionText ∧
    captions text' = d'.operands.map captionText ∧
    (∀ content ∈ captions text ++ captions text', '<' ∉ content) ∧
    text = (outline text).1 ++ Mark.fill (outline text).2 (d.operands.map captionText) ∧
    text' = (outline text).1 ++ Mark.fill (outline text).2 (d'.operands.map captionText) := by
  intro text text'
  -- Only a page with rungs has labels; the other one has as many.
  have hd' : d'.isEmpty = false := by
    rw [← d'.isEmpty_unlabelled, ← hlabels, d.isEmpty_unlabelled, hd]
  have htext : text = (pen.draw d).write := String.toList_ofList
  have htext' : text' = (pen.draw d').write := String.toList_ofList
  have houtline : outline text = outline text' := by
    rw [htext, htext', outline_draw pen hd, outline_draw pen hd', hlabels]
  have hcaptions : captions text = d.operands.map captionText := by
    rw [htext, captions_draw pen hd]
  have hcaptions' : captions text' = d'.operands.map captionText := by
    rw [htext', captions_draw pen hd']
  refine ⟨houtline, hcaptions, hcaptions', ?_, ?_, ?_⟩
  · intro content hcontent
    rw [hcaptions, hcaptions', ← List.map_append, List.mem_map] at hcontent
    obtain ⟨operand, -, rfl⟩ := hcontent
    exact angle_notMem_captionText operand
  · rw [← hcaptions, fill_outline]
  · rw [← hcaptions', houtline, fill_outline]

/-- A page with a contact and a coil of the same operand. -/
def toggle (operand : String) : Diagram Float32 where
  width := 100
  height := 50
  left := 0
  right := 100
  rungs := [{
    span := ⟨0, 50⟩
    coil := ⟨⟨70, 25⟩, operand, false, .coil⟩
    lines := [⟨25, [⟨⟨30, 25⟩, operand, true, .contact⟩], [.wire 0 100 25], false, false⟩]
    connectors := [] }]

/-- A pen without a background. -/
def blackPen : Pen Float32 := ⟨none, ⟨"black", "1"⟩, 2, 14, 30⟩

theorem draw_labels_confined_toggle :
    (toggle "<b>").isEmpty = false ∧ (toggle "<b>").unlabelled = (toggle "b\"").unlabelled ∧
    outline (blackPen.draw (toggle "<b>")).document.toList =
      outline (blackPen.draw (toggle "b\"")).document.toList ∧
    captions (blackPen.draw (toggle "<b>")).document.toList =
      ["\n&lt;b&gt;\n".toList, "\n&lt;b&gt;\n".toList] := by
  have hd : (toggle "<b>").isEmpty = false := rfl
  have hlabels : (toggle "<b>").unlabelled = (toggle "b\"").unlabelled := rfl
  obtain ⟨houtline, hcaptions, -⟩ := draw_labels_confined blackPen hd hlabels
  exact ⟨hd, hlabels, houtline, hcaptions⟩

end Svg
end LadderLogic
