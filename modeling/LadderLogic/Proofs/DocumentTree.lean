/-
What stands where in a document.

The reader searches a document by walking down from a node, for connections with a flag for
what the parent is.  Here what it finds is said without the walk:

  * `Node.edges` lists every step from a parent to a child below a node, in the document
    order of the children; a pair is in it exactly when the one is a child of the other
    (`mem_edges`).  Where the steps lead is the `contents` of the node, in document order.
  * `Node.HasAttribute` splits the attributes of an element at the first one of a name
    (`attribute?_eq_some_iff`).
  * `Node.IsFirstNamed` splits such a listing at the first element of a name.  The ladder body
    is one (`ladderBody?_eq_some_iff`).
  * `Node.letters` are the characters of a text node.  Those below an element, one after
    another, are the text of the element (`toList_textContent`).
  * `Node.feeds` keeps the steps from a connection point to a connection.  These are the
    connections that the reader finds (`connections_eq_feeds`).

The same for texts and sources: `Text.IsTrimmed` says what trimming leaves without saying
how, and a source that is a document is not blank (`ofSource_eq_ofDocument`).
-/

import LadderLogic.Reading
import Mathlib.Data.List.TakeWhile

namespace LadderLogic

/-! ## Parents and children -/

namespace Markup
namespace Node

mutual

/-- The steps from a parent to a child below a node, in the document order of the
children. -/
def edges : Node → List (Node × Node)
  | element span name attributes children =>
    edgesFrom (element span name attributes children) children
  | text _ _ => []
  | aside _ => []

/-- The steps from a parent to the given children, and all steps below these. -/
def edgesFrom (parent : Node) : List Node → List (Node × Node)
  | [] => []
  | child :: rest => (parent, child) :: (edges child ++ edgesFrom parent rest)

end

theorem descendants_eq_cons (node : Node) :
    node.descendants = node :: node.properDescendants := by
  cases node with
  | element span name attributes children => rfl
  | text span content => rfl
  | aside span => rfl

/-- Everything below a node, in document order: where the steps below it lead. -/
def contents (node : Node) : List Node := node.edges.map Prod.snd

mutual

/-- The walk down passes what the steps lead to. -/
theorem properDescendants_eq_contents : ∀ node : Node, node.properDescendants = node.contents
  | element _ _ _ children => (map_snd_edgesFrom _ children).symm
  | text _ _ => rfl
  | aside _ => rfl

theorem map_snd_edgesFrom (parent : Node) :
    ∀ nodes : List Node, (edgesFrom parent nodes).map Prod.snd = descendantsOf nodes
  | [] => rfl
  | child :: rest => by
    rw [edgesFrom, descendantsOf, List.map_cons, List.map_append, map_snd_edgesFrom parent rest,
      descendants_eq_cons child, properDescendants_eq_contents child, List.cons_append]
    rfl

end

/-- A node and what is below it are what the walk down passes. -/
theorem descendants_eq_contents (node : Node) : node.descendants = node :: node.contents := by
  rw [descendants_eq_cons, properDescendants_eq_contents]

theorem mem_edges_of_leaf {node p c : Node} (hedges : node.edges = [])
    (hdescendants : node.descendants = [node]) (hchildren : node.children = []) :
    (p, c) ∈ node.edges ↔ p ∈ node.descendants ∧ c ∈ p.children := by
  rw [hedges, hdescendants, List.mem_singleton]
  constructor
  · intro h
    exact absurd h List.not_mem_nil
  · rintro ⟨rfl, hc⟩
    rw [hchildren] at hc
    exact absurd hc List.not_mem_nil

mutual

/-- A pair is among the steps when the one is below the node or the node itself, and the
other a child of it. -/
theorem mem_edges : ∀ (node : Node) {p c : Node},
    (p, c) ∈ node.edges ↔ p ∈ node.descendants ∧ c ∈ p.children
  | element span name attributes children, p, c => by
    rw [edges, mem_edgesFrom _ children, descendants_eq_cons, List.mem_cons, or_and_right]
    constructor
    · rintro (⟨rfl, hc⟩ | hbelow)
      · exact Or.inl ⟨rfl, hc⟩
      · exact Or.inr hbelow
    · rintro (⟨rfl, hc⟩ | hbelow)
      · exact Or.inl ⟨rfl, hc⟩
      · exact Or.inr hbelow
  | text _ _, _, _ => mem_edges_of_leaf rfl rfl rfl
  | aside _, _, _ => mem_edges_of_leaf rfl rfl rfl

theorem mem_edgesFrom (parent : Node) : ∀ (nodes : List Node) {p c : Node},
    (p, c) ∈ edgesFrom parent nodes ↔
      (p = parent ∧ c ∈ nodes) ∨ (p ∈ descendantsOf nodes ∧ c ∈ p.children)
  | [], p, c => by simp [edgesFrom, descendantsOf]
  | child :: rest, p, c => by
    -- the step to the child itself, one below the child, or one to or below its siblings
    rw [edgesFrom, descendantsOf, List.mem_cons, List.mem_append, mem_edges child,
      mem_edgesFrom parent rest, List.mem_append, List.mem_cons, Prod.mk.injEq]
    grind

end

/-! ## Elements of a name -/

/-- The node is an element of the name. -/
def HasName (wanted : String) (node : Node) : Prop :=
  ∃ span attributes children, node = .element span wanted attributes children

theorem isNamed_iff {wanted : String} {node : Node} :
    node.isNamed wanted = true ↔ node.HasName wanted := by
  cases node with
  | element span name attributes children => simp [isNamed, isElement, Node.name, HasName]
  | text span content => simp [isNamed, isElement, HasName]
  | aside span => simp [isNamed, isElement, HasName]

theorem HasName.name_eq {wanted : String} {node : Node} (h : node.HasName wanted) :
    node.name = wanted := by
  obtain ⟨span, attributes, children, rfl⟩ := h
  rfl

/-- The first attribute of the name that is in no namespace has the value. -/
def HasAttribute (wanted value : String) (node : Node) : Prop :=
  ∃ span name before after children,
    node = .element span name (before ++ ⟨none, wanted, value⟩ :: after) children ∧
      ∀ a ∈ before, a.address? = none → a.name ≠ wanted

theorem attribute?_eq_some_iff {wanted value : String} {node : Node} :
    node.attribute? wanted = some value ↔ node.HasAttribute wanted value := by
  constructor
  · intro h
    cases node with
    | element span name attributes children =>
      rw [attribute?, Option.map_eq_some_iff] at h
      obtain ⟨a, hfind, rfl⟩ := h
      obtain ⟨hfound, before, after, rfl, hbefore⟩ := List.find?_eq_some_iff_append.1 hfind
      rw [Bool.and_eq_true, beq_iff_eq, beq_iff_eq] at hfound
      obtain ⟨haddress, rfl⟩ := hfound
      refine ⟨span, name, before, after, children, ?_, ?_⟩
      · rw [← haddress]
      · intro b hb hnone hname
        have := hbefore b hb
        simp [hnone, hname] at this
    | text span content => cases h
    | aside span => cases h
  · rintro ⟨span, name, before, after, children, rfl, hbefore⟩
    rw [attribute?, List.find?_append, List.find?_eq_none.2, Option.none_or,
      List.find?_cons_of_pos (by simp), Option.map_some]
    intro a ha hmatch
    rw [Bool.and_eq_true, beq_iff_eq, beq_iff_eq] at hmatch
    exact hbefore a ha hmatch.1 hmatch.2

/-- Only elements have attributes. -/
theorem HasAttribute.hasName {wanted value : String} {node : Node}
    (h : node.HasAttribute wanted value) : node.HasName node.name := by
  obtain ⟨span, name, before, after, children, rfl, -⟩ := h
  exact ⟨span, _, children, rfl⟩

/-- The first of some nodes that is an element of the name. -/
structure IsFirstNamed (wanted : String) (nodes : List Node) (found : Node) : Prop where
  named : found.HasName wanted
  first : ∃ before after, nodes = before ++ found :: after ∧ ∀ n ∈ before, ¬ n.HasName wanted

theorem find?_isNamed_eq_some_iff {wanted : String} {nodes : List Node} {found : Node} :
    nodes.find? (·.isNamed wanted) = some found ↔ IsFirstNamed wanted nodes found := by
  rw [List.find?_eq_some_iff_append]
  simp only [Bool.not_eq_true', ← Bool.not_eq_true, isNamed_iff]
  constructor
  · rintro ⟨hnamed, hfirst⟩
    exact ⟨hnamed, hfirst⟩
  · rintro ⟨hnamed, hfirst⟩
    exact ⟨hnamed, hfirst⟩

theorem find?_isNamed_eq_none_iff {wanted : String} {nodes : List Node} :
    nodes.find? (·.isNamed wanted) = none ↔ ∀ n ∈ nodes, ¬ n.HasName wanted := by
  rw [List.find?_eq_none]
  simp only [isNamed_iff]

/-! ## Text below an element -/

/-- The characters of a text node; other nodes have none of their own. -/
def letters : Node → List Char
  | text _ content => content.toList
  | _ => []

/-- The text of an element is that of the text nodes below it, in document order. -/
theorem toList_textContent {wanted : String} {node : Node} (h : node.HasName wanted) :
    node.textContent.toList = node.contents.flatMap letters := by
  obtain ⟨span, attributes, children, rfl⟩ := h
  rw [textContent, String.toList_join, List.flatMap_map, descendants_eq_contents, List.flatMap_cons]
  -- the element itself adds nothing
  refine (List.nil_append _).trans (congrArg (List.flatMap · _) (funext fun n => ?_))
  cases n with
  | element => rfl
  | text => rfl
  | aside => rfl

/-! ## Children of a name under parents of a name -/

/-- The step is from a parent of the one name to a child of the other. -/
def joins (parent child : String) (edge : Node × Node) : Bool :=
  edge.1.isNamed parent && edge.2.isNamed child

mutual

/-- The walk down with a flag finds the children that the steps lead to. -/
theorem childrenNamed_eq (parent child : String) : ∀ node : Node,
    node.childrenNamed parent child = (node.edges.filter (joins parent child)).map Prod.snd
  | element span name attributes children =>
    childrenNamedOf_eq parent child (element span name attributes children) children
  | text _ _ => rfl
  | aside _ => rfl

theorem childrenNamedOf_eq (parent child : String) (above : Node) : ∀ nodes : List Node,
    childrenNamedOf parent child (above.isNamed parent) nodes =
      ((edgesFrom above nodes).filter (joins parent child)).map Prod.snd
  | [] => rfl
  | node :: rest => by
    rw [childrenNamedOf, edgesFrom, childrenNamed_eq parent child node,
      childrenNamedOf_eq parent child above rest]
    -- the flag is the name of the parent, so both sides take the node or leave it together
    have hjoins : joins parent child (above, node) =
        (above.isNamed parent && node.isNamed child) := rfl
    cases h : (above.isNamed parent && node.isNamed child) with
    | true =>
      rw [List.filter_cons_of_pos (by rw [hjoins, h]), List.filter_append, List.map_cons,
        List.map_append, if_pos rfl, List.append_assoc, List.singleton_append]
    | false =>
      rw [List.filter_cons_of_neg (by rw [hjoins, h]; exact Bool.false_ne_true),
        List.filter_append, List.map_append, if_neg Bool.false_ne_true, List.nil_append]

end

/-- The connections below a node that stand directly in a connection point, in document
order. -/
def feeds (node : Node) : List Node :=
  (node.edges.filter (joins "connectionPointIn" "connection")).map Prod.snd

theorem mem_feeds {node c : Node} :
    c ∈ node.feeds ↔ ∃ p ∈ node.descendants, p.isNamed "connectionPointIn" = true ∧
      c ∈ p.children ∧ c.isNamed "connection" = true := by
  constructor
  · intro hc
    obtain ⟨⟨p, c'⟩, hedge, rfl⟩ := List.mem_map.1 hc
    obtain ⟨hmem, hjoins⟩ := List.mem_filter.1 hedge
    obtain ⟨hp, hchild⟩ := (mem_edges node).1 hmem
    obtain ⟨hpoint, hconnection⟩ := Bool.and_eq_true_iff.1 hjoins
    exact ⟨p, hp, hpoint, hchild, hconnection⟩
  · rintro ⟨p, hp, hpoint, hchild, hconnection⟩
    have hedge : (p, c) ∈ node.edges := (mem_edges node).2 ⟨hp, hchild⟩
    have hjoins : joins "connectionPointIn" "connection" (p, c) = true :=
      Bool.and_eq_true_iff.2 ⟨hpoint, hconnection⟩
    exact List.mem_map.2 ⟨(p, c), List.mem_filter.2 ⟨hedge, hjoins⟩, rfl⟩

end Node
end Markup

open Markup (Node)

theorem connections_eq_feeds (node : Node) : connections node = node.feeds :=
  Node.childrenNamed_eq "connectionPointIn" "connection" node

/-- The ladder body is the first element named `LD` of the document. -/
theorem ladderBody?_eq_some_iff {root body : Node} :
    ladderBody? root = some body ↔ Node.IsFirstNamed "LD" (root :: root.contents) body := by
  rw [ladderBody?, Node.descendants_eq_contents]
  exact Node.find?_isNamed_eq_some_iff

/-! ## Trimmed texts -/

namespace Text

/-- What is left of a text when the white space around it is taken away. -/
structure IsTrimmed (text trimmed : List Char) : Prop where
  around : ∃ before after, text = before ++ trimmed ++ after ∧
    (∀ c ∈ before, isBlank c = true) ∧ ∀ c ∈ after, isBlank c = true
  first : ∀ c ∈ trimmed.head?, isBlank c = false
  last : ∀ c ∈ trimmed.getLast?, isBlank c = false

/-- Leading blanks are dropped up to a character that is none. -/
theorem dropWhile_blank_append {before rest : List Char} (hbefore : ∀ c ∈ before, isBlank c = true)
    (hrest : ∀ c ∈ rest.head?, isBlank c = false) :
    (before ++ rest).dropWhile isBlank = rest := by
  have hdrop : before.dropWhile isBlank = [] := List.dropWhile_eq_nil_iff.2 hbefore
  rw [List.dropWhile_append, hdrop, List.isEmpty_nil, if_pos rfl]
  cases rest with
  | nil => rfl
  | cons c rest =>
    have hc : isBlank c = false := hrest c rfl
    exact List.dropWhile_cons_of_neg (by rw [hc]; exact Bool.false_ne_true)

/-- Trimming is the only way to take the white space away. -/
theorem isTrimmed_iff {text trimmed : List Char} :
    IsTrimmed text trimmed ↔ trimmed = trim text := by
  constructor
  · rintro ⟨⟨before, after, rfl, hbefore, hafter⟩, hfirst, hlast⟩
    cases trimmed with
    | nil =>
      -- nothing but blanks: they all go from the left
      have hall : ∀ c ∈ before ++ [] ++ after, isBlank c = true := by
        intro c hc
        rw [List.append_nil] at hc
        rcases List.mem_append.1 hc with h | h
        · exact hbefore c h
        · exact hafter c h
      rw [trim, List.dropWhile_eq_nil_iff.2 hall]
      rfl
    | cons c rest =>
      have hleft : (before ++ (c :: rest) ++ after).dropWhile isBlank = c :: rest ++ after := by
        rw [List.append_assoc]
        exact dropWhile_blank_append hbefore hfirst
      have hright : (after.reverse ++ (c :: rest).reverse).dropWhile isBlank =
          (c :: rest).reverse := by
        refine dropWhile_blank_append ?_ ?_
        · intro x hx
          exact hafter x (List.mem_reverse.1 hx)
        · rw [List.head?_reverse]
          exact hlast
      rw [trim, hleft, List.reverse_append, hright, List.reverse_reverse]
  · rintro rfl
    -- the text is its leading blanks, what is left, and its trailing blanks
    have hleft := List.takeWhile_append_dropWhile (p := isBlank) (l := text)
    have hright := List.takeWhile_append_dropWhile (p := isBlank)
      (l := (text.dropWhile isBlank).reverse)
    have hrest : text.dropWhile isBlank =
        trim text ++ ((text.dropWhile isBlank).reverse.takeWhile isBlank).reverse := by
      rw [trim, ← List.reverse_append, hright, List.reverse_reverse]
    refine ⟨⟨text.takeWhile isBlank,
      ((text.dropWhile isBlank).reverse.takeWhile isBlank).reverse, ?_, ?_, ?_⟩, ?_, ?_⟩
    · rw [List.append_assoc, ← hrest, hleft]
    · intro c hc
      exact List.mem_takeWhile_imp hc
    · intro c hc
      exact List.mem_takeWhile_imp (List.mem_reverse.1 hc)
    · intro c hc
      -- the first character left is the first of what the left side was dropped to
      have hhead : (text.dropWhile isBlank).head? = some c := by
        rw [hrest, List.head?_append, hc]
        rfl
      have := List.head?_dropWhile_not isBlank text
      rw [hhead] at this
      simpa using this
    · intro c hc
      have hhead : ((text.dropWhile isBlank).reverse.dropWhile isBlank).head? = some c := by
        rw [trim, List.getLast?_reverse] at hc
        exact hc
      have := List.head?_dropWhile_not isBlank (text.dropWhile isBlank).reverse
      rw [hhead] at this
      simpa using this

end Text

/-! ## Blank sources -/

namespace Markup

theorem isPrefixOf_of_ne (opening : String) (tail : List Char) {c : Char} {rest : List Char}
    (hopening : opening.toList = '<' :: tail) (hc : c ≠ '<') :
    opening.toList.isPrefixOf (c :: rest) = false := by
  have hne : ('<' == c) = false := beq_eq_false_iff_ne.2 (Ne.symm hc)
  rw [hopening, List.isPrefixOf, hne, Bool.false_and]

theorem startsWith_of_ne (opening : String) (tail : List Char) {a : Cursor}
    (hopening : opening.toList = '<' :: tail) (ha : ∀ c ∈ a.rest, c ≠ '<') :
    a.startsWith opening = false := by
  rw [Cursor.startsWith]
  cases hrest : a.rest with
  | nil =>
    rw [hopening]
    rfl
  | cons c rest =>
    rw [hrest] at ha
    exact isPrefixOf_of_ne opening tail hopening (ha c List.mem_cons_self)

/-- Every construct but text begins with an angle bracket. -/
theorem Construct.of_ne {c : Char} {rest : List Char} (hc : c ≠ '<') :
    Construct.of (c :: rest) = .text := by
  have hlone : (c :: rest == ['<']) = false := by
    rw [List.cons_beq_cons, beq_eq_false_iff_ne.2 hc, Bool.false_and]
  have hhead : ((c :: rest).head? == some '<') = false := by
    simpa using hc
  simp only [Construct.of, isPrefixOf_of_ne "<!--" "!--".toList rfl hc,
    isPrefixOf_of_ne "<![CDATA[" "![CDATA[".toList rfl hc,
    isPrefixOf_of_ne "<!" "!".toList rfl hc,
    isPrefixOf_of_ne "<?xml " "?xml ".toList rfl hc,
    isPrefixOf_of_ne "<?" "?".toList rfl hc,
    isPrefixOf_of_ne "</" "/".toList rfl hc, hlone, hhead, Bool.false_eq_true,
    if_false]

theorem miscellany_of_ne {a : Cursor} (ha : ∀ c ∈ a.rest, c ≠ '<') :
    (miscellany a).map (·.next) = .ok (a.dropWhile isSpace) := by
  rw [miscellany]
  split
  · rfl
  · next c rest hrest =>
    have hmem : c ∈ (a.dropWhile isSpace).rest := by
      rw [hrest]
      exact List.mem_cons_self
    have hc : c ≠ '<' := ha c ((List.dropWhile_suffix isSpace).subset hmem)
    simp only [Construct.of_ne hc]
    rfl

/-- White space alone is no document. -/
theorem Document.read_ne_of_blank {source : List Char} (h : Text.allBlank source = true)
    (root : Node) : Document.read source ≠ .ok root := by
  have hblank : ∀ c ∈ source, Text.isBlank c = true := by
    simpa [Text.allBlank] using h
  have hne : ∀ c ∈ (Cursor.start source).rest, c ≠ '<' := by
    rintro c hc rfl
    exact absurd (hblank _ hc) (by decide)
  have hmark : skipMark (.start source) = .start source := by
    rw [skipMark, if_neg]
    cases source with
    | nil => decide
    | cons c rest =>
      -- a byte order mark does not count as white space
      intro hmark
      have hc : c = '\uFEFF' := by simpa [Cursor.start] using hmark
      have hblank := hblank c List.mem_cons_self
      rw [hc] at hblank
      exact absurd hblank (by decide)
  have hrest : ∀ c ∈ ((Cursor.start source).dropWhile isSpace).rest, c ≠ '<' := by
    intro c hc
    exact hne c ((List.dropWhile_suffix isSpace).subset hc)
  have hdeclaration : (Cursor.start source).startsWith "<?xml " = false :=
    startsWith_of_ne "<?xml " "?xml ".toList rfl hne
  have hdoctype : ((Cursor.start source).dropWhile isSpace).startsWith "<!DOCTYPE" = false :=
    startsWith_of_ne "<!DOCTYPE" "!DOCTYPE".toList rfl hrest
  have hroot : ((Cursor.start source).dropWhile isSpace).startsWith "<" = false :=
    startsWith_of_ne "<" [] rfl hrest
  -- nothing opens anywhere, so that the reader comes to the end without a root
  rw [Document.read]
  dsimp only
  rw [hmark]
  simp only [hdeclaration, hdoctype, hroot, miscellany_of_ne hne, miscellany_of_ne hrest,
    Bool.false_eq_true, if_false, bind, Except.bind, pure, Except.pure]
  split
  · intro hok
    cases hok
  · intro hok
    cases hok
  · next hnone => cases hnone

end Markup

/-- A document is read from its tree. -/
theorem Reading.ofSource_eq_ofDocument {source : String} {root : Node}
    (h : Markup.Document.read source.toList = .ok root) :
    ofSource source = ofDocument source.toList root := by
  have hblank : Text.allBlank source.toList = false := by
    cases hall : Text.allBlank source.toList with
    | true => exact absurd h (Markup.Document.read_ne_of_blank hall root)
    | false => rfl
  simp only [ofSource, hblank, h, Bool.false_eq_true, if_false]

end LadderLogic
