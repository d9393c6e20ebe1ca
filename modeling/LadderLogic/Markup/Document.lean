/-
Reading a document into its tree.

`Document.read` follows the grammar of XML without document type declarations.  The
elements that are open at a place are kept as a stack of frames, each with the nodes
read so far inside it, so that one loop over the text reads the whole content.
-/

import LadderLogic.Markup.Tag

namespace LadderLogic.Markup

/-! ## Comments, instructions and the declaration -/

/-- The text contains the given one. -/
def contains (wanted : List Char) : List Char → Bool
  | [] => wanted.isEmpty
  | c :: rest => wanted.isPrefixOf (c :: rest) || contains wanted rest

/-- Reads a comment from behind its opening, which stood at the given offset.  Two hyphens
may only stand at its end. -/
def comment (offset : Nat) : Scan Unit := do
  let body ← Scan.charactersUntilText "-->"
  Scan.exactly "-->"
  if contains ['-', '-'] body || body.getLast? == some '-' then
    Scan.fail (.hyphensInComment offset)

/-- Reads a processing instruction from behind its opening. -/
def instruction : Scan Unit := do
  let _ ← Scan.name
  Scan.skipSpaces
  let _ ← Scan.charactersUntilText "?>"
  Scan.exactly "?>"

/-- Reads the white space between the parts of a declaration, which may be missing only
at its end. -/
def declarationSpaces : Scan Unit := do
  let a ← Scan.here
  match a.rest with
  | [] => return
  | c :: _ =>
    if isSpace c then Scan.skipSpaces
    else if a.startsWith "?>" then return
    else Scan.fail (.expectedSpace c a.offset)

/-- Reads an attribute of the declaration.  Its value is not looked at. -/
def declarationAttribute : Scan Unit := fun a => do
  let ⟨_, b, hb⟩ ← writtenAttribute a
  return ⟨(), b, hb.1⟩

/-- Reads the declaration from behind its opening. -/
def declaration : Scan Unit := do
  declarationSpaces
  let a ← Scan.here
  if !a.startsWith "version" then
    Scan.fail (.expectedText "version" a.offset)
  declarationAttribute
  declarationSpaces
  let a ← Scan.here
  if a.startsWith "encoding" then
    declarationAttribute
    declarationSpaces
  let a ← Scan.here
  if a.startsWith "standalone" then
    declarationAttribute
  Scan.skipSpaces
  Scan.exactly "?>"

/-! ## What begins where -/

/-- The constructs that the content of an element is made of. -/
inductive Construct where
  | comment
  | characterSection
  | strayDeclaration
  | instruction
  | endTag
  | startTag
  | text
  | unknown
deriving DecidableEq

/-- The construct that begins with the given text, which is not empty. -/
def Construct.of (rest : List Char) : Construct :=
  if "<!--".toList.isPrefixOf rest then .comment
  else if "<![CDATA[".toList.isPrefixOf rest then .characterSection
  else if "<!".toList.isPrefixOf rest then .unknown
  else if "<?xml ".toList.isPrefixOf rest then .strayDeclaration
  else if "<?".toList.isPrefixOf rest then .instruction
  else if "</".toList.isPrefixOf rest then .endTag
  else if rest == ['<'] then .unknown
  else if rest.head? == some '<' then .startTag
  else .text

/-- Reads white space, comments and instructions. -/
def miscellany (a : Cursor) : Except Error (Scanned Unit a) :=
  let b := a.dropWhile isSpace
  have hb : a.Reaches b := a.reaches_dropWhile isSpace
  match h : b.rest with
  | [] => .ok ⟨(), b, hb⟩
  | c :: rest =>
    have := hb.length_le
    have hne : b.rest ≠ [] := by simp [h]
    match Construct.of (c :: rest) with
    | .comment =>
      match comment b.offset (b.drop 4) with
      | .error e => .error e
      | .ok ⟨_, d, hd⟩ =>
        have := hd.length_lt hne
        match miscellany d with
        | .error e => .error e
        | .ok ⟨_, e, he⟩ => .ok ⟨(), e, hb.trans ((b.reaches_drop 4).trans (hd.trans he))⟩
    | .strayDeclaration => .error (.strayDeclaration b.offset)
    | .instruction =>
      match instruction (b.drop 2) with
      | .error e => .error e
      | .ok ⟨_, d, hd⟩ =>
        have := hd.length_lt hne
        match miscellany d with
        | .error e => .error e
        | .ok ⟨_, e, he⟩ => .ok ⟨(), e, hb.trans ((b.reaches_drop 2).trans (hd.trans he))⟩
    | _ => .ok ⟨(), b, hb⟩
termination_by a.rest.length

/-! ## Content -/

/-- An open element: where it began, its start tag, and the nodes read in it, the last
one first. -/
structure Frame where
  offset : Nat
  tag : Tag
  nodes : List Node

namespace Frame

/-- Adds a node. -/
def push (frame : Frame) (node : Node) : Frame := { frame with nodes := node :: frame.nodes }

/-- Adds text, which goes on the text node before it if there is one. -/
def pushText (frame : Frame) (start stop : Nat) (content : String) : Frame :=
  match frame.nodes with
  | .text span before :: rest =>
    { frame with nodes := .text (Span.between span.start stop) (before ++ content) :: rest }
  | _ => frame.push (.text (Span.between start stop) content)

/-- The element of a frame that ends at the given offset. -/
def close (frame : Frame) (stop : Nat) : Node :=
  .element (Span.between frame.offset stop) frame.tag.name.name frame.tag.attributes
    frame.nodes.reverse

end Frame

/-- Reads an end tag from behind its opening. -/
def endTag : Scan QualifiedName := do
  let name ← fun a => (qualifiedName a).map Passed.scanned
  Scan.skipSpaces
  Scan.character '>'
  return name

/-- Reads a section of character data from behind its opening. -/
def characterSection : Scan (List Char) := do
  let body ← Scan.charactersUntilText "]]>"
  Scan.exactly "]]>"
  return body

/-- Reads character data up to the next angle bracket. -/
def characterData : Scan (List Char) := Scan.charactersUntil (·.head? == some '<')

/-- Reads the content of the open elements, `inner` being the innermost one, until the
outermost is closed: its element, and what is left. -/
def content (inner : Frame) (outer : List Frame) (a : Cursor) : Except Error (Node × Cursor) :=
  match h : a.rest with
  | [] => .error .unclosedRoot
  | c :: rest =>
    have hne : a.rest ≠ [] := by simp [h]
    match Construct.of (c :: rest) with
    | .comment =>
      match comment a.offset (a.drop 4) with
      | .error e => .error e
      | .ok ⟨_, b, hb⟩ =>
        have := hb.length_lt hne
        content (inner.push (.aside (Span.between a.offset b.offset))) outer b
    | .characterSection =>
      match characterSection (a.drop 9) with
      | .error e => .error e
      | .ok ⟨body, b, hb⟩ =>
        have := hb.length_lt hne
        content (inner.pushText a.offset b.offset (String.ofList (decodeSection [] body))) outer b
    | .strayDeclaration => .error (.strayDeclaration a.offset)
    | .instruction =>
      match instruction (a.drop 2) with
      | .error e => .error e
      | .ok ⟨_, b, hb⟩ =>
        have := hb.length_lt hne
        content (inner.push (.aside (Span.between a.offset b.offset))) outer b
    | .endTag =>
      match endTag (a.drop 2) with
      | .error e => .error e
      | .ok ⟨name, b, hb⟩ =>
        if name = inner.tag.name then
          match outer with
          | [] => .ok (inner.close b.offset, b)
          | next :: outer =>
            have := hb.length_lt hne
            content (next.push (inner.close b.offset)) outer b
        else .error (.mismatchedTag inner.tag.name.text name.text a.offset)
    | .startTag =>
      match startTag inner.tag.scope (a.drop 1) with
      | .error e => .error e
      | .ok ⟨none, _, _⟩ => .error .unclosedRoot
      | .ok ⟨some tag, b, hb⟩ =>
        have := hb.length_lt hne
        if tag.isEmpty then content (inner.push ((Frame.mk a.offset tag []).close b.offset)) outer b
        else content ⟨a.offset, tag, []⟩ (inner :: outer) b
    | .text =>
      if isCharacter c then
        match characterData (a.drop 1) with
        | .error e => .error e
        | .ok ⟨body, b, hb⟩ =>
          have := hb.length_lt hne
          if contains [']', ']', '>'] (c :: body) then .error (.sectionEndInText b.offset)
          else match decodeText false [] ⟨a.offset, c :: body⟩ with
            | .error e => .error e
            | .ok decoded =>
              content (inner.pushText a.offset b.offset (String.ofList decoded)) outer b
      else .error (.forbiddenCharacter c a.offset)
    | .unknown => .error (.unknownToken a.offset)
termination_by a.rest.length

/-! ## Documents -/

/-- Moves over the byte order mark at the beginning of a text. -/
def skipMark (a : Cursor) : Cursor :=
  if a.rest.head? == some '\uFEFF' then a.drop 1 else a

/-- Reads the element at the cursor: its node if it is complete, and what is left. -/
def rootElement (a : Cursor) : Except Error (Option Node × Cursor) :=
  match startTag [] (a.drop 1) with
  | .error e => .error e
  | .ok ⟨none, b, _⟩ => .ok (none, b)
  | .ok ⟨some tag, b, _⟩ =>
    let frame : Frame := ⟨a.offset, tag, []⟩
    if tag.isEmpty then .ok (some (frame.close b.offset), b)
    else (content frame [] b).map fun (node, c) => (some node, c)

/-- Reads a document: the declaration, the root element, and what may stand around them. -/
def Document.read (source : List Char) : Except Error Node := do
  let a := skipMark (.start source)
  let a ← if a.startsWith "<?xml " then (declaration (a.drop 5)).map (·.next) else .ok a
  let a ← (miscellany a).map (·.next)
  if a.startsWith "<!DOCTYPE" then
    throw .doctype
  let (root, a) ← if a.startsWith "<" then rootElement a else .ok (none, a)
  let a ← (miscellany a).map (·.next)
  match a.rest, root with
  | _ :: _, _ => throw (.unknownToken a.offset)
  | [], none => throw .noRoot
  | [], some node => return node

end LadderLogic.Markup
