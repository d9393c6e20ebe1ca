/-
SVG documents and their text.

A document is a tree of elements and texts.  Values of attributes keep their numbers, so
that what is drawn can be read off the tree; only the writer turns them into digits, and
only the writer escapes.
-/

import LadderLogic.Diagram
import LadderLogic.Number.Numeral

namespace LadderLogic.Svg

/-! ## Trees -/

/-- A step of a path. -/
inductive PathStep (α : Type) where
  /-- Go to a point without drawing. -/
  | move (target : Point α)
  /-- The smaller arc of a circle to a point, the way its angle grows if `sweep` holds. -/
  | arc (radius : α) (sweep : Bool) (target : Point α)
deriving DecidableEq

/-- The value of an attribute. -/
inductive Value (α : Type) where
  | text (content : String)
  | number (x : α)
  | numbers (xs : List α)
  | path (steps : List (PathStep α))
deriving DecidableEq

/-- An attribute. -/
structure Attribute (α : Type) where
  name : String
  value : Value α
deriving DecidableEq

/-- A part of a document. -/
inductive Node (α : Type) where
  | element (name : String) (attributes : List (Attribute α)) (children : List (Node α))
  | text (content : String)

/-! ## Text -/

/-- How a character is written in a text. -/
def escapeText (c : Char) : List Char :=
  if c = '&' then "&amp;".toList
  else if c = '<' then "&lt;".toList
  else if c = '>' then "&gt;".toList
  else [c]

/-- How a character is written in a value. -/
def escapeValue (c : Char) : List Char :=
  if c = '"' then "&quot;".toList
  else if c = '\'' then "&apos;".toList
  else escapeText c

/-- A number in digits. -/
def digits (x : Float32) : List Char := Numeral.write .display (.ofFloat32 x)

/-- A step of a path: a letter, and numbers with commas between them. -/
def PathStep.write : PathStep Float32 → List Char
  | move target => 'M' :: (digits target.x ++ ',' :: digits target.y)
  | arc radius sweep target =>
    'A' :: (digits radius ++ ',' :: digits radius ++ ",0,0,".toList
      ++ (if sweep then '1' else '0') :: ',' :: digits target.x ++ ',' :: digits target.y)

/-- The text of a value, before escaping. -/
def Value.write : Value Float32 → List Char
  | text content => content.toList
  | number x => digits x
  | numbers xs => [' '].intercalate (xs.map digits)
  | path steps => [' '].intercalate (steps.map PathStep.write)

/-- An attribute with the space before it. -/
def Attribute.write (a : Attribute Float32) : List Char :=
  ' ' :: (a.name.toList ++ '=' :: '"' :: (a.value.write.flatMap escapeValue ++ ['"']))

namespace Node

mutual

/-- The text of a node.  An element without children is closed at once; otherwise each
child, and the closing tag, stands on a line of its own. -/
def write : Node Float32 → List Char
  | text content => content.toList.flatMap escapeText
  | element name attributes [] =>
    '<' :: (name.toList ++ attributes.flatMap Attribute.write ++ ['/', '>'])
  | element name attributes (child :: rest) =>
    '<' :: (name.toList ++ attributes.flatMap Attribute.write ++ '>' :: '\n' :: (write child
      ++ (writeRest rest ++ '\n' :: '<' :: '/' :: (name.toList ++ ['>']))))

/-- The children after the first one, each on a new line. -/
def writeRest : List (Node Float32) → List Char
  | [] => []
  | child :: rest => '\n' :: (write child ++ writeRest rest)

end

/-- The text of a document. -/
def document (n : Node Float32) : String := String.ofList n.write

end Node

end LadderLogic.Svg
