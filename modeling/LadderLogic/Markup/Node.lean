/-
The tree of a document.

Each node has the byte span it was read from.  Names are compared without their
qualifiers, and an attribute is looked up among those without one.
-/

import LadderLogic.Text.Span

namespace LadderLogic.Markup

/-- An attribute with the address of its namespace, if it is in one. -/
structure Attribute where
  address? : Option String
  name : String
  value : String
deriving DecidableEq

/-- A node of a document.  An aside is a comment or a processing instruction. -/
inductive Node where
  | element (span : Span) (name : String) (attributes : List Attribute) (children : List Node)
  | text (span : Span) (content : String)
  | aside (span : Span)

namespace Node

/-- Where the node was read from. -/
def span : Node → Span
  | element s .. => s
  | text s _ => s
  | aside s => s

/-- The node is an element. -/
def isElement : Node → Bool
  | element .. => true
  | _ => false

/-- The name of an element, without its qualifier; nothing for other nodes. -/
def name : Node → String
  | element _ n .. => n
  | _ => ""

/-- The nodes directly below. -/
def children : Node → List Node
  | element _ _ _ c => c
  | _ => []

/-- The node is an element with the given name. -/
def isNamed (wanted : String) (node : Node) : Bool := node.isElement && node.name == wanted

/-- The value of an attribute that is in no namespace. -/
def attribute? (wanted : String) : Node → Option String
  | element _ _ attributes _ =>
    (attributes.find? fun a => a.address? == none && a.name == wanted).map (·.value)
  | _ => none

mutual

/-- The node and everything below it, in document order. -/
def descendants : Node → List Node
  | node@(element _ _ _ children) => node :: descendantsOf children
  | node => [node]

/-- The given nodes and everything below them, in document order. -/
def descendantsOf : List Node → List Node
  | [] => []
  | node :: rest => descendants node ++ descendantsOf rest

end

/-- Everything below the node, in document order. -/
def properDescendants (node : Node) : List Node := descendantsOf node.children

/-- The text of a node: that of all text nodes in it, in document order. -/
def textContent (node : Node) : String :=
  String.join (node.descendants.map fun
    | text _ content => content
    | _ => "")

mutual

/-- The elements below the node that have the one name, and a parent with the other, in
document order. -/
def childrenNamed (parent child : String) : Node → List Node
  | element _ name _ children => childrenNamedOf parent child (name == parent) children
  | _ => []

/-- As `childrenNamed`, for nodes whose own parent has the name or has not. -/
def childrenNamedOf (parent child : String) (inParent : Bool) : List Node → List Node
  | [] => []
  | node :: rest =>
    (if inParent && node.isNamed child then [node] else []) ++
      childrenNamed parent child node ++ childrenNamedOf parent child inParent rest

end

/-- The start tag of an element: its span up to the first node in it, or all of it. -/
def startTag (node : Node) : Span :=
  match node.children with
  | [] => node.span
  | child :: _ => Span.between node.span.start child.span.start

end Node

end LadderLogic.Markup
