/-
Reading a ladder program from the source text of a document.

The ladder body is the first element named `LD`; each element directly in it is one
element of the program.  `Body.read` goes through them with one state: the elements so
far, where each identifier was first seen, the references still to be checked, and the
faults found.  `Reading.ofSource` gives the program with its warnings, or the error
that keeps it from being read.
-/

import LadderLogic.Diagnostic
import LadderLogic.Element
import LadderLogic.Markup.Document
import LadderLogic.Text.Blank

namespace LadderLogic

/-! ## Faults -/

/-- What can be wrong with the source of a program. -/
inductive Fault where
  /-- The source is no document. -/
  | malformedDocument (error : Markup.Error)
  /-- The document has no ladder body. -/
  | missingBody (root : String) (tag : Span)
  /-- An element has no identifier. -/
  | missingIdentifier (name : String) (tag : Span)
  /-- An element has the identifier of an earlier one. -/
  | repeatedIdentifier (id : String) (tag first : Span)
  /-- A connection refers to nothing. -/
  | missingReference (connection : Span)
  /-- A connection refers to an identifier that no element has. -/
  | unknownReference (id : String) (connection : Span)
deriving DecidableEq

/-- The diagnostic of a fault found in the given source. -/
def Fault.diagnostic (source : List Char) : Fault → Diagnostic
  | malformedDocument error =>
    { severity := .error
      code := some .malformedDocument
      message := "malformed XML: " ++ error.message source
      labels := [⟨Span.atPosition source (error.position source), "reading stopped here", true⟩]
      help := some "the input must be a well-formed PLCopen XML document" }
  | missingBody root tag =>
    { severity := .error
      code := some .missingBody
      message := "document has no ladder body"
      labels := [⟨tag, "`" ++ root ++ "` contains no `<LD>` element", true⟩]
      help := some "ladder programs are read from the `<LD>` element of a POU body" }
  | missingIdentifier name tag =>
    { severity := .warning
      code := some .missingIdentifier
      message := "`" ++ name ++ "` element has no identifier"
      labels := [⟨tag, "skipped", true⟩]
      help := some "add a `localId` attribute so other elements can refer to it" }
  | repeatedIdentifier id tag first =>
    { severity := .warning
      code := some .repeatedIdentifier
      message := "element `" ++ id ++ "` is defined multiple times"
      labels := [⟨tag, "this definition replaces the first one", true⟩,
        ⟨first, "first defined here", false⟩]
      help := some "give every ladder element a unique `localId`" }
  | missingReference connection =>
    { severity := .warning
      code := some .missingReference
      message := "connection has no reference"
      labels := [⟨connection, "skipped", true⟩]
      help := some "add a `refLocalId` attribute naming the upstream element" }
  | unknownReference id connection =>
    { severity := .warning
      code := some .unknownReference
      message := "connection refers to unknown element `" ++ id ++ "`"
      labels := [⟨connection, "no element with this id", true⟩]
      help := some "branch tracing stops at this reference" }

/-! ## Parts of an element -/

open Markup (Node)

/-- An attribute that is there and not empty. -/
def filled? (node : Node) (wanted : String) : Option String :=
  (node.attribute? wanted).filter (!·.isEmpty)

/-- The identifier of an element. -/
def identifier? (node : Node) : Option String := filled? node "localId"

/-- The connections that feed an element. -/
def connections (node : Node) : List Node := node.childrenNamed "connectionPointIn" "connection"

/-- What a connection refers to. -/
def reference? (connection : Node) : Option String := filled? connection "refLocalId"

/-- The variable of an element: the text of the first `variable` in it, without the white
space around it. -/
def operand (node : Node) : String :=
  match node.properDescendants.find? (·.isNamed "variable") with
  | some found => String.ofList (Text.trim found.textContent.toList)
  | none => ""

/-- The element is negated. -/
def isNegated (node : Node) : Bool :=
  let value := node.attribute? "negated"
  value == some "true" || value == some "1"

/-- The program element that a node with the given identifier stands for. -/
def elementOf (node : Node) (id : String) : Element where
  id := id
  kind := .ofTag node.name
  tag := node.name
  operand := operand node
  negated := isNegated node
  inputs := (connections node).filterMap reference?

/-! ## The body -/

/-- How far a ladder body has been read. -/
structure Body where
  elements : ElementMap
  /-- Where each identifier was first seen. -/
  firstSeen : List (String × Span)
  /-- What connections refer to, and from where. -/
  references : List (String × Span)
  /-- The faults found, in order. -/
  faults : List Fault

namespace Body

/-- Nothing has been read. -/
def empty : Body := ⟨.empty, [], [], []⟩

/-- Notes a fault. -/
def note (body : Body) (fault : Fault) : Body := { body with faults := body.faults ++ [fault] }

/-- Reads a connection. -/
def readConnection (body : Body) (connection : Node) : Body :=
  match reference? connection with
  | some id => { body with references := body.references ++ [(id, connection.span)] }
  | none => body.note (.missingReference connection.span)

/-- Notes where an identifier was seen, the first time; later on that it is repeated. -/
def see (body : Body) (id : String) (tag : Span) : Body :=
  match body.firstSeen.lookup id with
  | some first => body.note (.repeatedIdentifier id tag first)
  | none => { body with firstSeen := body.firstSeen ++ [(id, tag)] }

/-- Reads one element of the body.  An element without an identifier is left out, and
so are its connections. -/
def readElement (body : Body) (node : Node) : Body :=
  match identifier? node with
  | none => body.note (.missingIdentifier node.name node.startTag)
  | some id =>
    let body := (connections node).foldl readConnection body
    let body := body.see id node.startTag
    { body with elements := body.elements.insert (elementOf node id) }

/-- Notes the references to identifiers that no element has. -/
def checkReferences (body : Body) : Body :=
  body.references.foldl
    (fun checked (id, connection) =>
      if body.elements.contains id then checked
      else checked.note (.unknownReference id connection))
    body

/-- Reads a ladder body. -/
def read (node : Node) : Body :=
  ((node.children.filter Node.isElement).foldl readElement empty).checkReferences

end Body

/-! ## The program -/

/-- A program as it was read, with the warnings about it. -/
structure Reading where
  elements : ElementMap
  warnings : List Diagnostic

/-- The ladder body of a document: the first element named `LD`. -/
def ladderBody? (root : Node) : Option Node := root.descendants.find? (·.isNamed "LD")

namespace Reading

/-- No program and no warnings. -/
def empty : Reading := ⟨.empty, []⟩

/-- The program of a document. -/
def ofDocument (source : List Char) (root : Node) : Except ReadError Reading :=
  match ladderBody? root with
  | none => .error ⟨[Fault.diagnostic source (.missingBody root.name root.startTag)]⟩
  | some node =>
    let body := Body.read node
    let diagnostics := body.faults.map (Fault.diagnostic source)
    (diagnostics.foldl Diagnostic.Collector.emit .empty).finish.map
      fun warnings => ⟨body.elements, warnings⟩

/-- The program of a source text.  A text of nothing but white space is the empty
program. -/
def ofSource (source : String) : Except ReadError Reading :=
  let text := source.toList
  if Text.allBlank text then .ok empty
  else
    match Markup.Document.read text with
    | .error e => .error ⟨[Fault.diagnostic text (.malformedDocument e)]⟩
    | .ok root => ofDocument text root

/-- The elements of a source text, none if it cannot be read. -/
def elementsOf (source : String) : ElementMap :=
  match ofSource source with
  | .ok reading => reading.elements
  | .error _ => .empty

end Reading

end LadderLogic
