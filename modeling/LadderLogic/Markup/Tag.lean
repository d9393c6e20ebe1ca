/-
Start tags: names, attributes and the namespaces they are in.

The attributes of a tag are read one after another.  Those that declare a namespace
are taken out on the way; when the tag ends, the qualifiers of the others and of the
tag itself are looked up.
-/

import LadderLogic.Markup.Name
import LadderLogic.Markup.Node
import LadderLogic.Markup.Reference

namespace LadderLogic.Markup

/-! ## Attributes as written -/

/-- An attribute as it is written: its name, and its value before decoding with the
offset of that value. -/
structure WrittenAttribute where
  offset : Nat
  name : QualifiedName
  valueOffset : Nat
  value : List Char
deriving DecidableEq

/-- Reads an attribute from its equals sign on: the offset of the value, and the value. -/
def attributeValue : Scan (Nat × List Char) := do
  Scan.skipSpaces
  Scan.character '='
  Scan.skipSpaces
  let mark ← Scan.quote
  let a ← Scan.here
  let value ← Scan.charactersUntil fun rest =>
    rest.head? == some mark || rest.head? == some '<'
  Scan.character mark
  return (a.offset, value)

/-- Reads an attribute. -/
def writtenAttribute (a : Cursor) : Except Error (Passed WrittenAttribute a) := do
  let ⟨name, b, hb⟩ ← qualifiedName a
  let ⟨(valueOffset, value), c, hc⟩ ← attributeValue b
  return ⟨⟨a.offset, name, valueOffset, value⟩, c, hb.trans_reaches hc⟩

/-! ## Namespaces -/

/-- The address that belongs to the qualifier `xml`. -/
def xmlAddress : String := "http://www.w3.org/XML/1998/namespace"

/-- The address that belongs to the qualifier `xmlns`. -/
def declarationAddress : String := "http://www.w3.org/2000/xmlns/"

/-- Qualifiers and the addresses they stand for, innermost first. -/
abbrev Scope := List (String × String)

/-- An attribute that declares nothing, with its decoded value. -/
structure KeptAttribute where
  offset : Nat
  name : QualifiedName
  value : String
deriving DecidableEq

/-- What has been read of a start tag. -/
structure TagDraft where
  declared : Scope
  kept : List KeptAttribute
deriving DecidableEq

namespace TagDraft

/-- A tag without attributes. -/
def empty : TagDraft := ⟨[], []⟩

/-- Adds an attribute to a tag: as a declaration, or as one to be kept.  The qualifier
`xml` needs no declaration, and a correct one leaves no trace; nor does that of a
namespace without qualifier, which attributes are never in. -/
def add (draft : TagDraft) (offset : Nat) (name : QualifiedName) (value : String) :
    Except Error TagDraft :=
  if name.qualifier = "xmlns" then
    if value = declarationAddress then .error (.reservedAddress offset)
    else if name.name = "xml" then
      if value = xmlAddress then .ok draft else .error (.rebound offset)
    else if value = xmlAddress then .error (.misplacedAddress offset)
    else if (draft.declared.lookup name.name).isSome then
      .error (.repeatedNamespace name.name offset)
    else .ok { draft with declared := (name.name, value) :: draft.declared }
  else if name.name = "xmlns" then
    if value = xmlAddress then .error (.misplacedAddress offset)
    else if value = declarationAddress then .error (.reservedAddress offset)
    else .ok draft
  else
    .ok { draft with kept := draft.kept ++ [⟨offset, name, value⟩] }

end TagDraft

/-- The namespace of an attribute: none without a qualifier, and otherwise the address the
qualifier stands for, if it stands for one. -/
def Scope.ofAttribute? (scope : Scope) (qualifier : String) : Option (Option String) :=
  if qualifier.isEmpty then some none
  else if qualifier = "xml" then some (some xmlAddress)
  else (scope.lookup qualifier).map some

/-- Looks up the qualifiers of attributes in order.  No two attributes of a tag have the
same name in the same namespace. -/
def Scope.resolve (scope : Scope) (done : List Attribute) :
    List KeptAttribute → Except Error (List Attribute)
  | [] => .ok done
  | kept :: rest =>
    match scope.ofAttribute? kept.name.qualifier with
    | none => .error (.unknownQualifier kept.name.qualifier kept.offset)
    | some address? =>
      if done.any fun a => a.address? == address? && a.name == kept.name.name then
        .error (.repeatedAttribute kept.name.name kept.offset)
      else scope.resolve (done ++ [⟨address?, kept.name.name, kept.value⟩]) rest

/-! ## Start tags -/

/-- A start tag with the namespaces in force inside its element.  The tag of an empty
element is also its end. -/
structure Tag where
  name : QualifiedName
  attributes : List Attribute
  scope : Scope
  isEmpty : Bool
deriving DecidableEq

/-- Completes a tag whose name stood at the given offset. -/
def TagDraft.finish (draft : TagDraft) (inherited : Scope) (offset : Nat) (name : QualifiedName)
    (isEmpty : Bool) : Except Error Tag := do
  let scope := draft.declared ++ inherited
  let attributes ← scope.resolve [] draft.kept
  if name.qualifier.isEmpty || (scope.lookup name.qualifier).isSome then
    return ⟨name, attributes, scope, isEmpty⟩
  else
    throw (.unknownQualifier name.qualifier offset)

/-- Reads the attributes and the end of a start tag.  There is no tag when the text ends
right after its name or after an attribute. -/
def tagRest (finish : TagDraft → Bool → Except Error Tag) (draft : TagDraft) (a : Cursor) :
    Except Error (Scanned (Option Tag) a) :=
  if a.rest.isEmpty then .ok ⟨none, a, .refl a⟩
  else
    let b := a.dropWhile isSpace
    have hb : a.Reaches b := a.reaches_dropWhile isSpace
    match b.rest with
    | [] => .error .unexpectedEnd
    | c :: _ =>
      if c = '/' then do
        let ⟨_, d, hd⟩ ← Scan.character '>' (b.drop 1)
        let tag ← finish draft true
        return ⟨some tag, d, (hb.trans (b.reaches_drop 1)).trans hd⟩
      else if c = '>' then do
        let tag ← finish draft false
        return ⟨some tag, b.drop 1, hb.trans (b.reaches_drop 1)⟩
      else if b.offset = a.offset then
        .error (.expectedSpace c b.offset)
      else
        match writtenAttribute b with
        | .error e => .error e
        | .ok ⟨written, d, hd⟩ =>
          match decodeValue [] ⟨written.valueOffset, written.value⟩ with
          | .error e => .error e
          | .ok value =>
            match draft.add written.offset written.name (String.ofList value) with
            | .error e => .error e
            | .ok draft =>
              have := hb.length_le
              have := hd.2
              match tagRest finish draft d with
              | .error e => .error e
              | .ok ⟨tag, e, he⟩ => .ok ⟨tag, e, hb.trans (hd.1.trans he)⟩
termination_by a.rest.length

/-- Reads a start tag from behind its angle bracket. -/
def startTag (inherited : Scope) (a : Cursor) : Except Error (Scanned (Option Tag) a) := do
  let ⟨name, b, hb⟩ ← qualifiedName a
  if name.qualifier = "xmlns" then
    throw (.reservedQualifier a.offset)
  let ⟨tag, c, hc⟩ ← tagRest (fun draft => draft.finish inherited a.offset name) .empty b
  return ⟨tag, c, hb.1.trans hc⟩

end LadderLogic.Markup
