/-
What can be wrong with an XML document.

Each error names its cause and, where there is one, the byte offset it was found
at.  `Error.message` gives the wording and `Error.position` the place.
-/

import LadderLogic.Markup.Character
import LadderLogic.Text.Span

namespace LadderLogic.Markup

/-- Why a document cannot be read. -/
inductive Error where
  | unexpectedEnd
  | expectedCharacter (wanted found : Char) (offset : Nat)
  | expectedText (wanted : String) (offset : Nat)
  | expectedSpace (found : Char) (offset : Nat)
  | expectedQuote (found : Char) (offset : Nat)
  | forbiddenCharacter (found : Char) (offset : Nat)
  | invalidName (offset : Nat)
  | unknownToken (offset : Nat)
  | doctype
  | noRoot
  | unclosedRoot
  | hyphensInComment (offset : Nat)
  | strayDeclaration (offset : Nat)
  | reservedQualifier (offset : Nat)
  | malformedReference (offset : Nat)
  | unknownReference (name : String) (offset : Nat)
  | reservedAddress (offset : Nat)
  | rebound (offset : Nat)
  | misplacedAddress (offset : Nat)
  | repeatedNamespace (name : String) (offset : Nat)
  | unknownQualifier (name : String) (offset : Nat)
  | repeatedAttribute (name : String) (offset : Nat)
  | mismatchedTag (opened closed : String) (offset : Nat)
  | sectionEndInText (offset : Nat)
deriving DecidableEq

namespace Error

/-- Where the error was found, for those that have a place. -/
def offset? : Error → Option Nat
  | unexpectedEnd | doctype | noRoot | unclosedRoot => none
  | expectedCharacter _ _ o | expectedText _ o | expectedSpace _ o | expectedQuote _ o
  | forbiddenCharacter _ o | invalidName o | unknownToken o | hyphensInComment o
  | strayDeclaration o | reservedQualifier o | malformedReference o | unknownReference _ o
  | reservedAddress o | rebound o | misplacedAddress o | repeatedNamespace _ o
  | unknownQualifier _ o | repeatedAttribute _ o | mismatchedTag _ _ o | sectionEndInText o =>
    some o

/-- The row and column of the error.  An error without a place counts as found at the
first character. -/
def position (source : List Char) (e : Error) : Position :=
  (e.offset?.map (Position.ofOffset source)).getD .first

/-- A character that no document may hold, in quotes and as an escape. -/
def escaped (c : Char) : String :=
  if c.toNat = 0 then "'\\0'"
  else "'\\u\x7b" ++ String.ofList (Nat.toDigits 16 c.toNat) ++ "\x7d'"

/-- The wording of the error, with its place in the source. -/
def message (source : List Char) (e : Error) : String :=
  let place := (e.position source).text
  let quoted (c : Char) := "'" ++ String.singleton c ++ "'"
  match e with
  | unexpectedEnd => "unexpected end of stream"
  | expectedCharacter wanted found _ =>
    "expected " ++ quoted wanted ++ " not " ++ quoted (leadByte found) ++ " at " ++ place
  | expectedText wanted _ => "expected '" ++ wanted ++ "' at " ++ place
  | expectedSpace found _ =>
    "expected a whitespace not " ++ quoted (leadByte found) ++ " at " ++ place
  | expectedQuote found _ => "expected a quote not " ++ quoted (leadByte found) ++ " at " ++ place
  | forbiddenCharacter found _ =>
    "a non-XML character " ++ escaped found ++ " found at " ++ place
  | invalidName _ => "invalid name token at " ++ place
  | unknownToken _ => "unknown token at " ++ place
  | doctype => "XML with DTD detected"
  | noRoot => "the document does not have a root node"
  | unclosedRoot => "the root node was opened but never closed"
  | hyphensInComment _ => "comment at " ++ place ++ " contains '--'"
  | strayDeclaration _ => "unexpected XML declaration at " ++ place
  | reservedQualifier _ => "the 'xmlns' prefix is used at " ++ place ++ ", but it must not be"
  | malformedReference _ => "malformed entity reference at " ++ place
  | unknownReference name _ => "unknown entity reference '" ++ name ++ "' at " ++ place
  | reservedAddress _ =>
    "the 'xmlns' URI is used at " ++ place ++ ", but it must not be declared"
  | rebound _ => "'xml' namespace prefix mapped to wrong URI at " ++ place
  | misplacedAddress _ => "the 'xml' namespace URI is used for not 'xml' prefix at " ++ place
  | repeatedNamespace name _ => "namespace '" ++ name ++ "' at " ++ place ++ " is already defined"
  | unknownQualifier name _ => "an unknown namespace prefix '" ++ name ++ "' at " ++ place
  | repeatedAttribute name _ => "attribute '" ++ name ++ "' at " ++ place ++ " is already defined"
  | mismatchedTag opened closed _ =>
    "expected '" ++ opened ++ "' tag, not '" ++ closed ++ "' at " ++ place
  | sectionEndInText _ => "']]>' at " ++ place ++ " is not allowed inside a character data"

end Error

end LadderLogic.Markup
