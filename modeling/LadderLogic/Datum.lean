/-
Structured data: what a settings file, or a value in some other format, holds.
-/

import LadderLogic.Number.Numeral
import LadderLogic.Text.Printable

namespace LadderLogic

/-- A value of a data format. -/
inductive Datum where
  | null
  | bool (b : Bool)
  | integer (n : Int)
  | float (x : Float)
  /-- A number that is too large to be held. -/
  | overflow
  | string (s : String)
  /-- A date or a time of day. -/
  | moment
  | list (items : List Datum)
  | table (entries : List (String × Datum))

namespace Datum

/-- How a float is shown: leading digits from the hundred thousandths to the thousand
million millions are written in place, all others with a signed exponent. -/
def floatStyle : NumeralStyle where
  tie := .toEven
  isPlain e := -5 ≤ e && e ≤ 15
  wholeTail := ".0"
  nan := "NaN"
  infinite negative := if negative then "-inf" else "inf"

/-- A 64-bit float as text. -/
def floatText (x : Float) : String := String.ofList (Numeral.write floatStyle (.ofFloat x))

/-- What a value is, in words. -/
def describe : Datum → String
  | null => "null"
  | bool b => "boolean `" ++ (if b then "true" else "false") ++ "`"
  | integer n => "integer `" ++ toString n ++ "`"
  | float x => "floating point `" ++ floatText x ++ "`"
  | overflow => "number out of range"
  | string s => "string " ++ Text.quoted s
  | moment => "map"
  | list _ => "sequence"
  | table _ => "map"

mutual

/-- Every number in a value can be held. -/
def isInRange : Datum → Bool
  | overflow => false
  | list items => areInRange items
  | table entries => entriesInRange entries
  | _ => true

/-- Every number in some items can be held. -/
def areInRange : List Datum → Bool
  | [] => true
  | item :: rest => item.isInRange && areInRange rest

/-- Every number in some entries can be held. -/
def entriesInRange : List (String × Datum) → Bool
  | [] => true
  | (_, value) :: rest => value.isInRange && entriesInRange rest

end

end Datum

end LadderLogic
