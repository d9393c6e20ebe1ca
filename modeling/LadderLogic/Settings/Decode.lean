/-
Settings from structured data.

Settings are a table with the parts `layout` and `style`, each a table of its fields;
fields that are not given keep their standard value, and names that mean nothing are
passed over.  A list in place of a table gives the fields in order; formats differ in
what they make of a list that is longer.
-/

import LadderLogic.Datum
import LadderLogic.Settings.Basic

namespace LadderLogic

/-- Why data are no settings. -/
inductive DecodeFault where
  /-- A value is not of the kind that is wanted. -/
  | wrongKind (found wanted : String)
  /-- A list has more items than there are fields. -/
  | tooLong (length : Nat)
  /-- A number under a name that means nothing is too large to be held. -/
  | outOfRange
deriving DecidableEq

/-- The wording of a fault. -/
def DecodeFault.message : DecodeFault → String
  | wrongKind found wanted => "invalid type: " ++ found ++ ", expected " ++ wanted
  | tooLong length => "invalid length " ++ toString length ++ ", expected fewer elements in array"
  | outOfRange => "number out of range"

/-- What a format makes of the items of a list that are more than there are fields. -/
inductive Surplus where
  | refused
  /-- They are not looked at. -/
  | ignored
deriving DecidableEq

namespace Datum

/-- The value is not what is wanted. -/
def refuse {α : Type} (d : Datum) (wanted : String) : Except DecodeFault α :=
  .error (.wrongKind d.describe wanted)

/-- A number, rounded once.  An integer has 64 bits, with or without a sign. -/
def toNumber : Datum → Except DecodeFault Float32
  | integer n =>
    if -0x8000000000000000 ≤ n && n ≤ 0xFFFFFFFFFFFFFFFF then .ok (Float32.ofInt n)
    else (integer n).refuse "f32"
  | float x => .ok x.toFloat32
  | d => d.refuse "f32"

/-- A text. -/
def toText : Datum → Except DecodeFault String
  | string s => .ok s
  | d => d.refuse "a string"

/-- A text that may be left out. -/
def toOptionalText : Datum → Except DecodeFault (Option String)
  | null => .ok none
  | d => d.toText.map some

/-- How the fields of a record are changed by data: the name of each, in order, and what
its value does to the record. -/
abbrev Fields (σ : Type) := List (String × (σ → Datum → Except DecodeFault σ))

/-- Sets the fields that a table names, in the order of the table. -/
def setNamed {σ : Type} (fields : Fields σ) (record : σ) :
    List (String × Datum) → Except DecodeFault σ
  | [] => .ok record
  | (name, value) :: rest =>
    match fields.lookup name with
    | none => if value.isInRange then setNamed fields record rest else .error .outOfRange
    | some change =>
      match change record value with
      | .error e => .error e
      | .ok record => setNamed fields record rest

/-- Sets fields from a list of the given length, in order. -/
def setInOrder {σ : Type} (surplus : Surplus) (length : Nat) (record : σ) :
    Fields σ → List Datum → Except DecodeFault σ
  | _, [] => .ok record
  | [], _ :: _ =>
    match surplus with
    | .refused => .error (.tooLong length)
    | .ignored => .ok record
  | (_, change) :: fields, value :: rest =>
    match change record value with
    | .error e => .error e
    | .ok record => setInOrder surplus length record fields rest

/-- Sets the fields of a record.  A date has no field that any record knows. -/
def setFields {σ : Type} (surplus : Surplus) (wanted : String) (fields : Fields σ) (record : σ) :
    Datum → Except DecodeFault σ
  | table entries => setNamed fields record entries
  | list items => setInOrder surplus items.length record fields items
  | moment => .ok record
  | d => d.refuse wanted

end Datum

/-- The sizes of a layout as fields. -/
def LayoutSettings.fields : Datum.Fields (LayoutSettings Float32) :=
  LayoutField.all.map fun f => (f.name, fun s d => d.toNumber.map (s.set f))

/-- The parts of a style as fields. -/
def StyleSettings.fields : Datum.Fields (StyleSettings Float32) :=
  [("background_color", fun s d => d.toOptionalText.map fun t => { s with background := t }),
    ("stroke_color", fun s d => d.toText.map fun t => { s with stroke := t }),
    ("stroke_width", fun s d => d.toNumber.map fun x => { s with strokeWidth := x }),
    ("font_size", fun s d => d.toNumber.map fun x => { s with fontSize := x })]

/-- The parts of settings as fields.  A part that is given starts from its standard. -/
def Settings.fields (surplus : Surplus) : Datum.Fields (Settings Float32) :=
  [("layout", fun s d =>
      (d.setFields surplus "struct LayoutConfig" LayoutSettings.fields .standard).map
        fun layout => { s with layout := layout }),
    ("style", fun s d =>
      (d.setFields surplus "struct StyleConfig" StyleSettings.fields .standard).map
        fun style => { s with style := style })]

/-- The settings that data stand for. -/
def Settings.ofDatum (surplus : Surplus) (d : Datum) : Except DecodeFault (Settings Float32) :=
  d.setFields surplus "struct AppConfig" (Settings.fields surplus) .standard

end LadderLogic
