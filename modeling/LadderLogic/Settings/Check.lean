/-
Checking settings before they are used.

A layout computes something for any sizes at all; settings that come from outside are
checked first.  A check finds the first fault, in a fixed order.
-/

import LadderLogic.Settings.Basic

namespace LadderLogic

/-! ## Sizes -/

/-- What can be wrong with the sizes of a layout. -/
inductive LayoutFault (α : Type) where
  | notFinite (field : LayoutField) (value : α)
  | notPositive (field : LayoutField) (value : α)
  | negative (field : LayoutField) (value : α)
  /-- Symbols are wider than the room for them. -/
  | symbolTooWide (symbolWidth elementWidth : α)
deriving DecidableEq

/-- The sizes that have to be positive. -/
def LayoutField.positive : List LayoutField := [elementWidth, branchSpacing, symbolWidth]

/-- The sizes that may be zero, but not negative. -/
def LayoutField.nonnegative : List LayoutField := [rungSpacing, padding, viewportWidth]

/-- The first fault in the sizes of a layout: every size is finite, those that have to be
are positive, none is negative, and symbols fit the room for them. -/
def LayoutSettings.check {α : Type} [Scalar α] (s : LayoutSettings α) :
    Except (LayoutFault α) Unit :=
  match LayoutField.all.find? fun f => !Scalar.isFinite (s.get f) with
  | some f => .error (.notFinite f (s.get f))
  | none =>
    match LayoutField.positive.find? fun f => !Scalar.lt Scalar.zero (s.get f) with
    | some f => .error (.notPositive f (s.get f))
    | none =>
      match LayoutField.nonnegative.find? fun f => Scalar.lt (s.get f) Scalar.zero with
      | some f => .error (.negative f (s.get f))
      | none =>
        if Scalar.lt s.elementWidth s.symbolWidth then
          .error (.symbolTooWide s.symbolWidth s.elementWidth)
        else .ok ()

/-- The wording of a fault in the sizes of a layout. -/
def LayoutFault.message : LayoutFault Float32 → String
  | notFinite f value =>
    "layout." ++ f.name ++ " must be a finite number, got " ++ Numeral.display value
  | notPositive f value => "layout." ++ f.name ++ " must be positive, got " ++ Numeral.display value
  | negative f value =>
    "layout." ++ f.name ++ " must not be negative, got " ++ Numeral.display value
  | symbolTooWide symbolWidth elementWidth =>
    "layout.symbol_width (" ++ Numeral.display symbolWidth
      ++ ") must not exceed layout.element_width (" ++ Numeral.display elementWidth ++ ")"

/-! ## Style -/

/-- What can be wrong with the style of a drawing. -/
inductive StyleFault (α : Type) where
  | background (error : InvalidColor)
  | stroke (error : InvalidColor)
  | strokeWidth (value : α)
  | fontSize (value : α)
deriving DecidableEq

/-- A number that a size of lines or letters may have. -/
def isUsableSize {α : Type} [Scalar α] (value : α) : Bool :=
  Scalar.isFinite value && !Scalar.lt value Scalar.zero

/-- The first fault in a style: both colors are colors, and both sizes are finite and not
negative. -/
def StyleSettings.check {α : Type} [Scalar α] (s : StyleSettings α) :
    Except (StyleFault α) Unit :=
  match s.backgroundColor with
  | .error e => .error (.background e)
  | .ok _ =>
    match s.strokeColor with
    | .error e => .error (.stroke e)
    | .ok _ =>
      if !isUsableSize s.strokeWidth then .error (.strokeWidth s.strokeWidth)
      else if !isUsableSize s.fontSize then .error (.fontSize s.fontSize)
      else .ok ()

/-- What is said of a background that is no color. -/
def InvalidColor.asBackground (e : InvalidColor) : String :=
  "Invalid background color in config: " ++ e.message

/-- What is said of a line color that is no color. -/
def InvalidColor.asStroke (e : InvalidColor) : String :=
  "Invalid stroke color in config: " ++ e.message

/-- The wording of a fault in a style. -/
def StyleFault.message : StyleFault Float32 → String
  | background e => e.asBackground
  | stroke e => e.asStroke
  | strokeWidth value =>
    "style.stroke_width must be a non-negative number, got " ++ Numeral.display value
  | fontSize value =>
    "style.font_size must be a non-negative number, got " ++ Numeral.display value

/-! ## Settings -/

/-- What can be wrong with settings. -/
inductive SettingsFault (α : Type) where
  | layout (fault : LayoutFault α)
  | style (fault : StyleFault α)
deriving DecidableEq

/-- The wording of a fault in settings. -/
def SettingsFault.message : SettingsFault Float32 → String
  | layout fault => fault.message
  | style fault => fault.message

/-- The first fault in settings, sizes before style. -/
def Settings.check {α : Type} [Scalar α] (s : Settings α) : Except (SettingsFault α) Unit :=
  match s.layout.check with
  | .error fault => .error (.layout fault)
  | .ok () =>
    match s.style.check with
    | .error fault => .error (.style fault)
    | .ok () => .ok ()

end LadderLogic
