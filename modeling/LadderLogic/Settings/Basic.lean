/-
Settings: the sizes of a layout and the style of a drawing.

Colors are kept as the text they were given in; they are read when a drawing needs
them, or when settings are checked.
-/

import LadderLogic.Color.Reader
import LadderLogic.Layout

namespace LadderLogic

/-! ## Sizes -/

/-- The sizes of a layout, by name. -/
inductive LayoutField where
  | elementWidth
  | branchSpacing
  | rungSpacing
  | padding
  | viewportWidth
  | symbolWidth
deriving DecidableEq

namespace LayoutField

/-- The name that a size is set by. -/
def name : LayoutField → String
  | elementWidth => "element_width"
  | branchSpacing => "branch_spacing"
  | rungSpacing => "rung_spacing"
  | padding => "padding"
  | viewportWidth => "viewport_width"
  | symbolWidth => "symbol_width"

/-- All sizes, in order. -/
def all : List LayoutField :=
  [elementWidth, branchSpacing, rungSpacing, padding, viewportWidth, symbolWidth]

/-- The size that is set by a name. -/
def ofName? (name : String) : Option LayoutField := all.find? (·.name == name)

end LayoutField

namespace LayoutSettings

variable {α : Type}

/-- The value of a size. -/
def get (s : LayoutSettings α) : LayoutField → α
  | .elementWidth => s.elementWidth
  | .branchSpacing => s.branchSpacing
  | .rungSpacing => s.rungSpacing
  | .padding => s.padding
  | .viewportWidth => s.viewportWidth
  | .symbolWidth => s.symbolWidth

/-- Changes a size. -/
def set (s : LayoutSettings α) (field : LayoutField) (value : α) : LayoutSettings α :=
  match field with
  | .elementWidth => { s with elementWidth := value }
  | .branchSpacing => { s with branchSpacing := value }
  | .rungSpacing => { s with rungSpacing := value }
  | .padding => { s with padding := value }
  | .viewportWidth => { s with viewportWidth := value }
  | .symbolWidth => { s with symbolWidth := value }

/-- The sizes that apply unless others are given. -/
def standard [Scalar α] : LayoutSettings α where
  elementWidth := Scalar.ofNat 80
  branchSpacing := Scalar.ofNat 30
  rungSpacing := Scalar.ofNat 20
  padding := Scalar.ofNat 40
  viewportWidth := Scalar.ofNat 800
  symbolWidth := Scalar.ofNat 20

end LayoutSettings

/-! ## Style -/

/-- The style of a drawing. -/
structure StyleSettings (α : Type) where
  /-- The color behind the drawing, if there is one. -/
  background : Option String
  /-- The color of lines and text. -/
  stroke : String
  strokeWidth : α
  fontSize : α
deriving DecidableEq

namespace StyleSettings

variable {α : Type}

/-- The style that applies unless another is given. -/
def standard [Scalar α] : StyleSettings α where
  background := none
  stroke := "black"
  strokeWidth := Scalar.ratio 3 2
  fontSize := Scalar.ofNat 12

/-- The color behind the drawing. -/
def backgroundColor (s : StyleSettings α) : Except InvalidColor (Option Color) :=
  match s.background with
  | none => .ok none
  | some text => (Color.read text).map some

/-- The color of lines and text. -/
def strokeColor (s : StyleSettings α) : Except InvalidColor Color := Color.read s.stroke

end StyleSettings

/-! ## Settings -/

/-- All settings. -/
structure Settings (α : Type) where
  layout : LayoutSettings α
  style : StyleSettings α
deriving DecidableEq

/-- The settings that apply unless others are given. -/
def Settings.standard {α : Type} [Scalar α] : Settings α := ⟨.standard, .standard⟩

end LadderLogic
