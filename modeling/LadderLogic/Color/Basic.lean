/-
Colors as style sheets write them.

A color is a name, or channels in a color space.  Each channel may be missing, which
counts as zero where a number is needed.  `Color.display` writes a color in the form
of the notation it belongs to.
-/

import LadderLogic.Number.Numeral

namespace LadderLogic

/-- The spaces that have a function of their own, with channels divided by spaces. -/
inductive ColorFunction where
  | lab
  | lch
  | oklab
  | oklch
deriving DecidableEq

/-- The name of a function. -/
def ColorFunction.name : ColorFunction → String
  | lab => "lab"
  | lch => "lch"
  | oklab => "oklab"
  | oklch => "oklch"

/-- The spaces that the function `color` takes. -/
inductive ColorSpace where
  | srgb
  | srgbLinear
  | displayP3
  | a98Rgb
  | prophotoRgb
  | rec2020
  | xyzD50
  | xyzD65
deriving DecidableEq

namespace ColorSpace

/-- The name of a space. -/
def name : ColorSpace → String
  | srgb => "srgb"
  | srgbLinear => "srgb-linear"
  | displayP3 => "display-p3"
  | a98Rgb => "a98-rgb"
  | prophotoRgb => "prophoto-rgb"
  | rec2020 => "rec2020"
  | xyzD50 => "xyz-d50"
  | xyzD65 => "xyz-d65"

/-- All spaces. -/
def all : List ColorSpace :=
  [srgb, srgbLinear, displayP3, a98Rgb, prophotoRgb, rec2020, xyzD50, xyzD65]

/-- The space with a name, given in small letters.  The name `xyz` is short for one. -/
def ofName? (name : String) : Option ColorSpace :=
  if name = "xyz" then some xyzD65 else all.find? (·.name == name)

end ColorSpace

/-- Three channels and opacity, each of which may be missing. -/
structure Channels where
  first : Option Float32
  second : Option Float32
  third : Option Float32
  alpha : Option Float32
deriving DecidableEq

/-- A color. -/
inductive Color where
  /-- A color with a name, in small letters. -/
  | named (name : String)
  /-- Red, green and blue, each from zero to one. -/
  | rgb (channels : Channels)
  | function (function : ColorFunction) (channels : Channels)
  | space (space : ColorSpace) (channels : Channels)
deriving DecidableEq

namespace Color

/-- A channel where a number is needed. -/
def amount (channel : Option Float32) : Float32 := channel.getD 0

/-- Opacity, from zero to one. -/
def alpha : Color → Float32
  | named name => if name = "transparent" then 0 else 1
  | rgb c => amount c.alpha
  | function _ c => amount c.alpha
  | space _ c => amount c.alpha

/-- A channel as text. -/
def channelText (channel : Option Float32) : String :=
  match channel with
  | some x => Numeral.display x
  | none => "none"

/-- A channel of red, green or blue as text, on the scale up to 255. -/
def byteText (channel : Option Float32) : String := channelText (channel.map (· * 255))

/-- Channels divided by spaces, and opacity if there is less than all of it. -/
def spaced (c : Channels) : String :=
  " ".intercalate [channelText c.first, channelText c.second, channelText c.third]
    ++ if amount c.alpha < 1 then " / " ++ channelText c.alpha else ""

/-- The color as text. -/
def display : Color → String
  | named name => name
  | rgb c =>
    let channels := [byteText c.first, byteText c.second, byteText c.third]
    if amount c.alpha < 1 then
      "rgba(" ++ ", ".intercalate (channels ++ [channelText c.alpha]) ++ ")"
    else "rgb(" ++ ", ".intercalate channels ++ ")"
  | function f c => f.name ++ "(" ++ spaced c ++ ")"
  | space s c => "color(" ++ s.name ++ " " ++ spaced c ++ ")"

end Color

end LadderLogic
