import CssTemplate.Text.Decimal
import CssTemplate.Text.Identifier
import CssTemplate.Text.Numeral
import CssTemplate.Text.Quoted

/-!
# Configuration

`Settings` are what a caller asks for; `Settings.validate` accepts them as a `Config` or says
what is wrong, the first fault in the order of the fields. A `Config` carries the proof that it
was accepted.
-/

namespace CssTemplate

/-- The settings of a compilation, as they are asked for. -/
structure Settings where
  /-- The code point of the class marker; the other markers follow it. -/
  markerBase : Int := 230
  /-- The name of the parameter for the class name. -/
  classParameter : List Char := "cls".toList
  /-- What the names of all other parameters start with. -/
  slotStem : List Char := "expr".toList
  /-- The name of the animation that a keyframe body is compiled under. -/
  animationName : List Char := "x".toList
  /-- Whether declarations get vendor-prefixed copies. -/
  prefixing : Bool := true
  deriving DecidableEq, Repr

/-- The settings that have to be identifiers. -/
inductive NameSetting where
  | classParameter
  | slotStem
  | animationName
  deriving DecidableEq, Repr, Inhabited

/-- The name of a setting in messages. -/
def NameSetting.label : NameSetting → List Char
  | .classParameter => "class_param".toList
  | .slotStem => "slot_prefix".toList
  | .animationName => "keyframes_name".toList

/-- Why settings are not accepted. -/
inductive SettingsFault where
  | markerBase (base : Int)
  | notIdentifier (setting : NameSetting) (value : List Char)
  /-- The class parameter could be the name of a slot. -/
  | collision (classParameter slotStem : List Char)
  deriving DecidableEq, Repr, Inhabited

/-- The fault in words. -/
def SettingsFault.message : SettingsFault → List Char
  | .markerBase base => "marker_base must be in [128, 53248), got ".toList ++ integer base
  | .notIdentifier setting value =>
    setting.label ++ " must be an identifier, got ".toList ++ quoted value
  | .collision classParameter slotStem =>
    "class_param ".toList ++ quoted classParameter ++ " collides with slot names ".toList ++
      slotStem ++ ['N']

/-- The least accepted marker base: above ASCII, so above all CSS punctuation. -/
def leastMarkerBase : Nat :=
  0x80

/-- The first marker base that is too large. -/
def markerBaseBound : Nat :=
  0xD000

/-- Whether a name is the stem followed by decimal digits of any script. -/
def looksLikeSlot (stem name : List Char) : Bool :=
  stem.isPrefixOf name &&
    (let digits := name.drop stem.length
     !digits.isEmpty && digits.all isDecimal)

/-- The settings of a compilation that have been accepted. -/
structure Config where
  markerBase : Nat
  classParameter : List Char
  slotStem : List Char
  animationName : List Char
  prefixing : Bool
  base_ge : leastMarkerBase ≤ markerBase
  base_lt : markerBase < markerBaseBound
  classParameter_name : isIdentifierLine classParameter = true
  slotStem_name : isIdentifierLine slotStem = true
  animationName_name : isIdentifierLine animationName = true
  no_collision : looksLikeSlot slotStem classParameter = false

/-- Accepts settings, or names the first of their faults. -/
def Settings.validate (s : Settings) : Except SettingsFault Config :=
  if hb : leastMarkerBase ≤ s.markerBase ∧ s.markerBase < markerBaseBound then
    if hc : isIdentifierLine s.classParameter = true then
      if hs : isIdentifierLine s.slotStem = true then
        if hk : isIdentifierLine s.animationName = true then
          if hn : looksLikeSlot s.slotStem s.classParameter = false then
            .ok {
              markerBase := s.markerBase.toNat
              classParameter := s.classParameter
              slotStem := s.slotStem
              animationName := s.animationName
              prefixing := s.prefixing
              base_ge := by omega
              base_lt := by omega
              classParameter_name := hc
              slotStem_name := hs
              animationName_name := hk
              no_collision := hn }
          else .error (.collision s.classParameter s.slotStem)
        else .error (.notIdentifier .animationName s.animationName)
      else .error (.notIdentifier .slotStem s.slotStem)
    else .error (.notIdentifier .classParameter s.classParameter)
  else .error (.markerBase s.markerBase)

/-- The configuration that is used when nothing is asked for. -/
def Config.default : Config where
  markerBase := 230
  classParameter := ['c', 'l', 's']
  slotStem := ['e', 'x', 'p', 'r']
  animationName := ['x']
  prefixing := true
  base_ge := by decide
  base_lt := by decide
  classParameter_name := by decide
  slotStem_name := by decide
  animationName_name := by decide
  no_collision := by decide

instance : Inhabited Config :=
  ⟨Config.default⟩

end CssTemplate
