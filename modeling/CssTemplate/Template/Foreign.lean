import CssTemplate.Text.Quoted

/-!
# Foreign values

Callers build templates by hand, and may put a value where none of the kind belongs. Such a
value is foreign: it is never used, only named (`typeName`) and shown (`display`) in the message
that refuses it.
-/

namespace CssTemplate

/-- A value that is no part of a template. -/
inductive Foreign where
  | null
  | bool (value : Bool)
  | int (value : Int)
  | text (value : List Char)
  | list (items : List Foreign)
  | record (fields : List (List Char × Foreign))
  deriving Repr, Inhabited

/-- Texts joined by a comma and a space. -/
def joinComma (texts : List (List Char)) : List Char :=
  [',', ' '].intercalate texts

namespace Foreign

/-- The name of the value's type in messages. -/
def typeName : Foreign → List Char
  | .null => "NoneType".toList
  | .bool _ => "bool".toList
  | .int _ => "int".toList
  | .text _ => "str".toList
  | .list _ => "list".toList
  | .record _ => "dict".toList

mutual

/-- The value as messages show it. -/
def display : Foreign → List Char
  | .null => "None".toList
  | .bool true => "True".toList
  | .bool false => "False".toList
  | .int value => integer value
  | .text value => quoted value
  | .list items => '[' :: (joinComma (displayItems items) ++ [']'])
  | .record fields => '{' :: (joinComma (displayFields fields) ++ ['}'])

/-- The values of a list as messages show them. -/
def displayItems : List Foreign → List (List Char)
  | [] => []
  | item :: items => item.display :: displayItems items

/-- The fields of a record as messages show them. -/
def displayFields : List (List Char × Foreign) → List (List Char)
  | [] => []
  | (key, value) :: fields => (quoted key ++ ':' :: ' ' :: value.display) :: displayFields fields

end

end Foreign

end CssTemplate
