import CssTemplate.Text.Blank

/-!
# The source of a template

A template in the source of the host program is a sequence of parts between backquotes: chunks
of raw text, and substitutions that hold an expression. An expression is a sequence of items:
text, quoted strings, pairs of braces, and further templates. The tree keeps every character:
`partsText` and `itemsText` give the source back.
-/

namespace CssTemplate

mutual

/-- A part of a template. -/
inductive SourcePart where
  /-- Raw text, with its escapes. -/
  | chunk (raw : List Char)
  | substitution (body : List SourceItem)

/-- A part of an expression. -/
inductive SourceItem where
  | text (text : List Char)
  /-- A string with its quote; the content keeps its escapes. -/
  | quoted (quote : Char) (content : List Char)
  /-- A pair of braces; its body may be empty. -/
  | braces (body : List SourceItem)
  | template (parts : List SourcePart)

end

/-- The backquote around a template. -/
def backquote : Char :=
  '\x60'

mutual

/-- The source of a part. -/
def SourcePart.text : SourcePart → List Char
  | .chunk raw => raw
  | .substitution body => '$' :: '{' :: (itemsText body ++ ['}'])

/-- The source of an item. -/
def SourceItem.source : SourceItem → List Char
  | .text text => text
  | .quoted quote content => quote :: (content ++ [quote])
  | .braces body => '{' :: (itemsText body ++ ['}'])
  | .template parts => backquote :: (partsText parts ++ [backquote])

/-- The source of parts in a row. -/
def partsText : List SourcePart → List Char
  | [] => []
  | part :: parts => part.text ++ partsText parts

/-- The source of items in a row. -/
def itemsText : List SourceItem → List Char
  | [] => []
  | item :: items => item.source ++ itemsText items

end

/-! ## Blank expressions

The body of a substitution is an expression, and so is the body of a pair of braces that is not
empty. None of them may be blank.
-/

mutual

/-- The offset of the first blank expression in a part that starts at the given offset. -/
def SourcePart.blankAt? (offset : Nat) : SourcePart → Option Nat
  | .chunk _ => none
  | .substitution body =>
    if isBlankText (itemsText body) then some (offset + 2) else itemsBlankAt? (offset + 2) body

/-- The offset of the first blank expression in an item that starts at the given offset. -/
def SourceItem.blankAt? (offset : Nat) : SourceItem → Option Nat
  | .text _ => none
  | .quoted _ _ => none
  | .braces [] => none
  | .braces (item :: items) =>
    if isBlankText (itemsText (item :: items)) then some (offset + 1)
    else itemsBlankAt? (offset + 1) (item :: items)
  | .template parts => partsBlankAt? (offset + 1) parts

/-- The offset of the first blank expression in parts that start at the given offset. -/
def partsBlankAt? (offset : Nat) : List SourcePart → Option Nat
  | [] => none
  | part :: parts =>
    match part.blankAt? offset with
    | some found => some found
    | none => partsBlankAt? (offset + part.text.length) parts

/-- The offset of the first blank expression in items that start at the given offset. -/
def itemsBlankAt? (offset : Nat) : List SourceItem → Option Nat
  | [] => none
  | item :: items =>
    match item.blankAt? offset with
    | some found => some found
    | none => itemsBlankAt? (offset + item.source.length) items

end

end CssTemplate
