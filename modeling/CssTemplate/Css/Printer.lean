import CssTemplate.Css.Component
import CssTemplate.Css.Delimited

/-!
# Writing component values

`Component.text` writes one component so that it reads back as the same component. White space
is kept as it is; inside a group, an empty comment separates two neighbours that would otherwise
be read as one token (`Kind.clashes`), and a line end follows a lone backslash.
-/

namespace CssTemplate.Css

/-! ## Atoms -/

/-- Whether a unit would be read as an exponent after a number. -/
def looksLikeExponent : List Char → Bool
  | ['e'] => true
  | ['E'] => true
  | 'e' :: '-' :: _ => true
  | 'E' :: '-' :: _ => true
  | _ => false

/-- A unit; one that looks like an exponent starts with an escaped letter. -/
def unitText (unit : List Char) : List Char :=
  if looksLikeExponent unit then '\\' :: '6' :: '5' :: ' ' :: nameText (unit.drop 1)
  else identifierText unit

/-- A fault inside a block, as a token that is faulty in the same way. Faults at the end of the
input leave no trace. -/
def TokenFault.text : TokenFault → List Char
  | .badString => "\"[bad string]\n".toList
  | .badUrl => "url([bad url])".toList
  | .unmatched b => [b.closeChar]
  | .openString => []
  | .openUrl => []

/-- The text of an atom. -/
def Atom.text : Atom → List Char
  | .space text => text
  | .literal text => text
  | .ident name => identifierText name
  | .atKeyword name => '@' :: identifierText name
  | .hash name isIdent => '#' :: (if isIdent then identifierText name else nameText name)
  | .string value closed => stringText value closed
  | .url value closed => urlText value closed
  | .unicodeRange first last =>
    'U' :: '+' :: (hexUpper 1 first ++ if first = last then [] else '-' :: hexUpper 1 last)
  | .number numeral => numeral
  | .percentage numeral => numeral ++ ['%']
  | .dimension numeral unit => numeral ++ unitText unit
  | .fault f => f.text

/-! ## Neighbours -/

/-- What matters of a component for its neighbours: its sort, and the text of a literal. -/
inductive Kind where
  | space
  | literal (text : List Char)
  | ident
  | atKeyword
  | hash
  | string
  | url
  | unicodeRange
  | number
  | percentage
  | dimension
  | function
  | block (bracket : Bracket)
  | fault
  deriving DecidableEq, Repr, Inhabited

/-- The sort of an atom. -/
def Atom.kind : Atom → Kind
  | .space _ => .space
  | .literal text => .literal text
  | .ident _ => .ident
  | .atKeyword _ => .atKeyword
  | .hash _ _ => .hash
  | .string _ _ => .string
  | .url _ _ => .url
  | .unicodeRange _ _ => .unicodeRange
  | .number _ => .number
  | .percentage _ => .percentage
  | .dimension _ _ => .dimension
  | .fault _ => .fault

/-- The sort of a component. -/
def Component.kind : Component → Kind
  | .atom a => a.kind
  | .group (.bracket b) _ => .block b
  | .group (.function _) _ => .function

namespace Kind

/-- A name or number that a following name or number would prolong. -/
def isWordLike (k : Kind) : Bool :=
  k ∈ [ident, atKeyword, hash, dimension, literal ['#'], literal ['-'], number]

/-- Something that starts like a name or a number. -/
def startsWord (k : Kind) : Bool :=
  k ∈ [ident, function, url, number, percentage, dimension, unicodeRange]

/-- Something that starts like a name. -/
def startsLikeName (k : Kind) : Bool :=
  k ∈ [ident, function, url]

/-- Something that starts like a number. -/
def startsLikeNumber (k : Kind) : Bool :=
  k ∈ [number, percentage, dimension]

/-- Whether a component of the first sort, written directly before one of the second, would be
read in another way. -/
def clashes (a b : Kind) : Bool :=
  (a.isWordLike && b.startsWord) ||
  (a ∈ [ident, atKeyword, hash, dimension] && b ∈ [literal ['-'], literal ['-', '-', '>']]) ||
  (a ∈ [literal ['#'], literal ['-'], number, literal ['@']] && b.startsLikeName) ||
  (a ∈ [unicodeRange, literal ['.'], literal ['+']] && b.startsLikeNumber) ||
  (a == literal ['@'] && b ∈ [ident, function, url, unicodeRange, literal ['-']]) ||
  (a == unicodeRange && b ∈ [ident, function, literal ['?']]) ||
  (a ∈ [literal ['$'], literal ['*'], literal ['^'], literal ['~'], literal ['|']] &&
    b == literal ['=']) ||
  (a == ident && b == block .round) ||
  (a == literal ['|'] && b == literal ['|']) ||
  (a == literal ['/'] && b == literal ['*'])

end Kind

/-- Whether a component is white space that starts with a line end. -/
def Component.startsWithLineEnd : Component → Bool
  | .atom (.space ('\n' :: _)) => true
  | _ => false

/-- What is written between two neighbours. -/
def separator (before : Option Kind) (next : Component) : List Char :=
  match before with
  | none => []
  | some k =>
    if k.clashes next.kind then ['/', '*', '*', '/']
    else if k = .literal ['\\'] && !next.startsWithLineEnd then ['\n']
    else []

/-! ## Groups -/

mutual

/-- Whether a component ends in a string that the end of the input breaks off, looking into the
last argument of functions. -/
def Component.endsInOpenString : Component → Bool
  | .atom (.fault .openString) => true
  | .group (.function _) arguments => endInOpenString arguments
  | _ => false

/-- Whether the last component of a list ends in a broken-off string. -/
def endInOpenString : List Component → Bool
  | [] => false
  | [c] => c.endsInOpenString
  | _ :: c :: cs => endInOpenString (c :: cs)

end

mutual

/-- The text of a component. A function has no closing bracket when its last argument ends in a
broken-off string. -/
def Component.text : Component → List Char
  | .atom a => a.text
  | .group (.bracket b) content => b.openChar :: (contentText none content ++ [b.closeChar])
  | .group (.function name) arguments =>
    identifierText name ++ '(' :: (contentText none arguments ++
      if endInOpenString arguments then [] else [')'])

/-- The text of components in a row, after a neighbour of the given sort. -/
def contentText (before : Option Kind) : List Component → List Char
  | [] => []
  | c :: cs => separator before c ++ c.text ++ contentText (some c.kind) cs

end

end CssTemplate.Css
