import CssTemplate.Source.Reader
import CssTemplate.Template.Node

/-!
# Tagged templates

`Tagged.read` reads a source that is a template with an optional tag in front of it and,
perhaps, the end of a statement after it. Literal texts have their escapes resolved, expressions
keep their source without blanks at the ends.
-/

namespace CssTemplate

/-- A place in a source; lines and columns count from one. -/
structure Location where
  line : Nat
  column : Nat
  deriving DecidableEq, Repr, Inhabited

/-- The place after the given text. Only line feeds end lines. -/
def Location.after (text : List Char) : Location where
  line := text.count '\n' + 1
  column := (text.reverse.takeWhile (· != '\n')).length + 1

/-- Why a source is no template. -/
inductive SourceFault where
  | unreadable (location : Location)
  /-- An expression is blank. -/
  | emptySubstitution (location : Location)
  deriving DecidableEq, Repr, Inhabited

/-- The place of a fault. -/
def SourceFault.location : SourceFault → Location
  | .unreadable location => location
  | .emptySubstitution location => location

/-- A template with the tag in front of it. -/
structure Tagged where
  tag : Option (List Char)
  template : Template
  deriving DecidableEq, Repr

/-! ## Literal texts -/

/-- The character that an escape stands for. -/
def resolvedChar (c : Char) : Char :=
  if c = 'n' then '\n' else if c = 't' then '\t' else if c = 'r' then '\r' else c

/-- A raw text with its escapes resolved. A backslash at the end stays. -/
def resolveEscapes : List Char → List Char
  | [] => []
  | '\\' :: c :: rest => resolvedChar c :: resolveEscapes rest
  | c :: rest => c :: resolveEscapes rest

/-! ## Templates -/

/-- The template that parts denote, or the offset of their first blank expression; the parts
start at the given offset. -/
def partsTemplate (offset : Nat) : List SourcePart → Except Nat Template
  | [] => .ok ⟨[], []⟩
  | .chunk raw :: parts => do
    let template ← partsTemplate (offset + raw.length) parts
    .ok { template with head := resolveEscapes raw ++ template.head }
  | .substitution body :: parts =>
    match Expression.ofText? (trim (itemsText body)), itemsBlankAt? (offset + 2) body with
    | none, _ => .error (offset + 2)
    | some _, some found => .error found
    | some expression, none => do
      let template ← partsTemplate (offset + (itemsText body).length + 3) parts
      .ok ⟨[], ⟨expression, template.head⟩ :: template.spans⟩

/-- What may follow a template: blanks and semicolons of ASCII. -/
def isTrailer (c : Char) : Bool :=
  c == ' ' || c == '\t' || c == '\r' || c == '\n' || c == ';'

/-- The tag that a text in front of a template is: none when it is blank. -/
def tagOf (text : List Char) : Option (List Char) :=
  if (trim text).isEmpty then none else some (trim text)

/-- The place in a source at which the given rest starts. -/
def locate (source rest : List Char) : Location :=
  .after (source.take (source.length - rest.length))

/-- Reads a tagged template from a source without a trailer. -/
def readTagged (source : List Char) : Except SourceFault Tagged :=
  let tag := source.takeWhile (· != backquote)
  match source.dropWhile (· != backquote) with
  | [] => .error (.unreadable ⟨1, 1⟩)
  | first :: body =>
    match readParts (.inTemplate [] .top) (first :: body) body with
    | .error (.unexpected rest) => .error (.unreadable (locate source rest))
    | .error (.endOfSource last) => .error (.unreadable (locate source last))
    | .ok (parts, rest) =>
      if rest.isEmpty then
        match partsTemplate (tag.length + 1) parts with
        | .ok template => .ok ⟨tagOf tag, template⟩
        | .error offset => .error (.emptySubstitution (.after (source.take offset)))
      else .error (.unreadable (locate source rest))

/-- Reads a tagged template. -/
def Tagged.read (source : List Char) : Except SourceFault Tagged :=
  readTagged (trimEnd isTrailer source)

end CssTemplate
