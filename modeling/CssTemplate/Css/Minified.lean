import CssTemplate.Css.Fault
import CssTemplate.Css.Printer

/-!
# Minified text

`minifiedText` writes components with every run of white space collapsed to one space and none
at the ends of the list, of functions, and of round and square blocks; curly blocks keep their
white space. The nesting selector `&` can be replaced on the way. Components with a fault in a
visible place have no minified text: `minify` reports the first fault, in reading order.
-/

namespace CssTemplate.Css

/-- The nesting selector. -/
def Component.isNestingSelector (c : Component) : Bool :=
  c.isLiteral ['&']

mutual

/-- The first fault of a component outside curly blocks. -/
def Component.firstFault : Component → Option TokenFault
  | .atom (.fault fault) => some fault
  | .atom _ => none
  | .group (.bracket .curly) _ => none
  | .group _ content => firstFaultOf content

/-- The first fault of a list of components outside curly blocks. -/
def firstFaultOf : List Component → Option TokenFault
  | [] => none
  | c :: cs =>
    match c.firstFault with
    | some fault => some fault
    | none => firstFaultOf cs

end

mutual

/-- Whether the nesting selector appears in a component outside curly blocks. -/
def Component.mentionsOuter : Component → Bool
  | .atom (.literal text) => text == ['&']
  | .atom _ => false
  | .group (.bracket .curly) _ => false
  | .group _ content => mentionsOuter content

/-- Whether the nesting selector appears in a list of components outside curly blocks. -/
def mentionsOuter : List Component → Bool
  | [] => false
  | c :: cs => c.mentionsOuter || mentionsOuter cs

end

mutual

/-- The minified text of a component. -/
def Component.minifiedText (outer : Option (List Char)) : Component → List Char
  | .atom (.literal text) => if text = ['&'] then outer.getD text else text
  | .atom a => a.text
  | .group (.function name) arguments =>
    identifierText name ++ '(' :: (trim (minifiedParts outer true arguments) ++ [')'])
  | .group (.bracket .round) content =>
    '(' :: (trim (minifiedParts outer true content) ++ [')'])
  | .group (.bracket .square) content =>
    '[' :: (trim (minifiedParts outer true content) ++ [']'])
  | .group (.bracket .curly) content => (Component.group (.bracket .curly) content).text

/-- The minified text of components in a row. White space is written as one space, and not at
all when `skip` holds: at the start and after a part that is itself one space. -/
def minifiedParts (outer : Option (List Char)) (skip : Bool) : List Component → List Char
  | [] => []
  | c :: cs =>
    if c.isSpace then
      if skip then minifiedParts outer true cs else ' ' :: minifiedParts outer true cs
    else
      c.minifiedText outer ++
        minifiedParts outer (c.isNestingSelector && outer == some [' ']) cs

end

/-- The minified text of a list of components, with the nesting selector replaced if a
replacement is given. -/
def minifiedText (outer : Option (List Char)) (cs : List Component) : List Char :=
  trim (minifiedParts outer true cs)

/-- The minified text of a list of components, or its first fault. -/
def minify (cs : List Component) : Except Fault (List Char) :=
  match firstFaultOf cs with
  | some f => .error (.token f)
  | none => .ok (minifiedText none cs)

end CssTemplate.Css
