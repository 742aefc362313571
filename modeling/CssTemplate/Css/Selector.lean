import CssTemplate.Css.Minified
import CssTemplate.Css.Fault
import CssTemplate.Text.Split

/-!
# Selector lists

A rule inside another one applies under the outer selectors. Each selector of the inner list is
combined with each outer one: the outer selector takes the place of every `&`, or else stands
in front, with a space between. Blank members of the inner list are dropped.
-/

namespace CssTemplate.Css

/-- The members of a selector list, cut at its commas; blank members are dropped. -/
def selectorGroups (selectors : List Component) : List (List Component) :=
  (splitWhere (·.isLiteral [',']) selectors).filter fun group => !(minifiedText none group).isEmpty

/-- One inner selector under one outer selector. -/
def nestSelector (outer : List Char) (inner : List Component) : List Char :=
  if mentionsOuter inner then minifiedText (some outer) inner
  else if outer.isEmpty then minifiedText none inner
  else outer ++ ' ' :: minifiedText none inner

/-- The inner list under every outer selector, outer selectors first in order. -/
def nestSelectors (outer : List (List Char)) (inner : List Component) : List (List Char) :=
  outer.flatMap fun selector => (selectorGroups inner).map (nestSelector selector)

/-- The selectors of a rule inside another one, or the first fault of its selector list. Under
an empty outer list nothing is read. -/
def selectorsUnder (outer : List (List Char)) (inner : List Component) :
    Except Fault (List (List Char)) :=
  if outer.isEmpty then .ok []
  else
    match firstFaultOf inner with
    | some f => .error (.token f)
    | none => .ok (nestSelectors outer inner)

end CssTemplate.Css
