import CssTemplate.Text.Numeral

/-!
# Rule blocks

Processed CSS is cut into blocks: a block ends wherever the brace depth returns to zero. The
blocks join to the whole text. Text after the last block, or a closing brace that closes
nothing, is a fault; the remainder is what follows the last complete block.
-/

namespace CssTemplate

/-- Why a text is no sequence of blocks. -/
inductive BlockFault where
  /-- A closing brace at the given offset closes nothing. -/
  | unmatched (offset : Nat) (remainder : List Char)
  /-- Text follows the last block. -/
  | outside (remainder : List Char)
  deriving DecidableEq, Repr, Inhabited

namespace BlockFault

/-- What follows the last complete block. -/
def remainder : BlockFault → List Char
  | .unmatched _ remainder => remainder
  | .outside remainder => remainder

/-- The fault in words. -/
def message : BlockFault → List Char
  | .unmatched offset _ => "Unmatched '\x7d' at offset ".toList ++ decimal offset
  | .outside remainder =>
    "Failed to parse css rules: ".toList ++ decimal remainder.length ++
      " character(s) outside a rule block".toList

/-- The remainder, unless it is empty. -/
def detail (f : BlockFault) : Option (List Char) :=
  if f.remainder.isEmpty then none else some f.remainder

end BlockFault

/-- The blocks of a text, read on at the given offset and brace depth inside a block whose
characters so far are `pending`, last one first. -/
def cutBlocks (offset depth : Nat) (pending : List Char) :
    List Char → Except BlockFault (List (List Char))
  | [] => if pending.isEmpty then .ok [] else .error (.outside pending.reverse)
  | c :: rest =>
    if c = '}' then
      match depth with
      | 0 => .error (.unmatched offset (pending.reverse ++ c :: rest))
      | 1 => (cutBlocks (offset + 1) 0 [] rest).map ((c :: pending).reverse :: ·)
      | depth + 2 => cutBlocks (offset + 1) (depth + 1) (c :: pending) rest
    else
      cutBlocks (offset + 1) (if c = '{' then depth + 1 else depth) (c :: pending) rest

/-- The blocks of a text. The body of an animation is always a single block. -/
def splitBlocks (css : List Char) (asKeyframes : Bool) : Except BlockFault (List (List Char)) :=
  if asKeyframes then .ok [css] else cutBlocks 0 0 [] css

end CssTemplate
