/-!
# Similar words

How much two words have in common: their longest shared run of characters, and on either side
of it the same again (`sharedCount`). `closeMatches` picks from a list of known words those that
a mistyped word may stand for.
-/

namespace CssTemplate

/-! ## The longest shared run -/

/-- How many characters two words share at their front. -/
def commonLength : List Char → List Char → Nat
  | a :: as, b :: bs => if a = b then commonLength as bs + 1 else 0
  | _, _ => 0

/-- Where the longest run that starts a word occurs in another one, and its length; of equally
long ones, the first. -/
def longestAtFront (word : List Char) : List Char → Nat × Nat
  | [] => (0, 0)
  | b :: bs =>
    let here := commonLength word (b :: bs)
    let later := longestAtFront word bs
    if here < later.2 then (later.1 + 1, later.2) else (0, here)

/-- A run of characters that two words share: where it starts in the one and in the other, and
its length. -/
structure SharedRun where
  left : Nat
  right : Nat
  length : Nat
  deriving DecidableEq, Repr, Inhabited

/-- The longest run that two words share; of equally long ones the first in the left word, and
then the first in the right one. -/
def longestShared : List Char → List Char → SharedRun
  | [], _ => ⟨0, 0, 0⟩
  | a :: as, other =>
    let here := longestAtFront (a :: as) other
    let later := longestShared as other
    if here.2 < later.length then { later with left := later.left + 1 }
    else ⟨0, here.1, here.2⟩

/-- Two texts have no more in common than the length of the first one. -/
theorem commonLength_le : ∀ a b : List Char, commonLength a b ≤ a.length
  | [], _ => Nat.zero_le _
  | _ :: _, [] => Nat.zero_le _
  | a :: as, b :: bs => by
    rw [commonLength]
    split
    · exact Nat.succ_le_succ (commonLength_le as bs)
    · exact Nat.zero_le _

/-- The longest common part is no longer than the word. -/
theorem longestAtFront_le (word other : List Char) :
    (longestAtFront word other).2 ≤ word.length := by
  induction other with
  | nil => exact Nat.zero_le _
  | cons b bs ih =>
    rw [longestAtFront]
    split
    · exact ih
    · exact commonLength_le word (b :: bs)

/-- The longest shared run lies inside the left word. -/
theorem longestShared_le (word other : List Char) :
    (longestShared word other).left + (longestShared word other).length ≤ word.length := by
  induction word with
  | nil => exact Nat.le_refl _
  | cons a as ih =>
    rw [longestShared]
    split
    · simp only [List.length_cons]; omega
    · have := longestAtFront_le (a :: as) other
      simp only; omega

/-! ## Similarity -/

/-- How many characters two words have in common: those of their longest shared run, and those
that the parts before it and the parts after it have in common. -/
def sharedCount (a b : List Char) : Nat :=
  let run := longestShared a b
  if _hrun : run.length = 0 then 0
  else
    run.length + sharedCount (a.take run.left) (b.take run.right) +
      sharedCount (a.drop (run.left + run.length)) (b.drop (run.right + run.length))
termination_by a.length
decreasing_by
  · have hle := longestShared_le a b
    have hpos : (longestShared a b).length ≠ 0 := by assumption
    rw [List.length_take]
    omega
  · have hle := longestShared_le a b
    have hpos : (longestShared a b).length ≠ 0 := by assumption
    rw [List.length_drop]
    omega

/-- The length of two words together. -/
def totalLength (a b : List Char) : Nat :=
  a.length + b.length

/-- Whether a known word is close to a given one: at least three in five of their characters are
in common. -/
def isClose (word known : List Char) : Bool :=
  3 * totalLength known word ≤ 10 * sharedCount known word

/-- Whether the first of two known words is closer to a given one than the second: by the share
of common characters, and then by the alphabet. -/
def isCloser (word first second : List Char) : Bool :=
  let one := sharedCount first word * totalLength second word
  let two := sharedCount second word * totalLength first word
  two < one || (one = two && second < first)

/-- The known words that are close to a given one, at most three of them, in the order in which
they are known. -/
def closeMatches (known : List (List Char)) (word : List Char) : List (List Char) :=
  known.filter fun candidate =>
    isClose word candidate && known.countP (isCloser word · candidate) < 3

end CssTemplate
