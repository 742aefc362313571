import CssTemplate.Text.Blank

/-!
# Written text

What the program writes is plain text: colour codes and the like, which start with an escape
character and an opening square bracket, are removed before it is written, and a line end is
one character.
-/

namespace CssTemplate.CommandLine

/-- A parameter of a terminal escape. -/
def isCodeParameter (c : Char) : Bool :=
  0x30 ≤ c.toNat && c.toNat ≤ 0x3F

/-- A character between the parameters of a terminal escape and its end. -/
def isCodeIntermediate (c : Char) : Bool :=
  0x20 ≤ c.toNat && c.toNat ≤ 0x2F

/-- The character that ends a terminal escape. -/
def endsCode (c : Char) : Bool :=
  0x40 ≤ c.toNat && c.toNat ≤ 0x7E

/-- The text after the code of a terminal escape: parameters, intermediate characters, and the
character that ends it. -/
def afterCode? (text : List Char) : Option (List Char) :=
  match (text.dropWhile isCodeParameter).dropWhile isCodeIntermediate with
  | [] => none
  | c :: rest => if endsCode c then some rest else none

/-- The text after a terminal escape at its front. -/
def afterEscape? : List Char → Option (List Char)
  | '\x1b' :: '[' :: rest => afterCode? rest
  | _ => none

/-- A terminal code leaves less than there was. -/
theorem length_of_afterCode? {text rest : List Char} (h : afterCode? text = some rest) :
    rest.length < text.length := by
  have h1 := length_dropWhile_le isCodeParameter text
  have h2 := length_dropWhile_le isCodeIntermediate (text.dropWhile isCodeParameter)
  unfold afterCode? at h
  split at h
  · cases h
  · next c after hc =>
    rw [hc, List.length_cons] at h2
    split at h
    · cases h; omega
    · cases h

/-- A terminal escape leaves less than there was. -/
theorem length_of_afterEscape? {text rest : List Char} (h : afterEscape? text = some rest) :
    rest.length < text.length := by
  unfold afterEscape? at h
  split at h
  · have := length_of_afterCode? h
    simp only [List.length_cons]
    omega
  · cases h

/-- A text without its terminal escapes. -/
def plainText : List Char → List Char
  | [] => []
  | c :: rest =>
    match _h : afterEscape? (c :: rest) with
    | some after => plainText after
    | none => c :: plainText rest
termination_by text => text.length
decreasing_by
  · exact length_of_afterEscape? (by assumption)
  · simp

/-- A text with its line ends of two characters written as one. -/
def singleLineEnds : List Char → List Char
  | [] => []
  | '\r' :: '\n' :: rest => '\n' :: singleLineEnds rest
  | c :: rest => c :: singleLineEnds rest

/-- A text as the program writes it. -/
def written (text : List Char) : List Char :=
  singleLineEnds (plainText text)

end CssTemplate.CommandLine
