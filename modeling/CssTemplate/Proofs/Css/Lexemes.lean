import CssTemplate.Proofs.Css.TokenForm
import Mathlib

/-!
# Texts of lexemes

A lexeme is what the printers write at a time: the text of a token, trimmed if the token stands at an
end of its list, or an empty comment. A text of lexemes is read as their tokens, if no lexeme goes on in
the text after it and trimming takes nothing from it (`scan_lexemesText`). The tokens of components in a
row give the components back (`ofTokens_tokensOf`), and so does what is written for them
(`parse_lexemesText`).
-/

namespace CssTemplate.Css

/-- What is written at a time: a token, with marks if it is the first or the last one of a list that is
trimmed, or an empty comment. -/
inductive Lexeme where
  | token (token : Token) (first last : Bool)
  | comment
  deriving DecidableEq, Repr

namespace Lexeme

/-- The text of a lexeme. -/
def text : Lexeme → List Char
  | .token t _ last => shortened last t.text
  | .comment => ['/', '*', '*', '/']

/-- The token of a lexeme, if it has one. -/
def tokens : Lexeme → List Token
  | .token t _ _ => [t]
  | .comment => []

/-- Whether trimming takes nothing from a lexeme. -/
def isFirm : Lexeme → Bool
  | .token t first last => (!first || t.startsFirm) && (!last || t.endsFirm)
  | .comment => true

/-- Whether a lexeme goes on in the text after it. A trimmed text must not be followed by the white
space that it lost. -/
def goesOn : Lexeme → List Char → Bool
  | .token t _ last, after => t.goesOn after || (last && after.head?.any isSpace)
  | .comment, _ => false

end Lexeme

/-- The text of lexemes in a row. -/
def lexemesText (ls : List Lexeme) : List Char :=
  ls.flatMap Lexeme.text

/-- The tokens of lexemes in a row. -/
def lexemesTokens (ls : List Lexeme) : List Token :=
  ls.flatMap Lexeme.tokens

/-- Whether no lexeme goes on in the text after it, and trimming takes nothing from it. -/
def settled : List Lexeme → Bool
  | [] => true
  | l :: ls => l.isFirm && !l.goesOn (lexemesText ls) && settled ls

section
variable {text rest : List Char} {l : Lexeme} {ls : List Lexeme}

/-- No lexemes have no text. -/
@[simp] theorem lexemesText_nil : lexemesText [] = [] := rfl

/-- The text of lexemes is that of the first one and that of the rest. -/
@[simp] theorem lexemesText_cons (l : Lexeme) (ls : List Lexeme) :
    lexemesText (l :: ls) = l.text ++ lexemesText ls :=
  List.flatMap_cons

/-- Lexemes are written one after the other. -/
@[simp] theorem lexemesText_append (ls ms : List Lexeme) :
    lexemesText (ls ++ ms) = lexemesText ls ++ lexemesText ms :=
  List.flatMap_append

/-- No lexemes stand for no tokens. -/
@[simp] theorem lexemesTokens_nil : lexemesTokens [] = [] := rfl

/-- The tokens of lexemes are those of the first one and those of the rest. -/
@[simp] theorem lexemesTokens_cons (l : Lexeme) (ls : List Lexeme) :
    lexemesTokens (l :: ls) = l.tokens ++ lexemesTokens ls :=
  List.flatMap_cons

/-- Lexemes stand for their tokens one after the other. -/
@[simp] theorem lexemesTokens_append (ls ms : List Lexeme) :
    lexemesTokens (ls ++ ms) = lexemesTokens ls ++ lexemesTokens ms :=
  List.flatMap_append

/-- Settled lexemes are firm where they are trimmed. -/
theorem isFirm_of_settled (h : settled ls = true) : ∀ l ∈ ls, l.isFirm = true := by
  induction ls with
  | nil => exact List.forall_mem_nil _
  | cons l ls ih =>
    simp only [settled, Bool.and_eq_true] at h
    exact List.forall_mem_cons.2 ⟨h.1.1, ih h.2⟩

/-- A token is firm if trimming leaves those of its ends alone at which it is trimmed. -/
theorem Lexeme.isFirm_iff {t : Token} {first last : Bool} : (Lexeme.token t first last).isFirm = true ↔
    (first = true → t.startsFirm = true) ∧ (last = true → t.endsFirm = true) := by
  cases first <;> cases last <;> simp [Lexeme.isFirm]

/-! ## Reading lexemes -/

/-- A lexeme is read as its token, up to the text after it. -/
theorem Lexeme.exists_readToken (h : ∀ t ∈ l.tokens, t.Spelled) (hfirm : l.isFirm = true)
    (hstop : l.goesOn rest = false) :
    ∃ c more, l.text = c :: more ∧ readToken c (more ++ rest) = (l.tokens, rest) := by
  cases l with
  | comment => exact ⟨_, _, rfl, rfl⟩
  | token t first last =>
    obtain ⟨hgoes, hspace⟩ := Bool.or_eq_false_iff.1 hstop
    have hspelled : t.Spelled := h t List.mem_cons_self
    refine hspelled.readBack hgoes (Lexeme.isFirm_iff.1 hfirm).2 ?_
    rintro rfl d hd
    rwa [Bool.true_and, Option.mem_def.1 hd] at hspace

/-- A lexeme gives its token, and then comes what the text after it gives. -/
theorem Lexeme.scan (h : ∀ t ∈ l.tokens, t.Spelled) (hfirm : l.isFirm = true)
    (hstop : l.goesOn rest = false) : scan (l.text ++ rest) = l.tokens ++ Css.scan rest := by
  obtain ⟨c, more, htext, hread⟩ := Lexeme.exists_readToken h hfirm hstop
  rw [htext, List.cons_append, Css.scan, hread]

/-- The text of settled lexemes is read as their tokens. -/
theorem scan_lexemesText (h : ∀ t ∈ lexemesTokens ls, t.Spelled) (hsettled : settled ls = true) :
    scan (lexemesText ls) = lexemesTokens ls := by
  induction ls with
  | nil => rw [lexemesText_nil, scan, lexemesTokens_nil]
  | cons l ls ih =>
    rw [lexemesTokens_cons, List.forall_mem_append] at h
    simp only [settled, Bool.and_eq_true, Bool.not_eq_true'] at hsettled
    rw [lexemesText_cons, Lexeme.scan h.1 hsettled.1.1 hsettled.1.2, ih h.2 hsettled.2,
      lexemesTokens_cons]

/-- A preprocessed text stays so when it is shortened. -/
theorem isNormal_shortened (h : IsNormal text) (short : Bool) : IsNormal (shortened short text) := by
  cases short with
  | false => exact h
  | true =>
    obtain ⟨tail, htail, -⟩ := exists_trimEnd_append isBlank text
    rw [htail] at h
    exact (List.forall_mem_append.1 h).1

/-- Lexemes whose tokens can be spelled are written as a preprocessed text. -/
theorem isNormal_lexemesText (h : ∀ t ∈ lexemesTokens ls, t.Spelled) : IsNormal (lexemesText ls) := by
  induction ls with
  | nil => exact isNormal_nil
  | cons l ls ih =>
    rw [lexemesTokens_cons, List.forall_mem_append] at h
    refine .append ?_ (ih h.2)
    cases l with
    | comment => exact isNormal_of_all (by decide)
    | token t first last => exact isNormal_shortened (h.1 t List.mem_cons_self).formed.isNormal last

end

/-! ## The tokens of components -/

mutual

/-- The tokens of a component, with the closing of each group. -/
def Component.tokens : Component → List Token
  | .atom a => [.atom a]
  | .group o content => .opening o :: (tokensOf content ++ [.closing o.closedBy])

/-- The tokens of components in a row. -/
def tokensOf : List Component → List Token
  | [] => []
  | c :: cs => c.tokens ++ tokensOf cs

end

mutual

/-- Grouping the tokens of a component pushes the component. -/
theorem Component.foldl_tokens (n : OpenGroups) : ∀ c : Component,
    c.tokens.foldl OpenGroups.step n = n.push c
  | .atom a => rfl
  | .group o content => by
    rw [Component.tokens, List.foldl_cons, List.foldl_append, foldl_tokensOf]
    simp [OpenGroups.step, OpenGroups.push]

/-- Grouping the tokens of components pushes them one by one. -/
theorem foldl_tokensOf (n : OpenGroups) : ∀ cs : List Component,
    (tokensOf cs).foldl OpenGroups.step n = { n with current := cs.reverse ++ n.current }
  | [] => rfl
  | c :: cs => by
    rw [tokensOf, List.foldl_append, c.foldl_tokens, foldl_tokensOf]
    simp [OpenGroups.push]

end

/-- The tokens of components give the components back. -/
theorem ofTokens_tokensOf (cs : List Component) : Component.ofTokens (tokensOf cs) = cs := by
  rw [Component.ofTokens, foldl_tokensOf]
  simp [OpenGroups.finish, OpenGroups.closeAll]

/-- A property of all tokens of a row is one of the tokens of each component. -/
theorem forall_mem_tokensOf {P : Token → Prop} {cs : List Component} :
    (∀ t ∈ tokensOf cs, P t) ↔ ∀ c ∈ cs, ∀ t ∈ c.tokens, P t := by
  induction cs with
  | nil => simp [tokensOf]
  | cons c cs ih => rw [tokensOf, List.forall_mem_append, ih, List.forall_mem_cons]

/-- What reading gives has tokens of the right form. -/
theorem formed_parse (css : List Char) : ∀ t ∈ tokensOf (Component.parse css), t.Formed := by
  have hscan : ∀ t ∈ scan (normalize css), t.Formed := formed_scan (isNormal_normalize css)
  refine forall_mem_tokensOf.2 (Component.forall_ofTokens ?_ ?_ ?_)
  · exact fun a ha => List.forall_mem_singleton.2 (hscan _ ha)
  · exact fun b => List.forall_mem_singleton.2 trivial
  · intro o content ho hcontent
    refine List.forall_mem_cons.2 ⟨hscan _ ho, List.forall_mem_append.2 ⟨?_, ?_⟩⟩
    · exact forall_mem_tokensOf.2 hcontent
    · exact List.forall_mem_singleton.2 trivial

/-! ## The lexemes of components -/

/-- A comment between two neighbours that would be read as one token. -/
def separatorLexemes (before : Option Kind) (next : Component) : List Lexeme :=
  if before.any fun k => k.clashes next.kind then [.comment] else []

mutual

/-- What is written for a component, exactly or trimmed. -/
def Component.lexemes (exactly first last : Bool) : Component → List Lexeme
  | .atom a => [.token (.atom a) first last]
  | .group o content =>
    .token (.opening o) first false ::
      (lexemesOf (exactly || o == .bracket .curly) none content ++
        [.token (.closing o.closedBy) false false])

/-- What is written for components in a row, after a neighbour of the given sort. An exact text has
comments between neighbours, another one is trimmed at its ends. -/
def lexemesOf (exactly : Bool) (before : Option Kind) : List Component → List Lexeme
  | [] => []
  | c :: cs =>
    (if exactly then separatorLexemes before c else []) ++
      c.lexemes exactly (!exactly && before.isNone) (!exactly && cs.isEmpty) ++
      lexemesOf exactly (some c.kind) cs

end

/-- What keeps neighbours apart is no token. -/
theorem lexemesTokens_separator (exactly : Bool) (before : Option Kind) (next : Component) :
    lexemesTokens (if exactly then separatorLexemes before next else []) = [] := by
  unfold separatorLexemes
  split
  · split <;> rfl
  · rfl

mutual

/-- The lexemes of a component stand for its tokens. -/
theorem Component.lexemesTokens_lexemes (exactly first last : Bool) : ∀ c : Component,
    lexemesTokens (c.lexemes exactly first last) = c.tokens
  | .atom a => rfl
  | .group o content => by
    rw [Component.lexemes, Component.tokens, lexemesTokens_cons, lexemesTokens_append,
      lexemesTokens_lexemesOf]
    rfl

/-- The tokens of what is written for components are the tokens of the components. -/
theorem lexemesTokens_lexemesOf (exactly : Bool) (before : Option Kind) : ∀ cs : List Component,
    lexemesTokens (lexemesOf exactly before cs) = tokensOf cs
  | [] => rfl
  | c :: cs => by
    rw [lexemesOf, tokensOf, lexemesTokens_append, lexemesTokens_append, lexemesTokens_separator,
      List.nil_append, c.lexemesTokens_lexemes, lexemesTokens_lexemesOf]

end

/-- What is written for components is read as these components, if it is settled. -/
theorem parse_lexemesText {exactly : Bool} {before : Option Kind} {cs : List Component}
    (h : ∀ t ∈ tokensOf cs, t.Spelled) (hsettled : settled (lexemesOf exactly before cs) = true) :
    Component.parse (lexemesText (lexemesOf exactly before cs)) = cs := by
  rw [← lexemesTokens_lexemesOf exactly before cs] at h
  rw [Component.parse, (isNormal_lexemesText h).normalize, scan_lexemesText h hsettled,
    lexemesTokens_lexemesOf, ofTokens_tokensOf]

end CssTemplate.Css
