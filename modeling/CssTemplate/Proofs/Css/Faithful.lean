import CssTemplate.Proofs.Css.Lexemes
import Mathlib

/-!
# Minified text that reads back

Minified text is written without comments, so two tokens can become one in it
(`minify_joins_lengths`). What is written for a list of components are the lexemes `minifiedLexemes`. If
the text of each token spells it, and these lexemes are settled, reading the minified text gives the
components again, up to runs of white space and white space at the ends of lists, functions and round and
square blocks (`squeezed_minify`).

The components that come back are those of `trimmedRow`: outside of curly blocks white space is collapsed
and trimmed, and inside of them, where everything is written exactly, two neighbours of white space come
back as one (`joinedRow`).
-/

namespace CssTemplate.Css

/-! ## Components up to white space -/

mutual

/-- A component with its white space squeezed: runs of it become one space, and none is left at the ends
of functions and of round and square blocks. -/
def Component.squeezed : Component → Component
  | .atom a => .atom a
  | .group o content => .group o (squeezedRow (o != .bracket .curly) (o != .bracket .curly) content)

/-- Components in a row with their white space squeezed. White space is skipped at the start and after
other white space; where ends are trimmed, none is left at the end. -/
def squeezedRow (trims skip : Bool) : List Component → List Component
  | [] => []
  | c :: cs =>
    if c.isSpace then
      if skip then squeezedRow trims true cs
      else if trims && cs.all Component.isSpace then []
      else .atom (.space [' ']) :: squeezedRow trims true cs
    else c.squeezed :: squeezedRow trims false cs

end

/-- Components up to runs of white space and white space at ends. -/
def squeezed (cs : List Component) : List Component :=
  squeezedRow true true cs

/-! ## Components as they are written -/

/-- A component before others, with two neighbours of white space joined. -/
def joinTo : Component → List Component → List Component
  | .atom (.space a), .atom (.space b) :: cs => .atom (.space (a ++ b)) :: cs
  | c, cs => c :: cs

mutual

/-- A component with the white space in it joined. -/
def Component.joined : Component → Component
  | .atom a => .atom a
  | .group o content => .group o (joinedRow content)

/-- Components in a row with their white space joined. -/
def joinedRow : List Component → List Component
  | [] => []
  | c :: cs => joinTo c.joined (joinedRow cs)

end

mutual

/-- A component with its white space trimmed. In curly blocks it is joined. -/
def Component.trimmed : Component → Component
  | .atom a => .atom a
  | .group o content =>
    .group o (if o = .bracket .curly then joinedRow content else trimmedRow true content)

/-- Components in a row with their white space trimmed. -/
def trimmedRow (skip : Bool) : List Component → List Component
  | [] => []
  | c :: cs =>
    if c.isSpace then
      if skip then trimmedRow true cs
      else if cs.all Component.isSpace then []
      else .atom (.space [' ']) :: trimmedRow true cs
    else c.trimmed :: trimmedRow false cs

end

/-- What is written for a list of components. -/
def minifiedLexemes (cs : List Component) : List Lexeme :=
  lexemesOf false none (trimmedRow true cs)

section
variable {trims skip : Bool}

/-! ## White space is all that changes -/

/-- Joining the white space inside a component does not make it white space. -/
theorem isSpace_joined (c : Component) : c.joined.isSpace = c.isSpace := by
  cases c with
  | atom a => rfl
  | group o content => rfl

/-- Trimming the white space inside a component does not make it white space. -/
theorem isSpace_trimmed (c : Component) : c.trimmed.isSpace = c.isSpace := by
  cases c with
  | atom a => rfl
  | group o content => rfl

/-- Joining two neighbours keeps whether there is anything but white space. -/
theorem all_joinTo (c : Component) (cs : List Component) :
    (joinTo c cs).all Component.isSpace = (c :: cs).all Component.isSpace := by
  unfold joinTo
  split <;> rfl

/-- Joining neighbours keeps whether there is anything but white space. -/
theorem all_joinedRow (cs : List Component) :
    (joinedRow cs).all Component.isSpace = cs.all Component.isSpace := by
  induction cs with
  | nil => rfl
  | cons c cs ih => rw [joinedRow, all_joinTo, List.all_cons, List.all_cons, isSpace_joined, ih]

/-- Two neighbours of white space squeeze to what they squeeze to once joined. -/
theorem squeezedRow_joinTo (c : Component) (cs : List Component) :
    squeezedRow trims skip (joinTo c cs) = squeezedRow trims skip (c :: cs) := by
  unfold joinTo
  split
  · next a b cs => simp [squeezedRow, Component.isSpace]
  · rfl

mutual

/-- A component with its white space joined squeezes to the same component. -/
theorem Component.squeezed_joined : ∀ c : Component, c.joined.squeezed = c.squeezed
  | .atom a => rfl
  | .group o content => by
    rw [Component.joined, Component.squeezed, Component.squeezed, squeezedRow_joinedRow]

/-- Joining white space does not matter where it is squeezed. -/
theorem squeezedRow_joinedRow {trims skip : Bool} : ∀ cs : List Component,
    squeezedRow trims skip (joinedRow cs) = squeezedRow trims skip cs
  | [] => rfl
  | c :: cs => by
    rw [joinedRow, squeezedRow_joinTo, squeezedRow, squeezedRow, isSpace_joined, all_joinedRow,
      c.squeezed_joined, squeezedRow_joinedRow cs, squeezedRow_joinedRow cs]

end

/-- Nothing is left of white space at the end of a row. -/
theorem trimmedRow_of_all {cs : List Component} (h : cs.all Component.isSpace = true) :
    trimmedRow skip cs = [] := by
  induction cs generalizing skip with
  | nil => rfl
  | cons c cs ih =>
    rw [List.all_cons, Bool.and_eq_true] at h
    rw [trimmedRow, if_pos h.1, if_pos h.2, ih h.2]
    split <;> rfl

/-- Trimming keeps whether there is anything but white space. -/
theorem all_trimmedRow (cs : List Component) :
    (trimmedRow skip cs).all Component.isSpace = cs.all Component.isSpace := by
  induction cs generalizing skip with
  | nil => rfl
  | cons c cs ih =>
    rw [trimmedRow]
    split
    · next hspace =>
      rw [List.all_cons, hspace, Bool.true_and]
      split
      · exact ih
      · split
        · next hall => exact hall.symm
        · rw [List.all_cons, ih]
          rfl
    · next hspace =>
      rw [Bool.not_eq_true] at hspace
      rw [List.all_cons, List.all_cons, isSpace_trimmed, hspace, Bool.false_and, Bool.false_and]

mutual

/-- A component with its white space trimmed squeezes to the same component. -/
theorem Component.squeezed_trimmed : ∀ c : Component, c.trimmed.squeezed = c.squeezed
  | .atom a => rfl
  | .group o content => by
    rw [Component.trimmed, Component.squeezed, Component.squeezed]
    split
    · rw [squeezedRow_joinedRow]
    · next ho =>
      have htrims : (o != .bracket .curly) = true := by simpa using ho
      rw [htrims, squeezedRow_trimmedRow]

/-- Trimming does not matter where white space is squeezed. -/
theorem squeezedRow_trimmedRow {skip : Bool} : ∀ cs : List Component,
    squeezedRow true skip (trimmedRow skip cs) = squeezedRow true skip cs
  | [] => rfl
  | c :: cs => by
    rw [trimmedRow, squeezedRow]
    split
    · split
      · next hskip => rw [hskip, squeezedRow_trimmedRow cs]
      · next hskip =>
        rw [Bool.not_eq_true] at hskip
        subst hskip
        by_cases hall : cs.all Component.isSpace = true
        · rw [if_pos hall, if_pos (by simpa using hall)]
          rfl
        · have hspace : (Component.atom (.space [' '])).isSpace = true := rfl
          rw [if_neg hall, if_neg (by simpa using hall), squeezedRow, all_trimmedRow, if_pos hspace,
            if_neg Bool.false_ne_true, if_neg (by simpa using hall), squeezedRow_trimmedRow cs]
    · next hspace =>
      rw [squeezedRow, isSpace_trimmed, if_neg hspace, c.squeezed_trimmed, squeezedRow_trimmedRow cs]

end

/-! ## Tokens that their texts spell -/

/-- The tokens of a row can be spelled if those of its head and of its rest can. -/
theorem spelled_cons {c : Component} {cs : List Component} :
    (∀ t ∈ tokensOf (c :: cs), t.Spelled) ↔
      (∀ t ∈ c.tokens, t.Spelled) ∧ ∀ t ∈ tokensOf cs, t.Spelled := by
  rw [tokensOf, List.forall_mem_append]

/-- The tokens of a group can be spelled if its opening and the tokens of its content can. -/
theorem spelled_group {o : Opening} {content : List Component} :
    (∀ t ∈ (Component.group o content).tokens, t.Spelled) ↔
      (Token.opening o).Spelled ∧ ∀ t ∈ tokensOf content, t.Spelled := by
  have hclose : (Token.closing o.closedBy).Spelled := ⟨trivial, rfl⟩
  rw [Component.tokens, List.forall_mem_cons, List.forall_mem_append, List.forall_mem_singleton]
  exact and_congr_right fun _ => and_iff_left hclose

/-- White space can be spelled if it is a run of space characters. -/
theorem spelled_space {text : List Char} :
    (∀ t ∈ (Component.atom (.space text)).tokens, t.Spelled) ↔
      text ≠ [] ∧ ∀ c ∈ text, isSpace c = true := by
  rw [Component.tokens, List.forall_mem_singleton]
  exact ⟨fun h => h.formed, fun h => ⟨h, rfl⟩⟩

/-- Joining two neighbours of white space leaves tokens that can be spelled. -/
theorem spelled_joinTo {c : Component} {cs : List Component} (h : ∀ t ∈ tokensOf (c :: cs), t.Spelled) :
    ∀ t ∈ tokensOf (joinTo c cs), t.Spelled := by
  unfold joinTo
  split
  · next a b cs =>
    rw [spelled_cons, spelled_cons, spelled_space, spelled_space] at h
    obtain ⟨⟨hne, ha⟩, ⟨-, hb⟩, hcs⟩ := h
    refine spelled_cons.2 ⟨spelled_space.2 ⟨?_, List.forall_mem_append.2 ⟨ha, hb⟩⟩, hcs⟩
    exact List.append_ne_nil_of_left_ne_nil hne b
  · exact h

mutual

/-- The tokens of a component can be spelled after its white space has been joined. -/
theorem Component.spelled_joined : ∀ c : Component, (∀ t ∈ c.tokens, t.Spelled) →
    ∀ t ∈ c.joined.tokens, t.Spelled
  | .atom a, h => h
  | .group o content, h => by
    rw [spelled_group] at h
    exact spelled_group.2 ⟨h.1, spelled_joinedRow content h.2⟩

/-- The tokens of a row can be spelled after its white space has been joined. -/
theorem spelled_joinedRow : ∀ cs : List Component, (∀ t ∈ tokensOf cs, t.Spelled) →
    ∀ t ∈ tokensOf (joinedRow cs), t.Spelled
  | [], h => h
  | c :: cs, h => by
    rw [spelled_cons] at h
    exact spelled_joinTo (spelled_cons.2 ⟨c.spelled_joined h.1, spelled_joinedRow cs h.2⟩)

end

mutual

/-- The tokens of a component can be spelled after its white space has been trimmed. -/
theorem Component.spelled_trimmed : ∀ c : Component, (∀ t ∈ c.tokens, t.Spelled) →
    ∀ t ∈ c.trimmed.tokens, t.Spelled
  | .atom a, h => h
  | .group o content, h => by
    rw [spelled_group] at h
    refine spelled_group.2 ⟨h.1, ?_⟩
    split
    · exact spelled_joinedRow content h.2
    · exact spelled_trimmedRow content h.2

/-- The tokens of a row can be spelled after its white space has been trimmed. -/
theorem spelled_trimmedRow {skip : Bool} : ∀ cs : List Component, (∀ t ∈ tokensOf cs, t.Spelled) →
    ∀ t ∈ tokensOf (trimmedRow skip cs), t.Spelled
  | [], h => h
  | c :: cs, h => by
    have hspace : ∀ t ∈ (Component.atom (.space [' '])).tokens, t.Spelled :=
      spelled_space.2 ⟨List.cons_ne_nil _ _, List.forall_mem_singleton.2 rfl⟩
    rw [spelled_cons] at h
    rw [trimmedRow]
    split
    · split
      · exact spelled_trimmedRow cs h.2
      · split
        · exact List.forall_mem_nil _
        · exact spelled_cons.2 ⟨hspace, spelled_trimmedRow cs h.2⟩
    · exact spelled_cons.2 ⟨c.spelled_trimmed h.1, spelled_trimmedRow cs h.2⟩

end

/-! ## Exact texts -/

mutual

/-- A component whose tokens can be spelled ends in no open string. -/
theorem Component.endsInOpenString_of_spelled : ∀ c : Component, (∀ t ∈ c.tokens, t.Spelled) →
    c.endsInOpenString = false
  | .atom a, h => by
    have ha := (h (.atom a) (by simp [Component.tokens])).steady
    cases a with
    | fault f => cases ha
    | _ => rfl
  | .group (.bracket b) content, _ => rfl
  | .group (.function name) arguments, h => by
    rw [Component.endsInOpenString]
    exact endInOpenString_of_spelled arguments (spelled_group.1 h).2

/-- A row whose tokens can be spelled ends in no open string. -/
theorem endInOpenString_of_spelled : ∀ cs : List Component, (∀ t ∈ tokensOf cs, t.Spelled) →
    endInOpenString cs = false
  | [], _ => rfl
  | [c], h => by
    rw [endInOpenString]
    exact c.endsInOpenString_of_spelled (spelled_cons.1 h).1
  | _ :: c :: cs, h => by
    rw [endInOpenString]
    exact endInOpenString_of_spelled (c :: cs) (spelled_cons.1 h).2

end

/-- A group is written between its brackets, unless its content ends in an open string. -/
theorem text_group {o : Opening} {content : List Component} (h : endInOpenString content = false) :
    (Component.group o content).text =
      (Token.opening o).text ++ (contentText none content ++ [o.closedBy.closeChar]) := by
  cases o with
  | bracket b => rfl
  | function name => simp [Component.text, Token.text, h, Opening.closedBy, Bracket.closeChar]

/-- The lexemes of an atom are written as its text, shortened where it is the last. -/
theorem lexemesText_atom (exactly first last : Bool) (a : Atom) :
    lexemesText ((Component.atom a).lexemes exactly first last) = shortened last a.text :=
  List.append_nil _

/-- The lexemes of a group are written between its brackets. -/
theorem lexemesText_group (o : Opening) (first : Bool) (ls : List Lexeme) :
    lexemesText (.token (.opening o) first false :: (ls ++ [.token (.closing o.closedBy) false false])) =
      (Token.opening o).text ++ (lexemesText ls ++ [o.closedBy.closeChar]) := by
  rw [lexemesText_cons, lexemesText_append]
  rfl

/-- Joining the white space inside a component does not change its sort. -/
theorem kind_joined (c : Component) : c.joined.kind = c.kind := by
  cases c with
  | atom a => rfl
  | group o content => cases o <;> rfl

/-- White space can stand next to everything. -/
theorem clashes_space (k : Kind) : k.clashes .space = false := by
  simp [Kind.clashes, Kind.startsWord, Kind.startsLikeName, Kind.startsLikeNumber]

/-- White space in front of a row is written as it is, and nothing separates the row from it. -/
theorem lexemesText_space (before : Option Kind) (text : List Char) (cs : List Component) :
    lexemesText (lexemesOf true before (.atom (.space text) :: cs)) =
      text ++ lexemesText (lexemesOf true (some .space) cs) := by
  have hnone : separatorLexemes before (.atom (.space text)) = [] := by
    cases before with
    | none => rfl
    | some k => simp [separatorLexemes, Component.kind, Atom.kind, clashes_space]
  rw [lexemesOf, if_pos rfl, hnone]
  rfl

/-- Joining two neighbours of white space does not change what is written. -/
theorem lexemesText_joinTo {before : Option Kind} (c : Component) (cs : List Component) :
    lexemesText (lexemesOf true before (joinTo c cs)) =
      lexemesText (lexemesOf true before (c :: cs)) := by
  unfold joinTo
  split
  · rw [lexemesText_space, lexemesText_space, lexemesText_space, List.append_assoc]
  · rfl

/-- What keeps two neighbours apart, after anything but a lone backslash. -/
theorem lexemesText_separator {before : Option Kind} (h : before ≠ some (.literal ['\\']))
    (c : Component) : lexemesText (separatorLexemes before c) = separator before c := by
  cases before with
  | none => rfl
  | some k =>
    have hk : k ≠ .literal ['\\'] := fun hk => h (congrArg some hk)
    rw [separatorLexemes, separator, Option.any_some]
    split
    · rfl
    · simp [hk]

/-- A component whose tokens can be spelled is no lone backslash. -/
theorem kind_ne_backslash {c : Component} (h : ∀ t ∈ c.tokens, t.Spelled) :
    c.kind ≠ .literal ['\\'] := by
  intro hkind
  cases c with
  | group o content => cases o <;> cases hkind
  | atom a =>
    cases a with
    | literal text =>
      obtain rfl : text = ['\\'] := Kind.literal.inj hkind
      cases (h (.atom (.literal ['\\'])) (by simp [Component.tokens])).steady
    | _ => cases hkind

mutual

/-- The lexemes of a component are written as the component is. -/
theorem Component.lexemesText_exact : ∀ c : Component, (∀ t ∈ c.tokens, t.Spelled) →
    lexemesText (c.lexemes true false false) = c.text
  | .atom a, _ => lexemesText_atom true false false a
  | .group o content, h => by
    have hcontent := (spelled_group.1 h).2
    rw [Component.lexemes, Bool.true_or, lexemesText_group,
      lexemesText_exactRow (by simp) content hcontent,
      text_group (endInOpenString_of_spelled content hcontent)]

/-- The lexemes of a row are written as the row is. -/
theorem lexemesText_exactRow {before : Option Kind} (hbefore : before ≠ some (.literal ['\\'])) :
    ∀ cs : List Component, (∀ t ∈ tokensOf cs, t.Spelled) →
      lexemesText (lexemesOf true before cs) = contentText before cs
  | [], _ => rfl
  | c :: cs, h => by
    obtain ⟨hc, hcs⟩ := spelled_cons.1 h
    have hkind : some c.kind ≠ some (.literal ['\\']) :=
      fun h => kind_ne_backslash hc (Option.some.inj h)
    rw [lexemesOf, if_pos rfl, lexemesText_append, lexemesText_append, lexemesText_separator hbefore,
      lexemesText_exactRow hkind cs hcs, contentText]
    simp only [Bool.not_true, Bool.false_and, c.lexemesText_exact hc]

end

mutual

/-- Joining the white space inside a component does not change what is written. -/
theorem Component.lexemesText_joined : ∀ c : Component,
    lexemesText (c.joined.lexemes true false false) = lexemesText (c.lexemes true false false)
  | .atom a => rfl
  | .group o content => by
    rw [Component.joined, Component.lexemes, Component.lexemes, Bool.true_or, lexemesText_group,
      lexemesText_group, lexemesText_joinedRow]

/-- Joining the white space of a row does not change what is written. -/
theorem lexemesText_joinedRow {before : Option Kind} : ∀ cs : List Component,
    lexemesText (lexemesOf true before (joinedRow cs)) = lexemesText (lexemesOf true before cs)
  | [] => rfl
  | c :: cs => by
    have hseparator : separatorLexemes before c.joined = separatorLexemes before c := by
      rw [separatorLexemes, separatorLexemes, kind_joined]
    rw [joinedRow, lexemesText_joinTo, lexemesOf, lexemesOf, lexemesText_append, lexemesText_append,
      lexemesText_append, lexemesText_append, hseparator, kind_joined, lexemesText_joinedRow cs]
    simp only [Bool.not_true, Bool.false_and, c.lexemesText_joined]

end

/-- A component whose tokens can be spelled has the same text with its white space joined. -/
theorem Component.text_joined {c : Component} (h : ∀ t ∈ c.tokens, t.Spelled) : c.joined.text = c.text := by
  rw [← c.joined.lexemesText_exact (c.spelled_joined h), c.lexemesText_joined, c.lexemesText_exact h]

/-! ## Trimmed texts -/

/-- The lexemes of a trimmed row, head and rest. -/
theorem lexemesOf_cons (before : Option Kind) (c : Component) (cs : List Component) :
    lexemesOf false before (c :: cs) =
      c.lexemes false before.isNone cs.isEmpty ++ lexemesOf false (some c.kind) cs :=
  rfl

/-- The first lexeme of components in a row is the first token of the first one. -/
theorem exists_lexemesOf (before : Option Kind) (c : Component) (cs : List Component) :
    ∃ t short more, lexemesOf false before (c :: cs) = .token t before.isNone short :: more ∧
      t ∈ tokensOf (c :: cs) := by
  cases c with
  | atom a => exact ⟨_, _, _, rfl, by simp [tokensOf, Component.tokens]⟩
  | group o content => exact ⟨_, _, _, rfl, by simp [tokensOf, Component.tokens]⟩

/-- Something is written for components in a row. -/
theorem lexemesText_ne_nil {before : Option Kind} {cs : List Component} (hne : cs ≠ [])
    (h : ∀ t ∈ tokensOf cs, t.Spelled) (hfirm : ∀ l ∈ lexemesOf false before cs, l.isFirm = true) :
    lexemesText (lexemesOf false before cs) ≠ [] := by
  obtain ⟨c, cs, rfl⟩ := List.exists_cons_of_ne_nil hne
  obtain ⟨t, short, more, hmore, ht⟩ := exists_lexemesOf before c cs
  rw [hmore] at hfirm ⊢
  rw [lexemesText_cons]
  have hends := (Lexeme.isFirm_iff.1 (hfirm _ List.mem_cons_self)).2
  exact List.append_ne_nil_of_left_ne_nil ((h t ht).shortened_ne_nil hends) _

/-- What is written for a trimmed list does not start with a blank. -/
theorem head_lexemesText {cs : List Component} (h : ∀ t ∈ tokensOf cs, t.Spelled)
    (hfirm : ∀ l ∈ lexemesOf false none cs, l.isFirm = true) :
    ∀ d ∈ (lexemesText (lexemesOf false none cs)).head?, isBlank d = false := by
  cases cs with
  | nil => exact fun d hd => by cases hd
  | cons c cs =>
    obtain ⟨t, short, more, hmore, ht⟩ := exists_lexemesOf none c cs
    rw [hmore] at hfirm ⊢
    have hstarts := (Lexeme.isFirm_iff.1 (hfirm _ List.mem_cons_self)).1 rfl
    have htext : t.text ≠ [] := @Token.Spelled.shortened_ne_nil false t (h t ht) fun h => by cases h
    obtain ⟨d, text, hd⟩ := List.exists_cons_of_ne_nil htext
    have hblank : isBlank d = false := by simpa [Token.startsFirm, hd] using hstarts
    rw [lexemesText_cons, Lexeme.text, hd, shortened_cons hblank]
    rintro e ⟨⟩
    exact hblank

/-- Trimming the end of a text in front of what is written reaches the text only if nothing is
written. -/
theorem trimEnd_append_written {before : Option Kind} {cs : List Component} {front parts : List Char}
    (h : ∀ t ∈ tokensOf cs, t.Spelled) (hfirm : ∀ l ∈ lexemesOf false before cs, l.isFirm = true)
    (hparts : lexemesText (lexemesOf false before cs) = trimEnd isBlank parts) :
    trimEnd isBlank (front ++ parts) =
      shortened cs.isEmpty front ++ lexemesText (lexemesOf false before cs) := by
  rw [trimEnd_append_eq, ← hparts]
  by_cases hnil : cs = []
  · subst hnil
    exact (List.append_nil _).symm
  · rw [if_neg (lexemesText_ne_nil hnil h hfirm), List.isEmpty_eq_false_iff.2 hnil]
    rfl

/-- Where the front is not blank, trimming the end is trimming. -/
theorem trim_eq_of_trimEnd {text parts : List Char} (h : text = trimEnd isBlank parts)
    (hhead : ∀ d ∈ text.head?, isBlank d = false) : trim parts = text := by
  rw [trim, trimBy, ← dropWhile_trimEnd, ← h, dropWhile_eq_self hhead]

/-- A group ends in its bracket, so it is not shortened. -/
theorem shortened_group (short : Bool) (front inner : List Char) (b : Bracket) :
    shortened short (front ++ (inner ++ [b.closeChar])) = front ++ (inner ++ [b.closeChar]) := by
  rw [← List.append_assoc]
  exact shortened_of_last (getLast_concat_closing (by cases b <;> decide)) short

mutual

/-- The lexemes of a trimmed component are written as its minified text. -/
theorem Component.lexemesText_trimmed {first last : Bool} : ∀ c : Component,
    (∀ t ∈ c.tokens, t.Spelled) → (∀ l ∈ c.trimmed.lexemes false first last, l.isFirm = true) →
      lexemesText (c.trimmed.lexemes false first last) = shortened last (c.minifiedText none)
  | .atom a, _, _ => by rw [Component.trimmed, lexemesText_atom, Atom.minifiedText_eq]
  | .group o content, h, hfirm => by
    have hcontent := (spelled_group.1 h).2
    rw [Component.trimmed, Component.lexemes] at hfirm ⊢
    rw [lexemesText_group]
    by_cases ho : o = .bracket .curly
    · subst ho
      have htext := @lexemesText_exactRow none (by simp) content hcontent
      rw [if_pos rfl, show (false || Opening.bracket .curly == .bracket .curly) = true from rfl,
        lexemesText_joinedRow, htext, Component.minifiedText, text_group (endInOpenString_of_spelled content hcontent),
        shortened_group]
    · have hcurly : (o == .bracket .curly) = false := by simpa using ho
      rw [if_neg ho, hcurly, Bool.false_or] at hfirm ⊢
      have hinner : ∀ l ∈ lexemesOf false none (trimmedRow true content), l.isFirm = true :=
        fun l hl => hfirm l (.tail _ (List.mem_append_left _ hl))
      have htext := lexemesText_trimmedRow content hcontent hinner
      rw [minifiedText_group ho, shortened_group, trim_eq_of_trimEnd htext
        (head_lexemesText (spelled_trimmedRow content hcontent) hinner)]

/-- What is written for a trimmed list is its minified text without the white space at its end. -/
theorem lexemesText_trimmedRow {before : Option Kind} {skip : Bool} : ∀ cs : List Component,
    (∀ t ∈ tokensOf cs, t.Spelled) →
      (∀ l ∈ lexemesOf false before (trimmedRow skip cs), l.isFirm = true) →
        lexemesText (lexemesOf false before (trimmedRow skip cs)) =
          trimEnd isBlank (minifiedParts none skip cs)
  | [], _, _ => rfl
  | c :: cs, h, hfirm => by
    obtain ⟨hc, hcs⟩ := spelled_cons.1 h
    rw [trimmedRow] at hfirm ⊢
    rw [minifiedParts]
    split at hfirm
    · next hspace =>
      rw [if_pos hspace, if_pos hspace]
      split at hfirm
      · next hskip =>
        rw [if_pos hskip, if_pos hskip]
        exact lexemesText_trimmedRow cs hcs hfirm
      · next hskip =>
        rw [if_neg hskip, if_neg hskip]
        -- A space goes the way of the list after it: it is written if something follows.
        have hwritten : (∀ l ∈ lexemesOf false (some .space) (trimmedRow true cs), l.isFirm = true) →
            trimEnd isBlank (' ' :: minifiedParts none true cs) =
              shortened (trimmedRow true cs).isEmpty [' '] ++
                lexemesText (lexemesOf false (some .space) (trimmedRow true cs)) := fun hfirm =>
          @trimEnd_append_written _ _ [' '] _ (spelled_trimmedRow cs hcs) hfirm
            (lexemesText_trimmedRow cs hcs hfirm)
        split at hfirm
        · next hall =>
          rw [trimmedRow_of_all hall] at hwritten
          rw [if_pos hall, hwritten (List.forall_mem_nil _)]
          rfl
        · next hall =>
          rw [lexemesOf_cons] at hfirm
          rw [if_neg hall, lexemesOf_cons, lexemesText_append, lexemesText_atom,
            hwritten (List.forall_mem_append.1 hfirm).2]
          rfl
    · next hspace =>
      have hnext : (c.isNestingSelector && (none : Option (List Char)) == some [' ']) = false :=
        Bool.and_false _
      rw [lexemesOf_cons] at hfirm
      obtain ⟨hfirst, hrest⟩ := List.forall_mem_append.1 hfirm
      rw [if_neg hspace, if_neg hspace, hnext, lexemesOf_cons, lexemesText_append,
        c.lexemesText_trimmed hc hfirst, trimEnd_append_written (spelled_trimmedRow cs hcs) hrest
          (lexemesText_trimmedRow cs hcs hrest)]

end

/-! ## Faults -/

mutual

/-- A component whose tokens can be spelled has no fault. -/
theorem Component.firstFault_of_spelled : ∀ c : Component, (∀ t ∈ c.tokens, t.Spelled) →
    c.firstFault = none
  | .atom a, h => by
    have ha := (h (.atom a) (by simp [Component.tokens])).steady
    cases a with
    | fault f => cases ha
    | _ => rfl
  | .group o content, h => by
    by_cases ho : o = .bracket .curly
    · rw [ho]
      rfl
    · rw [firstFault_group ho, firstFaultOf_of_spelled content (spelled_group.1 h).2]

/-- A row whose tokens can be spelled has no fault. -/
theorem firstFaultOf_of_spelled : ∀ cs : List Component, (∀ t ∈ tokensOf cs, t.Spelled) →
    firstFaultOf cs = none
  | [], _ => rfl
  | c :: cs, h => by
    obtain ⟨hc, hcs⟩ := spelled_cons.1 h
    rw [firstFaultOf, c.firstFault_of_spelled hc, firstFaultOf_of_spelled cs hcs]

end

end

/-- **Minified text reads back.** Where the text of each token spells it, and what is written is settled,
there is a minified text, and it is read as the components that it was written from, up to runs of white
space and white space at ends. -/
theorem squeezed_minify {css : List Char}
    (hsteady : ∀ t ∈ tokensOf (Component.parse css), t.isSteady = true)
    (hsettled : settled (minifiedLexemes (Component.parse css)) = true) :
    ∃ text, minify (Component.parse css) = .ok text ∧
      squeezed (Component.parse text) = squeezed (Component.parse css) := by
  have hspelled : ∀ t ∈ tokensOf (Component.parse css), t.Spelled :=
    fun t ht => ⟨formed_parse css t ht, hsteady t ht⟩
  have hwritten := @spelled_trimmedRow true _ hspelled
  have hfirm := isFirm_of_settled hsettled
  have htext : minifiedText none (Component.parse css) =
      lexemesText (minifiedLexemes (Component.parse css)) :=
    trim_eq_of_trimEnd (lexemesText_trimmedRow _ hspelled hfirm) (head_lexemesText hwritten hfirm)
  refine ⟨lexemesText (minifiedLexemes (Component.parse css)), ?_, ?_⟩
  · rw [minify, firstFaultOf_of_spelled _ hspelled, htext]
  · rw [minifiedLexemes, parse_lexemesText hwritten hsettled, squeezed, squeezedRow_trimmedRow]
    rfl

/-- Comments between words and in a curly block, and an escape that loses its space at the end of a
list. -/
theorem squeezed_minify_comments :
    ∃ css, css = " a/**/ .b:f( c\\a  )\x7b1/**/2 /**/ \x7d".toList ∧
      (∀ t ∈ tokensOf (Component.parse css), t.isSteady = true) ∧
      settled (minifiedLexemes (Component.parse css)) = true ∧
      minify (Component.parse css) = .ok "a .b:f(c\\A)\x7b1/**/2  \x7d".toList ∧
      squeezed (Component.parse "a .b:f(c\\A)\x7b1/**/2  \x7d".toList) =
        squeezed (Component.parse css) := by
  obtain ⟨css, hcss, hall, hsettled, hminify⟩ : ∃ css,
      css = " a/**/ .b:f( c\\a  )\x7b1/**/2 /**/ \x7d".toList ∧
      (tokensOf (Component.parse css)).all Token.isSteady = true ∧
      settled (minifiedLexemes (Component.parse css)) = true ∧
      minify (Component.parse css) = .ok "a .b:f(c\\A)\x7b1/**/2  \x7d".toList :=
    ⟨_, rfl, by cbv, by cbv, by cbv⟩
  have hsteady := List.all_eq_true.1 hall
  obtain ⟨text, hok, hsqueezed⟩ := squeezed_minify hsteady hsettled
  cases hminify.symm.trans hok
  exact ⟨css, hcss, hsteady, hsettled, hminify, hsqueezed⟩

/-- Two lengths with nothing but a comment between them become one. -/
theorem minify_joins_lengths :
    (∀ t ∈ tokensOf (Component.parse "1px/**/2px".toList), t.isSteady = true) ∧
      minify (Component.parse "1px/**/2px".toList) = .ok "1px2px".toList ∧
      squeezed (Component.parse "1px2px".toList) ≠ squeezed (Component.parse "1px/**/2px".toList) ∧
      flattenCss ".a".toList "margin:1px/**/2px".toList = .ok ".a\x7bmargin:1px2px;\x7d".toList := by
  have hsteady : ((tokensOf (Component.parse "1px/**/2px".toList)).all Token.isSteady) = true := by cbv
  have hone : squeezed (Component.parse "1px2px".toList) =
      [.atom (.dimension ['1'] "px2px".toList)] := by cbv
  have htwo : squeezed (Component.parse "1px/**/2px".toList) =
      [.atom (.dimension ['1'] ['p', 'x']), .atom (.dimension ['2'] ['p', 'x'])] := by cbv
  refine ⟨List.all_eq_true.1 hsteady, by cbv, ?_, by cbv⟩
  rw [hone, htwo]
  intro h
  cases (List.cons.inj h).2

end CssTemplate.Css
