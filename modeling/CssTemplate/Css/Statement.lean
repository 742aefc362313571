import CssTemplate.Css.Item
import CssTemplate.Css.Printer

/-!
# Statements

The body of a rule is cut into statements: after every semicolon and every curly block. A
statement that is a lone identifier is a bare statement; it stands for declarations that are
not known yet and is passed on as it is. All other statements are read as `blockItems`.
`flatten_statements` says that nothing is lost by cutting.
-/

namespace CssTemplate.Css

/-- Whether a component ends a statement. -/
def Component.endsStatement (c : Component) : Bool :=
  c.curly?.isSome || c.isSemicolon

/-- The statements of a body, in order, each with the component that ends it. -/
def statements : List Component → List (List Component)
  | [] => []
  | c :: cs =>
    if c.endsStatement then [c] :: statements cs
    else
      match statements cs with
      | [] => [[c]]
      | statement :: more => (c :: statement) :: more

/-- The name of a bare statement: a single identifier, with or without a semicolon. -/
def loneIdentifier? (statement : List Component) : Option (List Char) :=
  match statement.filter fun c => !c.isSpace with
  | [.atom (.ident name)] => some name
  | [.atom (.ident name), last] => if last.isSemicolon then some name else none
  | _ => none

/-- What a statement contributes to a body. -/
inductive Entry where
  | bare (name : List Char)
  | item (item : Item)
  deriving Repr, Inhabited

/-- The entries of one statement. -/
def statementEntries (statement : List Component) : List Entry :=
  match loneIdentifier? statement with
  | some name => [.bare name]
  | none => (blockItems statement).map .item

/-- The entries of a body, statement by statement. -/
def bodyEntries (content : List Component) : List Entry :=
  (statements content).flatMap statementEntries

/-! ## Cutting loses nothing -/

/-- The statements of a list, written one after the other, are the list. -/
theorem flatten_statements (cs : List Component) : (statements cs).flatten = cs := by
  induction cs with
  | nil => rfl
  | cons c cs ih =>
    rw [statements]
    split
    · simp [ih]
    · split
      · next h => rw [h] at ih; simp [← ih]
      · next h => rw [h] at ih; simp [← ih]

/-- A part of a list is no larger than the list. -/
theorem sizes_flatten_mem {parts : List (List Component)} {part : List Component}
    (h : part ∈ parts) : Component.sizes part ≤ Component.sizes parts.flatten := by
  induction parts with
  | nil => cases h
  | cons p ps ih =>
    rw [List.flatten_cons, Component.sizes_append]
    rcases List.mem_cons.1 h with rfl | h
    · omega
    · have := ih h
      omega

/-- The contents of a body's entries are smaller than the body. -/
theorem contentSize_bodyEntries {content : List Component} {item : Item}
    (h : .item item ∈ bodyEntries content) : item.contentSize < Component.sizes content := by
  obtain ⟨statement, hs, he⟩ := List.mem_flatMap.1 h
  have hle : Component.sizes statement ≤ Component.sizes content := by
    have := sizes_flatten_mem hs
    rwa [flatten_statements] at this
  unfold statementEntries at he
  split at he
  · simp at he
  · obtain ⟨i, hi, heq⟩ := List.mem_map.1 he
    cases heq
    exact Nat.lt_of_lt_of_le (contentSize_blockItems hi) hle

end CssTemplate.Css
