import CssTemplate.Css.Component

/-!
# Groups, one at a time

`Component.ofTokens` keeps a stack of open groups. Here the same nesting is said without a stack: a
group holds the components of the tokens up to the closing that belongs to it, and the components
after it are those of the tokens after that closing (`Component.ofTokens_opening`). What stands
before a group has no say in this (`Component.ofTokens_atoms`).
-/

namespace CssTemplate.Css

/-- The tokens up to the closing that belongs to a group, and the tokens after it, when the given
brackets are still to be closed inside the group, innermost first. -/
def splitGroup (closer : Bracket) : List Bracket → List Token → List Token × List Token
  | _, [] => ([], [])
  | inside, .atom a :: ts =>
    let split := splitGroup closer inside ts
    (.atom a :: split.1, split.2)
  | inside, .opening o :: ts =>
    let split := splitGroup closer (o.closedBy :: inside) ts
    (.opening o :: split.1, split.2)
  | [], .closing b :: ts =>
    if closer = b then ([], ts)
    else
      let split := splitGroup closer [] ts
      (.closing b :: split.1, split.2)
  | c :: inside, .closing b :: ts =>
    let split := splitGroup closer (if c = b then inside else c :: inside) ts
    (.closing b :: split.1, split.2)

/-- What is inside of a group is a prefix of the tokens. -/
theorem splitGroup_prefix (closer : Bracket) (inside : List Bracket) (ts : List Token) :
    (splitGroup closer inside ts).1 <+: ts := by
  fun_induction splitGroup closer inside ts with
  | case1 => exact List.prefix_rfl
  | case2 inside a ts split ih => exact (List.prefix_cons_inj _).2 ih
  | case3 inside o ts split ih => exact (List.prefix_cons_inj _).2 ih
  | case4 ts => exact List.nil_prefix
  | case5 b ts hb split ih => exact (List.prefix_cons_inj _).2 ih
  | case6 c inside b ts split ih => exact (List.prefix_cons_inj _).2 ih

/-- What follows a group is a suffix of the tokens. -/
theorem splitGroup_suffix (closer : Bracket) (inside : List Bracket) (ts : List Token) :
    (splitGroup closer inside ts).2 <:+ ts := by
  fun_induction splitGroup closer inside ts with
  | case1 => exact List.suffix_rfl
  | case2 inside a ts split ih => exact ih.trans (List.suffix_cons _ _)
  | case3 inside o ts split ih => exact ih.trans (List.suffix_cons _ _)
  | case4 ts => exact List.suffix_cons _ _
  | case5 b ts hb split ih => exact ih.trans (List.suffix_cons _ _)
  | case6 c inside b ts split ih => exact ih.trans (List.suffix_cons _ _)

namespace OpenGroups

/-- Groups inside of another one are closed before it. -/
theorem closeAll_append (current : List Component) (inside : List (Opening × List Component))
    (o : Opening) (before : List Component) (enclosing : List (Opening × List Component)) :
    closeAll current (inside ++ (o, before) :: enclosing) =
      closeAll (.group o (closeAll current inside) :: before) enclosing := by
  induction inside generalizing current with
  | nil => rfl
  | cons entry inside ih => exact ih _

/-- A group that is open comes to hold what the tokens up to its closing give. -/
theorem finish_foldl_open (o : Opening) (before : List Component)
    (enclosing : List (Opening × List Component)) (ts : List Token) (current : List Component)
    (inside : List (Opening × List Component)) :
    (ts.foldl step ⟨current, inside ++ (o, before) :: enclosing⟩).finish =
      let split := splitGroup o.closedBy (inside.map (·.1.closedBy)) ts
      (split.2.foldl step
        ⟨.group o (split.1.foldl step ⟨current, inside⟩).finish :: before, enclosing⟩).finish := by
  induction ts generalizing current inside with
  | nil => exact closeAll_append current inside o before enclosing
  | cons t ts ih =>
    cases t with
    | atom a =>
      simp only [List.foldl_cons, splitGroup, step, push]
      exact ih _ inside
    | opening p =>
      simp only [List.foldl_cons, splitGroup, step]
      exact ih [] ((p, current) :: inside)
    | closing b =>
      cases inside with
      | nil =>
        by_cases hb : o.closedBy = b
        · simp only [List.foldl_cons, List.map_nil, splitGroup, List.nil_append, step, hb, if_true]
          rfl
        · simp only [List.foldl_cons, List.map_nil, splitGroup, List.nil_append, step, hb, if_false,
            push]
          exact ih _ []
      | cons entry inside =>
        by_cases hb : entry.1.closedBy = b
        · simp only [List.foldl_cons, List.map_cons, splitGroup, List.cons_append, step, hb, if_true]
          exact ih _ inside
        · simp only [List.foldl_cons, List.map_cons, splitGroup, List.cons_append, step, hb, if_false,
            push]
          exact ih _ (entry :: inside)

/-- Two states that differ by what stands before everything else. -/
inductive Follows (first : List Component) : OpenGroups → OpenGroups → Prop where
  | bottom (current : List Component) : Follows first ⟨current ++ first, []⟩ ⟨current, []⟩
  | above {before before' : List Component} {enclosing enclosing' : List (Opening × List Component)}
      (current : List Component) (o : Opening) :
      Follows first ⟨before', enclosing'⟩ ⟨before, enclosing⟩ →
      Follows first ⟨current, (o, before') :: enclosing'⟩ ⟨current, (o, before) :: enclosing⟩

namespace Follows

variable {first : List Component} {n n' : OpenGroups}

/-- One more component on both sides keeps what comes first. -/
theorem push (h : Follows first n' n) (c : Component) : Follows first (n'.push c) (n.push c) := by
  cases h with
  | bottom current => exact .bottom (c :: current)
  | above current o h => exact .above (c :: current) o h

/-- One more token on both sides keeps what comes first. -/
theorem step (h : Follows first n' n) (t : Token) : Follows first (n'.step t) (n.step t) := by
  cases t with
  | atom a => exact h.push _
  | opening o => exact .above [] o h
  | closing b =>
    cases h with
    | bottom current => exact (Follows.bottom current).push _
    | above current o h =>
      simp only [OpenGroups.step]
      split
      · exact h.push _
      · exact (Follows.above current o h).push _

/-- More tokens on both sides keep what comes first. -/
theorem foldl (h : Follows first n' n) (ts : List Token) :
    Follows first (ts.foldl OpenGroups.step n') (ts.foldl OpenGroups.step n) := by
  induction ts generalizing n n' with
  | nil => exact h
  | cons t ts ih => exact ih (h.step t)

/-- At the end the components of one side are those of the other with the first ones in front. -/
theorem finish (h : Follows first n' n) : n'.finish = first.reverse ++ n.finish := by
  obtain ⟨current', enclosing'⟩ := n'
  obtain ⟨current, enclosing⟩ := n
  induction enclosing generalizing current current' enclosing' with
  | nil =>
    cases h
    simp [OpenGroups.finish, closeAll]
  | cons entry enclosing ih =>
    cases h with
    | above _ o h =>
      have hclosed := ih _ _ _ (h.push (.group o current'.reverse))
      exact hclosed

end Follows

end OpenGroups

namespace Component

/-- An atom stands before the components of the tokens after it. -/
theorem ofTokens_atom (a : Atom) (ts : List Token) :
    ofTokens (.atom a :: ts) = .atom a :: ofTokens ts :=
  ((@OpenGroups.Follows.bottom [.atom a] []).foldl ts).finish

/-- Atoms in front are components of their own. -/
theorem ofTokens_atoms (atoms : List Atom) (ts : List Token) :
    ofTokens (atoms.map .atom ++ ts) = atoms.map .atom ++ ofTokens ts := by
  induction atoms with
  | nil => rfl
  | cons a atoms ih =>
    rw [List.map_cons, List.cons_append, ofTokens_atom, ih, List.map_cons, List.cons_append]

/-- A group holds what the tokens up to its closing give, and what the tokens after it give comes
next. -/
theorem ofTokens_opening (o : Opening) (ts : List Token) :
    ofTokens (.opening o :: ts) =
      .group o (ofTokens (splitGroup o.closedBy [] ts).1) ::
        ofTokens (splitGroup o.closedBy [] ts).2 := by
  have hopen := OpenGroups.finish_foldl_open o [] [] ts [] []
  exact hopen.trans ((@OpenGroups.Follows.bottom [_] []).foldl _).finish

/-- A closing outside of all groups is a fault. -/
theorem ofTokens_closing (b : Bracket) (ts : List Token) :
    ofTokens (.closing b :: ts) = .atom (.fault (.unmatched b)) :: ofTokens ts :=
  ((@OpenGroups.Follows.bottom [.atom (.fault (.unmatched b))] []).foldl ts).finish

/-- A property of components that holds of the atoms among the tokens and of the faults that
grouping can add, and that groups take over from their contents, holds of all components. -/
theorem forall_ofTokens {P : Component → Prop} {ts : List Token}
    (hatom : ∀ a, .atom a ∈ ts → P (.atom a)) (hfault : ∀ b, P (.atom (.fault (.unmatched b))))
    (hgroup : ∀ o content, .opening o ∈ ts → (∀ c ∈ content, P c) → P (.group o content)) :
    ∀ c ∈ ofTokens ts, P c := by
  induction hlength : ts.length using Nat.strongRecOn generalizing ts with
  | ind n ih =>
    subst hlength
    -- the tokens of a group and the tokens after it are fewer, and all of them were there before
    have hpart : ∀ part : List Token, part.length < ts.length → (∀ t ∈ part, t ∈ ts) →
        ∀ c ∈ ofTokens part, P c := by
      intro part hlt hmem
      exact ih _ hlt (fun a ha => hatom a (hmem _ ha))
        (fun o content ho => hgroup o content (hmem _ ho)) rfl
    cases ts with
    | nil => nofun
    | cons t ts =>
      cases t with
      | atom a =>
        rw [ofTokens_atom]
        exact List.forall_mem_cons.2 ⟨hatom a (.head _),
          hpart ts (Nat.lt_succ_self _) fun _ => .tail _⟩
      | closing b =>
        rw [ofTokens_closing]
        exact List.forall_mem_cons.2 ⟨hfault b, hpart ts (Nat.lt_succ_self _) fun _ => .tail _⟩
      | opening o =>
        have hinside := splitGroup_prefix o.closedBy [] ts
        have hafter := splitGroup_suffix o.closedBy [] ts
        rw [ofTokens_opening]
        refine List.forall_mem_cons.2 ⟨hgroup o _ (.head _) ?_, ?_⟩
        · exact hpart _ (Nat.lt_succ_of_le hinside.length_le) fun t ht => .tail _ (hinside.subset ht)
        · exact hpart _ (Nat.lt_succ_of_le hafter.length_le) fun t ht => .tail _ (hafter.subset ht)

end Component

end CssTemplate.Css
