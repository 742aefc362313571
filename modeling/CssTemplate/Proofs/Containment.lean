import CssTemplate.Compilation
import CssTemplate.Proofs.Compilation
import CssTemplate.Proofs.Css.LastBrace

/-!
# Animations in their wrapper

An animation is flattened inside a keyframes rule, and the rule is taken off again by its opening and
its last character. That the rule is still one rule is not looked at. It is one unless a brace in the
body closes it (`contained_iff`), and then what the template writes after that brace gets out. Adding
vendor prefixes refuses such a body, so only without prefixes can it get through (`contained_compile`,
`compile_two_animations`).
-/

namespace CssTemplate.Css

/-! ## Closing the group around some tokens -/

/-- Splitting goes through the tokens, or else it stops among them whatever comes next. -/
def SplitsAlong (closer : Bracket) (inside : List Bracket) (ts : List Token) : Prop :=
  (∃ inside', ∀ more, splitGroup closer inside (ts ++ more) =
    (ts ++ (splitGroup closer inside' more).1, (splitGroup closer inside' more).2)) ∨
  ∃ inner rest, ts = inner ++ .closing closer :: rest ∧
    ∀ more, splitGroup closer inside (inner ++ .closing closer :: more) = (inner, more)

/-- One more token in front that does not close the group. -/
theorem SplitsAlong.cons {closer : Bracket} {inside next : List Bracket} {t : Token} {ts : List Token}
    (h : SplitsAlong closer next ts)
    (hstep : ∀ more, splitGroup closer inside (t :: more) =
      (t :: (splitGroup closer next more).1, (splitGroup closer next more).2)) :
    SplitsAlong closer inside (t :: ts) := by
  rcases h with ⟨inside', h⟩ | ⟨inner, rest, rfl, h⟩
  · refine .inl ⟨inside', fun more => ?_⟩
    rw [List.cons_append, hstep, h, List.cons_append]
  · refine .inr ⟨t :: inner, rest, rfl, fun more => ?_⟩
    rw [List.cons_append, hstep, h]

/-- Tokens either leave the group open, whatever follows them, or close it somewhere in between. -/
theorem splitsAlong (closer : Bracket) (inside : List Bracket) (ts : List Token) :
    SplitsAlong closer inside ts := by
  fun_induction splitGroup closer inside ts with
  | case1 inside => exact .inl ⟨inside, fun more => rfl⟩
  | case2 inside a ts split ih => exact ih.cons fun more => by rw [splitGroup]
  | case3 inside o ts split ih => exact ih.cons fun more => by rw [splitGroup]
  | case4 ts => exact .inr ⟨[], ts, rfl, fun more => by rw [List.nil_append, splitGroup, if_pos rfl]⟩
  | case5 b ts hb split ih => exact ih.cons fun more => by rw [splitGroup, if_neg hb]
  | case6 c inside b ts split ih => exact ih.cons fun more => by rw [splitGroup]

/-- A closing among the tokens belongs to the group that the tokens are put in. -/
def ClosesGroup (closer : Bracket) (ts : List Token) : Prop :=
  ∃ inner rest, splitGroup closer [] ts = (inner, rest) ∧ ts = inner ++ .closing closer :: rest

/-- Tokens through which splitting goes do not close the group. -/
theorem not_closesGroup {closer : Bracket} {ts : List Token} (h : splitGroup closer [] ts = (ts, [])) :
    ¬ClosesGroup closer ts := by
  rintro ⟨inner, rest, hsplit, hts⟩
  obtain ⟨rfl, rfl⟩ := Prod.ext_iff.1 (h.symm.trans hsplit)
  have hlength := congrArg List.length hts
  simp at hlength

/-- When a group is closed, every group inside it has been closed before. -/
theorem enclosing_of_splitGroup {closer : Bracket} {inner rest : List Token}
    (current : List Component) (enclosing : List (Opening × List Component))
    (h : splitGroup closer (enclosing.map (·.1.closedBy)) (inner ++ .closing closer :: rest) =
      (inner, rest)) :
    (inner.foldl OpenGroups.step ⟨current, enclosing⟩).enclosing = [] := by
  induction inner generalizing current enclosing with
  | nil =>
    cases enclosing with
    | nil => rfl
    | cons entry enclosing => cases congrArg Prod.fst h
  | cons t inner ih =>
    rw [List.foldl_cons]
    cases t with
    | atom a =>
      rw [List.cons_append, splitGroup, Prod.mk.injEq, List.cons.injEq] at h
      exact ih _ _ (Prod.ext h.1.2 h.2)
    | opening o =>
      rw [List.cons_append, splitGroup, Prod.mk.injEq, List.cons.injEq] at h
      exact ih [] ((o, current) :: enclosing) (Prod.ext h.1.2 h.2)
    | closing b =>
      cases enclosing with
      | nil =>
        rw [List.map_nil, List.cons_append, splitGroup] at h
        split at h
        · cases congrArg Prod.fst h
        · rw [Prod.mk.injEq, List.cons.injEq] at h
          exact ih _ [] (Prod.ext h.1.2 h.2)
      | cons entry enclosing =>
        rw [List.map_cons, List.cons_append, splitGroup, Prod.mk.injEq, List.cons.injEq] at h
        obtain ⟨⟨-, hinner⟩, hrest⟩ := h
        by_cases hb : entry.1.closedBy = b
        · rw [if_pos hb] at hinner hrest
          simp only [OpenGroups.step, if_pos hb]
          exact ih _ enclosing (Prod.ext hinner hrest)
        · rw [if_neg hb] at hinner hrest
          simp only [OpenGroups.step, if_neg hb]
          exact ih _ (entry :: enclosing) (Prod.ext hinner hrest)

/-- A closing that belongs to the group around the tokens is a fault where there is no such group. -/
theorem Component.ofTokens_closes {closer : Bracket} {inner rest : List Token}
    (h : splitGroup closer [] (inner ++ .closing closer :: rest) = (inner, rest)) :
    ofTokens (inner ++ .closing closer :: rest) =
      ofTokens inner ++ .atom (.fault (.unmatched closer)) :: ofTokens rest := by
  have hclosed := enclosing_of_splitGroup [] [] h
  rcases hstate : inner.foldl OpenGroups.step ⟨[], []⟩ with ⟨current, enclosing⟩
  rw [hstate] at hclosed
  cases hclosed
  have hinner : ofTokens inner = current.reverse := by
    rw [ofTokens, hstate]
    rfl
  have hfollows := ((@OpenGroups.Follows.bottom current []).foldl (.closing closer :: rest)).finish
  rw [hinner, ← ofTokens_closing, ofTokens, List.foldl_append, hstate]
  exact hfollows

/-- Atoms do not close a group. -/
theorem splitGroup_of_atoms (closer : Bracket) (inside : List Bracket) (atoms : List Atom) :
    splitGroup closer inside (atoms.map .atom) = (atoms.map .atom, []) := by
  have h := splitGroup_atoms closer inside atoms []
  rw [splitGroup, List.append_nil] at h
  exact h

/-- A text with a brace after it, in a group: if the text does not close the group, the brace does, or
it is read as part of what the text leaves open. If the text closes the group, it does so all the
same. -/
theorem splitGroup_scan_brace (text : List Char) :
    (¬ClosesGroup .curly (scan text) ∧
      (splitGroup .curly [] (scan (text ++ ['}'])) = (scan text, []) ∨
        splitGroup .curly [] (scan (text ++ ['}'])) = (scan (text ++ ['}']), []))) ∨
    ∃ inner rest more, scan text = inner ++ .closing .curly :: rest ∧
      scan (text ++ ['}']) = inner ++ .closing .curly :: more ∧
      ∀ more, splitGroup .curly [] (inner ++ .closing .curly :: more) = (inner, more) := by
  rcases scan_brace text with hlong | ⟨front, atoms, atoms', hshort, hlong⟩
  · rcases splitsAlong .curly [] (scan text) with ⟨inside, h⟩ | ⟨inner, rest, hinner, h⟩
    · refine .inl ⟨not_closesGroup ?_, ?_⟩
      · simpa [splitGroup] using h []
      · rw [hlong, h]
        cases inside with
        | nil => exact .inl (by simp [splitGroup])
        | cons b inside => exact .inr (by simp [splitGroup])
    · refine .inr ⟨inner, rest, rest ++ [.closing .curly], hinner, ?_, h⟩
      rw [hlong, hinner, List.append_assoc, List.cons_append]
  · rcases splitsAlong .curly [] front with ⟨inside, h⟩ | ⟨inner, rest, hinner, h⟩
    · refine .inl ⟨not_closesGroup ?_, .inr ?_⟩
      · rw [hshort, h, splitGroup_of_atoms]
      · rw [hlong, h, splitGroup_of_atoms]
    · refine .inr ⟨inner, rest ++ atoms.map .atom, rest ++ atoms'.map .atom, ?_, ?_, h⟩
      · rw [hshort, hinner, List.append_assoc, List.cons_append]
      · rw [hlong, hinner, List.append_assoc, List.cons_append]

/-! ## One rule -/

/-- A text after the opening of the wrapper: first comes the wrapper, up to where it is closed. -/
theorem styleSheet_keyframes {name : List Char} {atoms : List Atom} (h : ReadAs (' ' :: name) atoms)
    {text : List Char} {inner rest : List Token}
    (hsplit : splitGroup .curly [] (scan (normalize text)) = (inner, rest)) :
    styleSheet (Component.parse (keyframesOpening name ++ text)) =
      .atRule "keyframes".toList (atoms.map .atom) (some (Component.ofTokens inner)) ::
        styleSheet (Component.ofTokens rest) := by
  have hparse : Component.parse (keyframesOpening name ++ text) =
      .atom (.atKeyword "keyframes".toList) :: (atoms.map .atom ++
        .group (.bracket .curly) (Component.ofTokens inner) :: Component.ofTokens rest) := by
    rw [Component.parse, scan_keyframesOpening h, Component.ofTokens_atoms, Component.ofTokens_opening,
      List.map_cons, List.cons_append, Opening.closedBy, hsplit]
  rw [hparse, styleSheet, rules]
  simp [isSheetPadding, Component.isSpace, Component.isLiteral, readRule, Component.atKeyword?,
    readAtRule, readConstruct_neutral h.neutral, styleSheet]

/-- The text is one keyframes rule with the body in it. Its last brace closes the rule or, where the
body leaves something open, is read as part of that. -/
def Contained (text body : List Char) : Prop :=
  ∃ prelude content,
    styleSheet (Component.parse text) = [.atRule "keyframes".toList prelude (some content)] ∧
    (content = Component.parse body ∨ content = Component.parse (body ++ ['}']))

/-- **A wrapper holds its body unless the body closes it.** -/
theorem contained_iff {name : List Char} (hname : isIdentifierLine name = true) (body : List Char) :
    Contained (keyframesOpening name ++ body ++ ['}']) body ↔
      ¬ClosesGroup .curly (scan (normalize body)) := by
  obtain ⟨atoms, hatoms⟩ := exists_readAs (isTitleChar_of_identifierLine hname)
  have hlong := normalize_brace body
  have hend : styleSheet (Component.ofTokens []) = [] := by
    rw [styleSheet, show Component.ofTokens [] = [] from rfl, rules]
  rw [List.append_assoc]
  rcases splitGroup_scan_brace (normalize body) with
    ⟨hnot, hsplit⟩ | ⟨inner, rest, more, hshort, hclosed, hsplit⟩
  · refine iff_of_true ?_ hnot
    rw [← hlong] at hsplit
    rcases hsplit with hsplit | hsplit
    · exact ⟨atoms.map .atom, _, by rw [styleSheet_keyframes hatoms hsplit, hend]; rfl, .inl rfl⟩
    · exact ⟨atoms.map .atom, _, by rw [styleSheet_keyframes hatoms hsplit, hend]; rfl, .inr rfl⟩
  · refine iff_of_false ?_ fun hnot => hnot ⟨inner, rest, ?_, hshort⟩
    · -- the rule holds `inner` only, and there is a fault after it in both readings of the body
      have hlonger : ∀ more, Component.ofTokens inner ≠
          Component.ofTokens (inner ++ .closing .curly :: more) := by
        intro more heq
        rw [Component.ofTokens_closes (hsplit more)] at heq
        have hlength := congrArg List.length heq
        simp at hlength
      rintro ⟨prelude, content, hsheet, hcontent⟩
      rw [← hlong] at hclosed
      rw [styleSheet_keyframes hatoms ((congrArg _ hclosed).trans (hsplit more))] at hsheet
      cases (List.cons.inj hsheet).1
      rcases hcontent with hcontent | hcontent
      · rw [Component.parse, hshort] at hcontent
        exact hlonger _ hcontent
      · rw [Component.parse, hclosed] at hcontent
        exact hlonger _ hcontent
    · rw [hshort, hsplit]

/-! ## Prefixing looks at all rules -/

/-- What stands before the block of a rule. -/
def RawRule.head : RawRule → List Component
  | .style selectors _ => selectors
  | .atRule _ prelude _ => prelude
  | .malformed _ => []

/-- A component that cannot start or end a rule: it is neither a block nor a semicolon nor an
at-keyword. -/
structure Component.IsInner (c : Component) : Prop where
  block : c.curly? = none
  semicolon : c.isSemicolon = false
  keyword : c.atKeyword? = none

/-- An inner component of a list is in the head of the construct or behind it. -/
theorem Component.IsInner.readConstruct {c : Component} (h : c.IsInner) {cs : List Component}
    (hc : c ∈ cs) : c ∈ (readConstruct cs).head ∨ c ∈ (readConstruct cs).rest := by
  induction cs with
  | nil => cases hc
  | cons d cs ih =>
    rw [Css.readConstruct]
    rcases List.mem_cons.1 hc with rfl | hc
    · rw [h.block, h.semicolon]
      exact .inl (.head _)
    · split
      · exact .inr hc
      · split
        · exact .inr hc
        · exact (ih hc).imp_left (.tail d)

/-- An inner component of a list is before its first block or behind it. -/
theorem Component.IsInner.readBlock? {c : Component} (h : c.IsInner)
    {cs head content rest : List Component} (hc : c ∈ cs)
    (hread : readBlock? cs = some (head, content, rest)) : c ∈ head ∨ c ∈ rest := by
  induction cs generalizing head with
  | nil => cases hc
  | cons d cs ih =>
    rw [Css.readBlock?] at hread
    split at hread
    · next hblock =>
      cases hread
      rcases List.mem_cons.1 hc with rfl | hc
      · rw [h.block] at hblock
        cases hblock
      · exact .inr hc
    · obtain ⟨⟨head', content', rest'⟩, hread, heq⟩ := Option.map_eq_some_iff.1 hread
      cases heq
      rcases List.mem_cons.1 hc with rfl | hc
      · exact .inl (.head _)
      · exact (ih hc hread).imp_left (.tail d)

/-- An inner component of a list is in the head of the first rule or behind it, unless the list ends
before the rule does. -/
theorem Component.IsInner.readRule {c d : Component} (h : c.IsInner) {cs : List Component}
    (hc : c ∈ d :: cs) :
    c ∈ (readRule d cs).1.head ∨ (readRule d cs).1 = .malformed .endOfInput ∨
      c ∈ (readRule d cs).2 := by
  unfold Css.readRule
  split
  · next keyword hkeyword =>
    rcases List.mem_cons.1 hc with rfl | hc
    · rw [h.keyword] at hkeyword
      cases hkeyword
    · unfold readAtRule
      simp only
      split
      · exact (h.readConstruct hc).imp_right .inr
      · exact (h.readConstruct hc).imp_right .inr
  · unfold readStyleRule
    split
    · next hread => exact (h.readBlock? hc hread).imp_right .inr
    · exact .inr (.inl rfl)

/-- Such a component is in the head of a rule, or else a rule is malformed. -/
theorem Component.IsInner.exists_rule {c : Component} (h : c.IsInner) {skip : Component → Bool}
    (hskip : skip c = false) {cs : List Component} (hc : c ∈ cs) :
    ∃ rule ∈ rules skip cs, c ∈ rule.head ∨ rule = .malformed .endOfInput := by
  fun_induction rules skip cs with
  | case1 => cases hc
  | case2 d cs hd ih =>
    rcases List.mem_cons.1 hc with rfl | hc
    · rw [hskip] at hd
      cases hd
    · exact ih hc
  | case3 d cs hd read ih =>
    rcases h.readRule hc with hhead | hmalformed | hrest
    · exact ⟨read.1, .head _, .inl hhead⟩
    · exact ⟨read.1, .head _, .inr hmalformed⟩
    · obtain ⟨rule, hrule, hwhere⟩ := ih hrest
      exact ⟨rule, .tail _ hrule, hwhere⟩

/-- A list with a fault in it has a first one. -/
theorem firstFaultOf_of_mem {what : TokenFault} {cs : List Component}
    (h : .atom (.fault what) ∈ cs) : firstFaultOf cs ≠ none := by
  induction cs with
  | nil => cases h
  | cons c cs ih =>
    rw [firstFaultOf]
    rcases List.mem_cons.1 h with rfl | h
    · exact Option.some_ne_none _
    · split
      · exact Option.some_ne_none _
      · exact ih h

/-- What is minified has no fault. -/
theorem firstFaultOf_of_minify {cs : List Component} {text : List Char} (h : minify cs = .ok text) :
    firstFaultOf cs = none := by
  unfold minify at h
  split at h
  · cases h
  · assumption

/-- A head that is written has no fault in its prelude. -/
theorem firstFaultOf_of_atRuleHead {keyword : List Char} {prelude : List Component}
    {head : List Char} (h : atRuleHead keyword prelude = .ok head) : firstFaultOf prelude = none := by
  obtain ⟨text, htext, -⟩ := Except.map_eq_ok_iff.1 h
  exact firstFaultOf_of_minify htext

/-- A rule that is written is not malformed and has no fault in its head. -/
theorem head_of_prefixedText {rule : RawRule} {text : List Char}
    (h : (SheetRule.ofRaw rule).prefixedText = .ok text) :
    rule ≠ .malformed .endOfInput ∧ firstFaultOf rule.head = none := by
  cases rule with
  | malformed what =>
    rw [SheetRule.ofRaw] at h
    cases h
  | style selectors content =>
    rw [SheetRule.ofRaw] at h
    obtain ⟨head, hhead, -⟩ := Except.bind_eq_ok_iff.1 h
    exact ⟨RawRule.noConfusion, firstFaultOf_of_minify hhead⟩
  | atRule keyword prelude content =>
    refine ⟨RawRule.noConfusion, ?_⟩
    have hhead : ∃ head, atRuleHead keyword prelude = .ok head := by
      cases content with
      | none =>
        rw [SheetRule.ofRaw] at h
        obtain ⟨head, hhead, -⟩ := Except.bind_eq_ok_iff.1 h
        exact ⟨head, hhead⟩
      | some content =>
        rw [SheetRule.ofRaw] at h
        split at h
        · obtain ⟨head, hhead, -⟩ := Except.bind_eq_ok_iff.1 h
          exact ⟨head, hhead⟩
        · obtain ⟨head, hhead, -⟩ := Except.bind_eq_ok_iff.1 h
          exact ⟨head, hhead⟩
    obtain ⟨head, hhead⟩ := hhead
    exact firstFaultOf_of_atRuleHead hhead

/-- If rules can be prefixed, each of them can. -/
theorem exists_prefixedText {rules : List SheetRule} {text : List Char}
    (h : prefixedTexts rules = .ok text) : ∀ rule ∈ rules, ∃ text, rule.prefixedText = .ok text := by
  induction rules generalizing text with
  | nil => nofun
  | cons rule rules ih =>
    obtain ⟨first, hfirst, h⟩ := Except.bind_eq_ok_iff.1 h
    obtain ⟨rest, hrest, -⟩ := Except.bind_eq_ok_iff.1 h
    exact List.forall_mem_cons.2 ⟨⟨first, hfirst⟩, ih hrest⟩

/-- Flat CSS that closes a group around it gets no prefixes. -/
theorem not_closesGroup_of_withVendorPrefixes {css text : List Char}
    (h : withVendorPrefixes css = .ok text) : ¬ClosesGroup .curly (scan (normalize css)) := by
  rintro ⟨inner, rest, hsplit, hscan⟩
  have hfault : .atom (.fault (.unmatched .curly)) ∈ Component.parse css := by
    rw [hscan] at hsplit
    rw [Component.parse, hscan, Component.ofTokens_closes hsplit]
    exact List.mem_append_right _ (.head _)
  have hinner : (Component.atom (.fault (.unmatched .curly))).IsInner := ⟨rfl, rfl, rfl⟩
  have hskip : isSheetPadding (.atom (.fault (.unmatched .curly))) = false := rfl
  obtain ⟨rule, hrule, hwhere⟩ := hinner.exists_rule hskip hfault
  obtain ⟨written, hwritten⟩ := exists_prefixedText h _ (List.mem_map_of_mem hrule)
  obtain ⟨hsound, hhead⟩ := head_of_prefixedText hwritten
  rcases hwhere with hwhere | hwhere
  · exact firstFaultOf_of_mem hwhere hhead
  · exact hsound hwhere

end CssTemplate.Css

namespace CssTemplate

open Css

/-! ## Compiled animations -/

/-- What is unwrapped stands between the opening and a brace. -/
theorem of_unwrapKeyframes {name flat body : List Char} (h : unwrapKeyframes name flat = .ok body) :
    flat = keyframesOpening name ++ body ++ ['}'] := by
  have hopening : (keyframesOpening name).getLast? = some '{' := List.getLast?_concat
  unfold unwrapKeyframes at h
  generalize keyframesOpening name = opening at hopening h ⊢
  simp only at h
  split at h
  · next hwrapped =>
    cases h
    rw [Bool.and_eq_true, List.isPrefixOf_iff_prefix, beq_iff_eq] at hwrapped
    obtain ⟨⟨rest, rfl⟩, hlast⟩ := hwrapped
    rcases List.eq_nil_or_concat rest with rfl | ⟨body, c, rfl⟩
    · rw [List.append_nil, hopening] at hlast
      cases hlast
    · rw [List.concat_eq_append, ← List.append_assoc, List.getLast?_concat] at hlast
      cases hlast
      rw [List.drop_left, List.concat_eq_append, List.dropLast_concat, List.append_assoc]
  · cases h

/-- **A compiled animation lay in its wrapper unless its body closes the wrapper, which it cannot do
when prefixes are added.** -/
theorem contained_compile {config : Config} {template : Node} {compilation : Compilation}
    (h : (Compiler.ofConfig config).compile template true = .ok compilation) :
    ∃ flat body,
      flattenCss [compilation.encoded.markers.classChar]
        (flattenInput true config.animationName compilation.encoded.text) = .ok flat ∧
      flat = keyframesOpening config.animationName ++ body ++ ['}'] ∧
      (if config.prefixing then withVendorPrefixes body else .ok body) = .ok compilation.css ∧
      (Contained flat body ↔ ¬ClosesGroup .curly (scan (normalize body))) ∧
      (config.prefixing = true → Contained flat body) := by
  obtain ⟨encoded, -, h⟩ := Except.bind_eq_ok_iff.1 h
  obtain ⟨css, hprocess, h⟩ := Except.bind_eq_ok_iff.1 h
  obtain ⟨assembled, -, h⟩ := Except.bind_eq_ok_iff.1 h
  cases h
  obtain ⟨flat, hflat, hprocess⟩ := Except.bind_eq_ok_iff.1 hprocess
  obtain ⟨body, hbody, hfinish⟩ := Except.bind_eq_ok_iff.1 hprocess
  have hcontained := contained_iff config.animationName_name body
  have hfinish := eq_ok_of_liftCss hfinish
  refine ⟨flat, body, eq_ok_of_liftCss hflat, of_unwrapKeyframes hbody, hfinish, ?_, fun hprefixing => ?_⟩
  · rw [of_unwrapKeyframes hbody]
    exact hcontained
  · have hfinished : withVendorPrefixes body = .ok css := by
      simpa [Compiler.ofConfig, CssProcessor.nesting, hprefixing] using hfinish
    rw [of_unwrapKeyframes hbody]
    exact hcontained.2 (not_closesGroup_of_withVendorPrefixes hfinished)

/-- An animation that is flat is taken out of its wrapper and finished. -/
theorem Compiler.process_of_flattenCss (config : Config) (encoded : Encoded) {flat : List Char}
    (h : flattenCss [encoded.markers.classChar]
      (flattenInput true config.animationName encoded.text) = .ok flat) :
    (Compiler.ofConfig config).process encoded true =
      unwrapKeyframes config.animationName flat >>= fun body =>
        liftCss ((CssProcessor.nesting config.prefixing).finish body) := by
  show (liftCss (flattenCss [encoded.markers.classChar]
    (flattenInput true config.animationName encoded.text)) >>= _) = _
  rw [h, liftCss, Except.bind_ok]
  rfl

/-- A template compiles if it is encoded, processed and assembled. -/
theorem Compiler.exists_compile {compiler : Compiler} {template : Node} {asKeyframes : Bool}
    {segments : List Segment} {encoded : Encoded} {css : List Char}
    (hencode : compiler.encode template = .ok (segments, encoded))
    (hprocess : compiler.process encoded asKeyframes = .ok css)
    (hassemble : (compiler.assemble encoded.markers css asKeyframes).isOk = true) :
    ∃ compilation, compiler.compile template asKeyframes = .ok compilation ∧
      compilation.css = css := by
  cases hassembled : compiler.assemble encoded.markers css asKeyframes with
  | error what =>
    rw [hassembled] at hassemble
    cases hassemble
  | ok assembled => exact ⟨_, Compiler.compile_of_stages hencode hprocess hassembled, rfl⟩

/-- One frame. -/
theorem contained_compile_frame :
    ∃ compilation body,
      (Compiler.ofConfig Config.default).compile (.template (.text "to\x7bwidth:0\x7d".toList) []) true =
        .ok compilation ∧
      withVendorPrefixes body = .ok compilation.css ∧
      Contained (keyframesOpening Config.default.animationName ++ body ++ ['}']) body := by
  have hencode : (Compiler.ofConfig Config.default).encode
      (.template (.text "to\x7bwidth:0\x7d".toList) []) =
        .ok ([.literal "to\x7bwidth:0\x7d".toList], ⟨"to\x7bwidth:0\x7d".toList, ⟨230, []⟩⟩) := by cbv
  have hbody : templateBody ['æ'] (flattenInput true ['x'] "to\x7bwidth:0\x7d".toList) =
      .ok ((Atom.atKeyword "keyframes".toList :: [.space [' '], .ident ['x']]).map Component.atom ++
        Component.group (.bracket .curly) [.atom (.ident ['t', 'o']), .group (.bracket .curly)
          [.atom (.ident "width".toList), .atom (.literal [':']), .atom (.number ['0'])]] :: []) := by
    unfold flattenInput keyframesOpening
    cbv
  have hflat : flattenCss ['æ'] (flattenInput true ['x'] "to\x7bwidth:0\x7d".toList) =
      .ok "@keyframes x\x7bto\x7bwidth:0;\x7d\x7d".toList := by
    rw [flattenCss, flattenTemplate, hbody, Except.bind_ok, ofBody_keyframes readAs_x.neutral]
    cbv
  have hprocess : (Compiler.ofConfig Config.default).process
      ⟨"to\x7bwidth:0\x7d".toList, ⟨230, []⟩⟩ true = .ok "to\x7bwidth:0;\x7d".toList := by
    rw [Compiler.process_of_flattenCss Config.default ⟨"to\x7bwidth:0\x7d".toList, ⟨230, []⟩⟩ hflat]
    unfold unwrapKeyframes keyframesOpening
    cbv
  obtain ⟨compilation, hcompile, -⟩ := Compiler.exists_compile hencode hprocess (by cbv)
  obtain ⟨flat, body, -, rfl, hcss, -, hcontained⟩ := contained_compile hcompile
  exact ⟨compilation, body, hcompile, hcss, hcontained rfl⟩

/-- Without prefixes, a template can close the wrapper and leave the second of two animations open:
the brace of the wrapper closes the second one, and unwrapping takes it off there. -/
theorem compile_two_animations :
    ∃ compilation flat,
      (Compiler.ofConfig { Config.default with prefixing := false }).compile
        (.template (.text "from\x7ba:b\x7d\x7d@keyframes y\x7bto\x7bc:d\x7d".toList) []) true =
          .ok compilation ∧
      compilation.css = "from\x7ba:b;\x7d\x7d@keyframes y\x7bto\x7bc:d;\x7d".toList ∧
      flattenCss ['æ'] (flattenInput true ['x']
        "from\x7ba:b\x7d\x7d@keyframes y\x7bto\x7bc:d\x7d".toList) = .ok flat ∧
      (styleSheet (Component.parse flat)).length = 2 := by
  have hy : ∀ a ∈ [Atom.space [' '], .ident ['y']], a.Neutral := by
    refine List.forall_mem_cons.2 ⟨⟨rfl, rfl, by decide⟩, List.forall_mem_singleton.2 (neutral_ident ?_)⟩
    exact ⟨rfl, List.forall_mem_singleton.2 rfl⟩
  have hencode : (Compiler.ofConfig { Config.default with prefixing := false }).encode
      (.template (.text "from\x7ba:b\x7d\x7d@keyframes y\x7bto\x7bc:d\x7d".toList) []) =
        .ok ([.literal "from\x7ba:b\x7d\x7d@keyframes y\x7bto\x7bc:d\x7d".toList],
          ⟨"from\x7ba:b\x7d\x7d@keyframes y\x7bto\x7bc:d\x7d".toList, ⟨230, []⟩⟩) := by cbv
  have hbody : templateBody ['æ'] (flattenInput true ['x']
      "from\x7ba:b\x7d\x7d@keyframes y\x7bto\x7bc:d\x7d".toList) =
      .ok ((Atom.atKeyword "keyframes".toList :: [.space [' '], .ident ['x']]).map Component.atom ++
        Component.group (.bracket .curly) [.atom (.ident "from".toList), .group (.bracket .curly)
          [.atom (.ident ['a']), .atom (.literal [':']), .atom (.ident ['b'])]] ::
        ((Atom.atKeyword "keyframes".toList :: [.space [' '], .ident ['y']]).map Component.atom ++
          Component.group (.bracket .curly) [.atom (.ident ['t', 'o']), .group (.bracket .curly)
            [.atom (.ident ['c']), .atom (.literal [':']), .atom (.ident ['d'])]] :: [])) := by
    unfold flattenInput keyframesOpening
    cbv
  have hflat : flattenCss ['æ'] (flattenInput true ['x']
      "from\x7ba:b\x7d\x7d@keyframes y\x7bto\x7bc:d\x7d".toList) =
      .ok "@keyframes x\x7bfrom\x7ba:b;\x7d\x7d@keyframes y\x7bto\x7bc:d;\x7d\x7d".toList := by
    rw [flattenCss, flattenTemplate, hbody, Except.bind_ok, ofBody_keyframes readAs_x.neutral,
      ofBody_keyframes hy]
    cbv
  have hprocess : (Compiler.ofConfig { Config.default with prefixing := false }).process
      ⟨"from\x7ba:b\x7d\x7d@keyframes y\x7bto\x7bc:d\x7d".toList, ⟨230, []⟩⟩ true =
        .ok "from\x7ba:b;\x7d\x7d@keyframes y\x7bto\x7bc:d;\x7d".toList := by
    rw [Compiler.process_of_flattenCss { Config.default with prefixing := false }
      ⟨"from\x7ba:b\x7d\x7d@keyframes y\x7bto\x7bc:d\x7d".toList, ⟨230, []⟩⟩ hflat]
    unfold unwrapKeyframes keyframesOpening
    cbv
  obtain ⟨compilation, hcompile, hcss⟩ := Compiler.exists_compile hencode hprocess (by cbv)
  exact ⟨compilation, _, hcompile, hcss, hflat, by cbv⟩

end CssTemplate
