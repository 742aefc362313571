import CssTemplate.Css.Flatten

/-!
# Vendor prefixes

Some properties are still needed under the names that browser vendors gave them. In flat CSS,
`withVendorPrefixes` puts a copy under each such name before the declaration, and writes
everything else as it was.
-/

namespace CssTemplate.Css

/-- The properties that need copies, with the prefixes of the copies in order. -/
def vendorTable : List (List Char × List (List Char)) :=
  let webkit := "-webkit-".toList
  let moz := "-moz-".toList
  let ms := "-ms-".toList
  [("appearance".toList, [webkit, moz]),
   ("backdrop-filter".toList, [webkit]),
   ("background-clip".toList, [webkit]),
   ("box-decoration-break".toList, [webkit]),
   ("hyphens".toList, [webkit, ms]),
   ("mask".toList, [webkit]),
   ("mask-image".toList, [webkit]),
   ("tab-size".toList, [moz]),
   ("text-size-adjust".toList, [webkit, moz, ms]),
   ("user-select".toList, [webkit, moz, ms])]

/-- The prefixes of a property, by its name in any letter case. -/
def prefixesOf (name : List Char) : List (List Char) :=
  ((vendorTable.find? fun entry => entry.1 == name.map Char.toLower).map (·.2)).getD []

/-- A declaration with its copies in front of it. -/
def prefixedDeclaration (d : Declaration) (value : List Char) : List FlatDeclaration :=
  (prefixesOf d.name).map (fun vendor => .property (vendor ++ d.name) value d.important) ++
    [.property d.name value d.important]

/-! ## Rules -/

/-- A rule of a style sheet without nesting, as it is read back. -/
inductive SheetRule where
  | style (selectors content : List Component)
  /-- An at-rule around rules. -/
  | nested (keyword : List Char) (prelude : List Component) (rules : List SheetRule)
  /-- An at-rule around declarations. -/
  | declarations (keyword : List Char) (prelude content : List Component)
  /-- An at-rule that a semicolon ends. -/
  | statement (keyword : List Char) (prelude : List Component)
  | malformed (fault : RuleFault)
  deriving Repr, Inhabited

/-- Reads a rule, and the rules inside it. -/
def SheetRule.ofRaw : RawRule → SheetRule
  | .style selectors content => .style selectors content
  | .atRule keyword prelude none => .statement keyword prelude
  | .atRule keyword prelude (some content) =>
    if AtRuleKind.ofKeyword keyword = .unscoped then .declarations keyword prelude content
    else
      .nested keyword prelude <|
        (ruleList content).attach.map fun ⟨rule, _⟩ => SheetRule.ofRaw rule
  | .malformed f => .malformed f
termination_by rule => rule.contentSize
decreasing_by
  rename_i h
  exact contentSize_rules h

/-- The declarations of an entry, with their copies. -/
def prefixEntry : Entry → Except Fault (List FlatDeclaration)
  | .bare name => .ok [.bare (identifierText name)]
  | .item (.declaration d) => (minify d.value).map (prefixedDeclaration d)
  | .item (.rule r) => .error (.strayInRule r.sort)

/-- The declarations of entries, with their copies. -/
def prefixEntries : List Entry → Except Fault (List FlatDeclaration)
  | [] => .ok []
  | entry :: entries => do
    let first ← prefixEntry entry
    let rest ← prefixEntries entries
    .ok (first ++ rest)

/-- The text of a body that holds declarations, with the copies. -/
def prefixBody (content : List Component) : Except Fault (List Char) :=
  (prefixEntries (bodyEntries content)).map declarationsText

mutual

/-- The text of a rule, with the copies. -/
def SheetRule.prefixedText : SheetRule → Except Fault (List Char)
  | .style selectors content => do
    let selectors ← minify selectors
    let body ← prefixBody content
    .ok (blockText selectors body)
  | .nested keyword prelude rules => do
    let head ← atRuleHead keyword prelude
    let body ← prefixedTexts rules
    .ok (blockText head body)
  | .declarations keyword prelude content => do
    let head ← atRuleHead keyword prelude
    let body ← prefixBody content
    .ok (blockText head body)
  | .statement keyword prelude => do
    let head ← atRuleHead keyword prelude
    .ok (head ++ [';'])
  | .malformed f => .error (.rule f)

/-- The text of rules in a row, with the copies. -/
def prefixedTexts : List SheetRule → Except Fault (List Char)
  | [] => .ok []
  | rule :: rules => do
    let first ← rule.prefixedText
    let rest ← prefixedTexts rules
    .ok (first ++ rest)

end

/-- Flat CSS with vendor-prefixed copies of the declarations that need them. -/
def withVendorPrefixes (css : List Char) : Except Fault (List Char) :=
  prefixedTexts ((styleSheet (Component.parse css)).map SheetRule.ofRaw)

end CssTemplate.Css
