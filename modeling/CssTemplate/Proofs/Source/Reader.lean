import CssTemplate.Proofs.Source.Step

/-!
# What the reader reads

A run of the reader is `ReaderState.Reads`, any number of lexemes in a row. Every fitting tree is
read from its source (`reads_parts`, by recursion on the tree), for whatever stands around it. In
the other direction every lexeme keeps that the trees before the place fit (`Advances.fits`) and
that their source is what has been read (`Advances.text_append`). `readParts_eq_ok_iff` joins the
two directions.
-/

namespace CssTemplate

/-! ## Runs -/

/-- Any number of lexemes in a row. -/
inductive ReaderState.Reads : ReaderState → List Char → ReaderState → List Char → Prop
  | refl (state : ReaderState) (text : List Char) : Reads state text state text
  | head {state next final : ReaderState} {text rest left : List Char}
      (hstep : state.Advances text next rest) (hrun : Reads next rest final left) :
      Reads state text final left

namespace ReaderState

variable {state next final : ReaderState} {text rest left : List Char}

/-- One step is a reading. -/
theorem Advances.reads (h : state.Advances text next rest) : state.Reads text next rest :=
  .head h (.refl _ _)

/-- Readings one after the other are a reading. -/
theorem Reads.trans (h : state.Reads text next rest) (h' : next.Reads rest final left) :
    state.Reads text final left := by
  induction h with
  | refl => exact h'
  | head hstep _ ih => exact .head hstep (ih h')

/-- Reading goes on after a lexeme. -/
theorem readParts_of_next {last : List Char} (h : state.step text = .next next rest) :
    readParts state last text = readParts next text rest := by
  rw [readParts]
  split
  · next heq =>
    rw [h] at heq
    cases heq
    rfl
  · next heq =>
    rw [h] at heq
    cases heq
  · next heq =>
    rw [h] at heq
    cases heq

/-- Reading ends where the reader is done. -/
theorem readParts_of_done {last : List Char} {parts : List SourcePart}
    (h : state.step text = .done parts rest) : readParts state last text = .ok (parts, rest) := by
  rw [readParts]
  split
  · next heq =>
    rw [h] at heq
    cases heq
  · next heq =>
    rw [h] at heq
    cases heq
    rfl
  · next heq =>
    rw [h] at heq
    cases heq

/-- The reader succeeds where a run takes it to the closing backquote of the outermost
template. -/
theorem readParts_eq_ok_iff_reads {last : List Char} {parts : List SourcePart} :
    readParts state last text = .ok (parts, rest) ↔
      state.Reads text (.inTemplate parts.reverse .top) (backquote :: rest) := by
  constructor
  · intro h
    fun_induction readParts state last text with
    | case1 state last text next left hstep ih => exact .head (step_eq_next_iff.1 hstep) (ih h)
    | case2 state last text parts left hstep =>
      cases h
      obtain ⟨rfl, rfl⟩ := step_eq_done_iff.1 hstep
      exact .refl _ _
    | case3 => cases h
    | case4 => cases h
  · intro h
    generalize hfinal : ReaderState.inTemplate parts.reverse .top = final at h
    generalize hleft : backquote :: rest = left at h
    induction h generalizing last with
    | refl state text => exact readParts_of_done (step_eq_done_iff.2 ⟨hfinal.symm, hleft.symm⟩)
    | head hstep _ ih =>
      rw [readParts_of_next (step_eq_next_iff.2 hstep)]
      exact ih hfinal hleft

end ReaderState

/-! ## Every fitting tree is read from its source -/

/-- A chunk ends in front of a part that is none. -/
theorem SourcePart.chunkEnds {part : SourcePart} (h : part.isChunk = false) (rest : List Char) :
    ChunkEnds (part.text ++ rest) := by
  cases part with
  | chunk raw => exact nomatch h
  | substitution body => exact .substitution _

/-- A text ends in front of an item that is none. -/
theorem SourceItem.textEnds {node : List Char → Prop} {item : SourceItem} (hfits : item.Fits node)
    (h : item.isText = false) (rest : List Char) : TextEnds (item.source ++ rest) := by
  cases item with
  | text text => exact nomatch h
  | quoted quote content =>
    rintro c ⟨⟩
    rcases hfits.1 with rfl | rfl <;> rfl
  | braces body => rintro c ⟨⟩; rfl
  | template parts => rintro c ⟨⟩; rfl

/-- A chunk ends in front of parts that do not start with one. -/
theorem chunkEnds_parts {parts : List SourcePart} {rest : List Char}
    (h : ∀ part ∈ parts.head?, part.isChunk = false) (hends : ChunkEnds rest) :
    ChunkEnds (partsText parts ++ rest) := by
  cases parts with
  | nil => exact hends
  | cons part parts =>
    rw [partsText, List.append_assoc]
    exact SourcePart.chunkEnds (h part rfl) _

/-- A text ends in front of items that do not start with one. -/
theorem textEnds_items {node : List Char → Prop} {items : List SourceItem} {rest : List Char}
    (hfit : ItemsFit node items) (h : ∀ item ∈ items.head?, item.isText = false)
    (hends : TextEnds rest) : TextEnds (itemsText items ++ rest) := by
  cases items with
  | nil => exact hends
  | cons item items =>
    rw [itemsText, List.append_assoc]
    exact SourceItem.textEnds hfit.1 (h item rfl) _

section

open ReaderState

mutual

/-- A fitting part is read from its source. -/
theorem SourcePart.reads {node : List Char → Prop} : ∀ {part : SourcePart}
    (before : List SourcePart) (around : TemplateHole) {rest : List Char}, part.Fits node →
    (part.isChunk = true → ChunkEnds rest) →
    (inTemplate before around).Reads (part.text ++ rest)
      (inTemplate (part :: before) around) rest
  | .chunk raw, before, around, rest, h, hends =>
      (Advances.chunk before around h.1 h.2 (hends rfl)).reads
  | .substitution body, before, around, rest, ⟨hne, _, hapart, hfit⟩, _ => by
      have hbody := reads_items [] (.substitution before around) hfit hapart (.brace rest)
      have hclose := Advances.closeSubstitution (List.reverse_ne_nil_iff.2 hne) before around rest
      rw [List.append_nil] at hbody
      rw [List.reverse_reverse] at hclose
      have hrun := (Advances.openSubstitution before around _).reads.trans
        (hbody.trans hclose.reads)
      simpa [SourcePart.text] using hrun

/-- A fitting item is read from its source. -/
theorem SourceItem.reads {node : List Char → Prop} : ∀ {item : SourceItem}
    (before : List SourceItem) (around : ExpressionHole) {rest : List Char}, item.Fits node →
    (item.isText = true → TextEnds rest) →
    (inExpression before around).Reads (item.source ++ rest)
      (inExpression (item :: before) around) rest
  | .text text, before, around, rest, h, hends =>
      (Advances.text before around h (hends rfl)).reads
  | .quoted quote content, before, around, rest, ⟨hquote, hcontent⟩, _ => by
      have hrun := (Advances.quoted before around hquote hcontent rest).reads
      simpa [SourceItem.source] using hrun
  | .braces body, before, around, rest, ⟨_, hapart, hfit⟩, _ => by
      have hbody := reads_items [] (.braces before around) hfit hapart (.brace rest)
      have hclose := Advances.closeBraces body.reverse before around rest
      rw [List.append_nil] at hbody
      rw [List.reverse_reverse] at hclose
      have hrun := (Advances.openBraces before around _).reads.trans (hbody.trans hclose.reads)
      simpa [SourceItem.source] using hrun
  | .template parts, before, around, rest, ⟨hapart, hfit⟩, _ => by
      have hparts := reads_parts [] (.inside before around) hfit hapart (.backquote rest)
      have hclose := Advances.closeTemplate parts.reverse before around rest
      rw [List.append_nil] at hparts
      rw [List.reverse_reverse] at hclose
      have hrun := (Advances.openTemplate before around _).reads.trans (hparts.trans hclose.reads)
      simpa [SourceItem.source] using hrun

/-- Fitting parts are read from their source. -/
theorem reads_parts {node : List Char → Prop} : ∀ {parts : List SourcePart}
    (before : List SourcePart) (around : TemplateHole) {rest : List Char}, PartsFit node parts →
    Apart SourcePart.isChunk parts → ChunkEnds rest →
    (inTemplate before around).Reads (partsText parts ++ rest)
      (inTemplate (parts.reverse ++ before) around) rest
  | [], before, around, rest, _, _, _ => .refl _ _
  | part :: parts, before, around, rest, ⟨hpart, hparts⟩, hapart, hends => by
      obtain ⟨hnext, hrest⟩ := apart_cons.1 hapart
      have hrun := (SourcePart.reads before around hpart fun hchunk =>
        chunkEnds_parts (hnext hchunk) hends).trans
          (reads_parts (part :: before) around hparts hrest hends)
      simpa [partsText] using hrun

/-- Fitting items are read from their source. -/
theorem reads_items {node : List Char → Prop} : ∀ {items : List SourceItem}
    (before : List SourceItem) (around : ExpressionHole) {rest : List Char}, ItemsFit node items →
    Apart SourceItem.isText items → TextEnds rest →
    (inExpression before around).Reads (itemsText items ++ rest)
      (inExpression (items.reverse ++ before) around) rest
  | [], before, around, rest, _, _, _ => .refl _ _
  | item :: items, before, around, rest, ⟨hitem, hitems⟩, hapart, hends => by
      obtain ⟨hnext, hrest⟩ := apart_cons.1 hapart
      have hrun := (SourceItem.reads before around hitem fun htext =>
        textEnds_items hitems (hnext htext) hends).trans
          (reads_items (item :: before) around hitems hrest hends)
      simpa [itemsText] using hrun

end

end

/-! ## Everything read fits -/

/-- No property is asked of the expressions. -/
def AnyNode (_ : List Char) : Prop :=
  True

mutual

/-- The source that has been read before a template. -/
def TemplateHole.text : TemplateHole → List Char
  | .top => []
  | .inside before around => around.text ++ itemsText before.reverse ++ [backquote]

/-- The source that has been read before an expression. -/
def ExpressionHole.text : ExpressionHole → List Char
  | .substitution before around => around.text ++ partsText before.reverse ++ ['$', '{']
  | .braces before around => around.text ++ itemsText before.reverse ++ ['{']

end

mutual

/-- All that stands around a template fits. -/
def TemplateHole.Fits : TemplateHole → Prop
  | .top => True
  | .inside before around =>
    ItemsFit AnyNode before ∧ Apart SourceItem.isText before ∧ around.Fits

/-- All that stands around an expression fits. -/
def ExpressionHole.Fits : ExpressionHole → Prop
  | .substitution before around =>
    PartsFit AnyNode before ∧ Apart SourcePart.isChunk before ∧ around.Fits
  | .braces before around => ItemsFit AnyNode before ∧ Apart SourceItem.isText before ∧ around.Fits

end

namespace ReaderState

/-- The source that has been read. -/
def text : ReaderState → List Char
  | .inTemplate before around => around.text ++ partsText before.reverse
  | .inExpression before around => around.text ++ itemsText before.reverse

/-- All that has been read fits. -/
def Fits : ReaderState → Prop
  | .inTemplate before around =>
    PartsFit AnyNode before ∧ Apart SourcePart.isChunk before ∧ around.Fits
  | .inExpression before around =>
    ItemsFit AnyNode before ∧ Apart SourceItem.isText before ∧ around.Fits

/-- The last lexeme cannot go on in the text ahead. -/
def Ended : ReaderState → List Char → Prop
  | .inTemplate before _, ahead => ∀ part ∈ before.head?, part.isChunk = true → ChunkEnds ahead
  | .inExpression before _, ahead => ∀ item ∈ before.head?, item.isText = true → TextEnds ahead

variable {state next final : ReaderState} {ahead rest left : List Char}

/-- A lexeme moves its source from the text ahead to the text that has been read. -/
theorem Advances.text_append (h : state.Advances ahead next rest) :
    state.text ++ ahead = next.text ++ rest := by
  cases h <;>
    simp [ReaderState.text, TemplateHole.text, ExpressionHole.text, partsText_append,
      itemsText_append, partsText, itemsText, SourcePart.text, SourceItem.source]

/-- A lexeme cannot go on after its end. -/
theorem Advances.ended (h : state.Advances ahead next rest) : next.Ended rest := by
  cases h with
  | chunk before around hne hraw hends => exact fun _ _ _ => hends
  | text before around htext hends => exact fun _ _ _ => hends
  | openSubstitution => exact nofun
  | openBraces => exact nofun
  | openTemplate => exact nofun
  | closeTemplate =>
    rintro item ⟨⟩ htext
    exact nomatch htext
  | closeSubstitution =>
    rintro part ⟨⟩ hchunk
    exact nomatch hchunk
  | closeBraces =>
    rintro item ⟨⟩ htext
    exact nomatch htext
  | quoted =>
    rintro item ⟨⟩ htext
    exact nomatch htext

/-- Where all that has been read fits, it still does after a lexeme. Two chunks or two texts
cannot follow each other since the first one would have gone on. -/
theorem Advances.fits (h : state.Advances ahead next rest) (hfits : state.Fits)
    (hended : state.Ended ahead) : next.Fits := by
  cases h with
  | openSubstitution before around => exact ⟨trivial, List.isChain_nil, hfits⟩
  | openBraces before around => exact ⟨trivial, List.isChain_nil, hfits⟩
  | openTemplate before around => exact ⟨trivial, List.isChain_nil, hfits⟩
  | closeTemplate before items around =>
    obtain ⟨hparts, hpartsApart, hitems, hitemsApart, haround⟩ := hfits
    have htemplate : (SourceItem.template before.reverse).Fits AnyNode :=
      ⟨apart_reverse.2 hpartsApart, partsFit_reverse.2 hparts⟩
    exact ⟨⟨htemplate, hitems⟩, apart_cons.2 ⟨nofun, hitemsApart⟩, haround⟩
  | @closeSubstitution before hne parts around =>
    obtain ⟨hitems, hitemsApart, hparts, hpartsApart, haround⟩ := hfits
    have hsubstitution : (SourcePart.substitution before.reverse).Fits AnyNode :=
      ⟨List.reverse_ne_nil_iff.2 hne, trivial, apart_reverse.2 hitemsApart,
        itemsFit_reverse.2 hitems⟩
    exact ⟨⟨hsubstitution, hparts⟩, apart_cons.2 ⟨nofun, hpartsApart⟩, haround⟩
  | closeBraces before items around =>
    obtain ⟨hbody, hbodyApart, hitems, hitemsApart, haround⟩ := hfits
    have hbraces : (SourceItem.braces before.reverse).Fits AnyNode :=
      ⟨fun _ => trivial, apart_reverse.2 hbodyApart, itemsFit_reverse.2 hbody⟩
    exact ⟨⟨hbraces, hitems⟩, apart_cons.2 ⟨nofun, hitemsApart⟩, haround⟩
  | quoted before around hquote hcontent =>
    obtain ⟨hitems, hitemsApart, haround⟩ := hfits
    exact ⟨⟨⟨hquote, hcontent⟩, hitems⟩, apart_cons.2 ⟨nofun, hitemsApart⟩, haround⟩
  | chunk before around hne hraw hends =>
    obtain ⟨hparts, hpartsApart, haround⟩ := hfits
    refine ⟨⟨⟨hne, hraw⟩, hparts⟩, apart_cons.2 ⟨fun _ part hpart => ?_, hpartsApart⟩, haround⟩
    rw [← Bool.not_eq_true]
    exact fun hchunk => RawText.not_ends hne hraw hends (hended part hpart hchunk)
  | @text before around text rest htext hends =>
    obtain ⟨hitems, hitemsApart, haround⟩ := hfits
    refine ⟨⟨htext, hitems⟩, apart_cons.2 ⟨fun _ item hitem => ?_, hitemsApart⟩, haround⟩
    rw [← Bool.not_eq_true]
    exact fun hplain => htext.not_ends (hended item hitem hplain)

/-- What holds all along a run that starts inside fitting trees. -/
theorem Reads.sound (h : state.Reads ahead final left) (hfits : state.Fits)
    (hended : state.Ended ahead) : state.text ++ ahead = final.text ++ left ∧ final.Fits := by
  induction h with
  | refl => exact ⟨rfl, hfits⟩
  | head hstep _ ih =>
    rw [hstep.text_append]
    exact ih (hstep.fits hfits hended) hstep.ended

end ReaderState

/-- **Reading a template.** The reader succeeds exactly on the sources of fitting parts with a
backquote after them, and gives these parts. -/
theorem readParts_eq_ok_iff {last text rest : List Char} {parts : List SourcePart} :
    readParts (.inTemplate [] .top) last text = .ok (parts, rest) ↔
      PartsFit AnyNode parts ∧ Apart SourcePart.isChunk parts ∧
        text = partsText parts ++ backquote :: rest := by
  rw [ReaderState.readParts_eq_ok_iff_reads]
  constructor
  · intro h
    obtain ⟨htext, hfits, hapart, _⟩ := h.sound ⟨trivial, List.isChain_nil, trivial⟩ nofun
    refine ⟨partsFit_reverse.1 hfits, apart_reverse.1 hapart, ?_⟩
    simpa [ReaderState.text, TemplateHole.text, partsText] using htext
  · rintro ⟨hfits, hapart, rfl⟩
    have hrun := reads_parts [] .top hfits hapart (.backquote rest)
    rwa [List.append_nil] at hrun

end CssTemplate
