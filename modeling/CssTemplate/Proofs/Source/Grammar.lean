import CssTemplate.Source.Reader
import Mathlib.Data.List.Chain

/-!
# The grammar of templates

`Derives` is the grammar of the source of templates as a relation on texts, apart from any reader.
It asks a property of the text of every expression in a derivation, at any depth: the body of a
substitution, and the body of a pair of braces that is not empty.

A text has many derivations, since a run of text in an expression can be cut anywhere. Among the
trees of the source `PartsFit` and `ItemsFit`, together with `Apart`, pick the ones with the
longest chunks and texts. `Derives.hasTree` builds such a tree from a derivation, `derives_parts`
and `derives_items` read a derivation off a tree.
-/

namespace CssTemplate

/-! ## Texts -/

/-- A raw text of a template: characters that stand for themselves, a backslash with any
character after it, and dollar signs without an opening brace after them. -/
inductive RawText : List Char → Prop
  | nil : RawText []
  | plain {c : Char} {rest : List Char} (hbackquote : c ≠ backquote) (hdollar : c ≠ '$')
      (hbackslash : c ≠ '\\') (hrest : RawText rest) : RawText (c :: rest)
  | escape (c : Char) {rest : List Char} (hrest : RawText rest) : RawText ('\\' :: c :: rest)
  | dollar {rest : List Char} (hbrace : rest.head? ≠ some '{') (hrest : RawText rest) :
      RawText ('$' :: rest)

/-- The content of a string between two quotes. -/
inductive QuotedText (quote : Char) : List Char → Prop
  | nil : QuotedText quote []
  | plain {c : Char} {rest : List Char} (hquote : c ≠ quote) (hbackslash : c ≠ '\\')
      (hline : c ≠ '\n') (hrest : QuotedText quote rest) : QuotedText quote (c :: rest)
  | escape {c : Char} {rest : List Char} (hline : c ≠ '\n') (hrest : QuotedText quote rest) :
      QuotedText quote ('\\' :: c :: rest)

/-- A quote that can stand around a string. -/
def IsQuote (c : Char) : Prop :=
  c = '"' ∨ c = '\''

/-- A text of an expression that holds none of the characters with a meaning of their own. -/
def PlainText (text : List Char) : Prop :=
  text ≠ [] ∧ ∀ c ∈ text, isExpressionText c = true

/-! ## Derivations -/

/-- What a text can be derived from. A template stands here without its backquotes. -/
inductive Nonterminal where
  | template
  | expression
  | item

/-- The texts that the grammar derives, where every expression in the derivation has the
property `node`. -/
inductive Derives (node : List Char → Prop) : Nonterminal → List Char → Prop
  | text {text : List Char} (htext : PlainText text) : Derives node .item text
  | quoted {quote : Char} {content : List Char} (hquote : IsQuote quote)
      (hcontent : QuotedText quote content) :
      Derives node .item (quote :: (content ++ [quote]))
  | emptyBraces : Derives node .item ['{', '}']
  | braces {body : List Char} (hbody : Derives node .expression body) (hnode : node body) :
      Derives node .item ('{' :: (body ++ ['}']))
  | template {raw : List Char} (hraw : Derives node .template raw) :
      Derives node .item (backquote :: (raw ++ [backquote]))
  | last {item : List Char} (hitem : Derives node .item item) : Derives node .expression item
  | more {item rest : List Char} (hitem : Derives node .item item)
      (hrest : Derives node .expression rest) : Derives node .expression (item ++ rest)
  | raw {raw : List Char} (hraw : RawText raw) : Derives node .template raw
  | substitution {raw body rest : List Char} (hraw : RawText raw)
      (hbody : Derives node .expression body) (hnode : node body)
      (hrest : Derives node .template rest) :
      Derives node .template (raw ++ '$' :: '{' :: (body ++ '}' :: rest))

/-! ## Trees with the longest lexemes -/

/-- Whether a part is a chunk. -/
def SourcePart.isChunk : SourcePart → Bool
  | .chunk _ => true
  | .substitution _ => false

/-- Whether an item is a text. -/
def SourceItem.isText : SourceItem → Bool
  | .text _ => true
  | .quoted _ _ => false
  | .braces _ => false
  | .template _ => false

/-- An item that is a text. -/
theorem SourceItem.isText_iff {item : SourceItem} :
    item.isText = true ↔ ∃ text, item = .text text := by
  cases item <;> simp [isText]

/-- No two neighbours are both of the class. -/
def Apart {α : Type _} (p : α → Bool) (l : List α) : Prop :=
  l.IsChain fun a b => p a = true → p b = false

/-- An element in front of a list in which the class is apart. -/
theorem apart_cons {α : Type _} {p : α → Bool} {a : α} {l : List α} :
    Apart p (a :: l) ↔ (p a = true → ∀ b ∈ l.head?, p b = false) ∧ Apart p l := by
  rw [Apart, List.isChain_cons]
  exact and_congr_left' ⟨fun h ha b hb => h b hb ha, fun h b hb ha => h ha b hb⟩

/-- A class is apart in either order. -/
theorem apart_reverse {α : Type _} {p : α → Bool} {l : List α} :
    Apart p l.reverse ↔ Apart p l := by
  rw [Apart, List.isChain_reverse, Apart]
  simp only [← Bool.not_eq_true, imp_not_comm]

mutual

/-- A part that the grammar allows, with the longest lexemes inside it. -/
def SourcePart.Fits (node : List Char → Prop) : SourcePart → Prop
  | .chunk raw => raw ≠ [] ∧ RawText raw
  | .substitution body =>
    body ≠ [] ∧ node (itemsText body) ∧ Apart SourceItem.isText body ∧ ItemsFit node body

/-- An item that the grammar allows, with the longest lexemes inside it. -/
def SourceItem.Fits (node : List Char → Prop) : SourceItem → Prop
  | .text text => PlainText text
  | .quoted quote content => IsQuote quote ∧ QuotedText quote content
  | .braces body =>
    (body ≠ [] → node (itemsText body)) ∧ Apart SourceItem.isText body ∧ ItemsFit node body
  | .template parts => Apart SourcePart.isChunk parts ∧ PartsFit node parts

/-- `SourcePart.Fits` over parts in a row. -/
def PartsFit (node : List Char → Prop) : List SourcePart → Prop
  | [] => True
  | part :: parts => part.Fits node ∧ PartsFit node parts

/-- `SourceItem.Fits` over items in a row. -/
def ItemsFit (node : List Char → Prop) : List SourceItem → Prop
  | [] => True
  | item :: items => item.Fits node ∧ ItemsFit node items

end

section

variable {node : List Char → Prop} {parts before : List SourcePart} {items : List SourceItem}
  {part : SourcePart} {item : SourceItem}

/-- `PartsFit` in the natural per-element form. -/
theorem partsFit_iff : PartsFit node parts ↔ ∀ part ∈ parts, part.Fits node := by
  induction parts with
  | nil => simp [PartsFit]
  | cons part parts ih => simp [PartsFit, ih]

/-- `ItemsFit` in the natural per-element form. -/
theorem itemsFit_iff : ItemsFit node items ↔ ∀ item ∈ items, item.Fits node := by
  induction items with
  | nil => simp [ItemsFit]
  | cons item items ih => simp [ItemsFit, ih]

/-- Parts fit in either order. -/
theorem partsFit_reverse : PartsFit node parts.reverse ↔ PartsFit node parts := by
  simp only [partsFit_iff, List.mem_reverse]

/-- Items fit in either order. -/
theorem itemsFit_reverse : ItemsFit node items.reverse ↔ ItemsFit node items := by
  simp only [itemsFit_iff, List.mem_reverse]

/-- The source of parts in two rows. -/
theorem partsText_append (parts rest : List SourcePart) :
    partsText (parts ++ rest) = partsText parts ++ partsText rest := by
  induction parts with
  | nil => rfl
  | cons part parts ih => rw [List.cons_append, partsText, ih, partsText, List.append_assoc]

/-- The source of items in two rows. -/
theorem itemsText_append (items rest : List SourceItem) :
    itemsText (items ++ rest) = itemsText items ++ itemsText rest := by
  induction items with
  | nil => rfl
  | cons item items ih => rw [List.cons_append, itemsText, ih, itemsText, List.append_assoc]

end

/-! ## Trees from derivations -/

/-- Items with one more in front, which is joined with a text after it when it is one itself. -/
def consItem : SourceItem → List SourceItem → List SourceItem
  | .text text, .text more :: items => .text (text ++ more) :: items
  | item, items => item :: items

/-- Parts with a raw text in front, unless that is empty. -/
def consChunk (raw : List Char) (parts : List SourcePart) : List SourcePart :=
  if raw = [] then parts else .chunk raw :: parts

section

variable {node : List Char → Prop} {parts : List SourcePart} {items : List SourceItem}
  {item : SourceItem} {raw : List Char}

/-- There is an item in front. -/
theorem consItem_ne_nil (item : SourceItem) (items : List SourceItem) :
    consItem item items ≠ [] := by
  fun_cases consItem item items <;> exact List.cons_ne_nil _ _

/-- Joining two texts keeps their source. -/
theorem itemsText_consItem (item : SourceItem) (items : List SourceItem) :
    itemsText (consItem item items) = item.source ++ itemsText items := by
  fun_cases consItem item items with
  | case1 text more items => simp [itemsText, SourceItem.source]
  | case2 item items => rfl

/-- Plain texts one after the other are plain. -/
theorem PlainText.append {text more : List Char} (h : PlainText text) (h' : PlainText more) :
    PlainText (text ++ more) := by
  refine ⟨fun he => h.1 (List.append_eq_nil_iff.1 he).1, fun c hc => ?_⟩
  rcases List.mem_append.1 hc with hc | hc
  · exact h.2 c hc
  · exact h'.2 c hc

/-- Items still fit with a fitting one in front. -/
theorem itemsFit_consItem (hitem : item.Fits node) (hitems : ItemsFit node items) :
    ItemsFit node (consItem item items) := by
  fun_cases consItem item items with
  | case1 text more items => exact ⟨PlainText.append hitem hitems.1, hitems.2⟩
  | case2 item items => exact ⟨hitem, hitems⟩

/-- Texts stay apart with an item in front: two of them are joined. -/
theorem apart_consItem (hitems : Apart SourceItem.isText items) :
    Apart SourceItem.isText (consItem item items) := by
  fun_cases consItem item items with
  | case1 text more items =>
    exact apart_cons.2 ⟨(apart_cons.1 hitems).1, (apart_cons.1 hitems).2⟩
  | case2 item items hnot =>
    refine apart_cons.2 ⟨fun htext next hnext => ?_, hitems⟩
    obtain ⟨text, rfl⟩ := SourceItem.isText_iff.1 htext
    obtain ⟨rest, rfl⟩ := List.head?_eq_some_iff.1 hnext
    rw [← Bool.not_eq_true, SourceItem.isText_iff]
    rintro ⟨more, rfl⟩
    exact hnot text more rest rfl rfl

/-- The source of parts with a raw text in front. -/
theorem partsText_consChunk (raw : List Char) (parts : List SourcePart) :
    partsText (consChunk raw parts) = raw ++ partsText parts := by
  unfold consChunk
  split
  · next h => rw [h, List.nil_append]
  · rfl

/-- Parts still fit with a raw text in front. -/
theorem partsFit_consChunk (hraw : RawText raw) (hparts : PartsFit node parts) :
    PartsFit node (consChunk raw parts) := by
  unfold consChunk
  split
  · exact hparts
  · next hne => exact ⟨⟨hne, hraw⟩, hparts⟩

/-- Chunks stay apart with a raw text in front when a substitution follows it. -/
theorem apart_consChunk_substitution (raw : List Char) (body : List SourceItem)
    (hparts : Apart SourcePart.isChunk parts) :
    Apart SourcePart.isChunk (consChunk raw (.substitution body :: parts)) := by
  have hrest : Apart SourcePart.isChunk (.substitution body :: parts) :=
    apart_cons.2 ⟨nofun, hparts⟩
  unfold consChunk
  split
  · exact hrest
  · refine apart_cons.2 ⟨?_, hrest⟩
    rintro _ part ⟨⟩
    rfl

/-- A chunk before nothing has no neighbours. -/
theorem apart_consChunk_nil (raw : List Char) :
    Apart SourcePart.isChunk (consChunk raw []) := by
  unfold consChunk
  split
  · exact List.isChain_nil
  · exact List.isChain_singleton _

end

/-- What a derivation gives for each kind of text: a tree with the longest lexemes. -/
def HasTree (node : List Char → Prop) : Nonterminal → List Char → Prop
  | .template, raw => ∃ parts, PartsFit node parts ∧ Apart SourcePart.isChunk parts ∧
      partsText parts = raw
  | .expression, body => ∃ items, items ≠ [] ∧ ItemsFit node items ∧
      Apart SourceItem.isText items ∧ itemsText items = body
  | .item, source => ∃ item : SourceItem, item.Fits node ∧ item.source = source

/-- Every derivable text has a tree with the longest lexemes. -/
theorem Derives.hasTree {node : List Char → Prop} {symbol : Nonterminal} {text : List Char}
    (h : Derives node symbol text) : HasTree node symbol text := by
  induction h with
  | text htext => exact ⟨.text _, htext, rfl⟩
  | quoted hquote hcontent => exact ⟨.quoted _ _, ⟨hquote, hcontent⟩, rfl⟩
  | emptyBraces =>
    exact ⟨.braces [], ⟨fun h => absurd rfl h, List.isChain_nil, trivial⟩, rfl⟩
  | braces _ hnode ih =>
    obtain ⟨items, _, hfit, hapart, rfl⟩ := ih
    exact ⟨.braces items, ⟨fun _ => hnode, hapart, hfit⟩, rfl⟩
  | template _ ih =>
    obtain ⟨parts, hfit, hapart, rfl⟩ := ih
    exact ⟨.template parts, ⟨hapart, hfit⟩, rfl⟩
  | last _ ih =>
    obtain ⟨item, hfit, rfl⟩ := ih
    exact ⟨[item], List.cons_ne_nil _ _, ⟨hfit, trivial⟩, List.isChain_singleton _,
      List.append_nil _⟩
  | more _ _ ihitem ihrest =>
    obtain ⟨item, hitem, rfl⟩ := ihitem
    obtain ⟨items, _, hitems, hapart, rfl⟩ := ihrest
    exact ⟨consItem item items, consItem_ne_nil item items, itemsFit_consItem hitem hitems,
      apart_consItem hapart, itemsText_consItem item items⟩
  | raw hraw =>
    exact ⟨consChunk _ [], partsFit_consChunk hraw trivial,
      apart_consChunk_nil _, (partsText_consChunk _ []).trans (List.append_nil _)⟩
  | @substitution raw _ _ hraw _ hnode _ ihbody ihrest =>
    obtain ⟨items, hne, hitems, hitemsApart, rfl⟩ := ihbody
    obtain ⟨parts, hparts, hpartsApart, rfl⟩ := ihrest
    refine ⟨consChunk raw (.substitution items :: parts), ?_, ?_, ?_⟩
    · exact partsFit_consChunk hraw ⟨⟨hne, hnode, hitemsApart, hitems⟩, hparts⟩
    · exact apart_consChunk_substitution raw items hpartsApart
    · rw [partsText_consChunk, partsText, SourcePart.text]
      simp

/-! ## Derivations from trees -/

mutual

/-- The source of a fitting item is derivable. -/
theorem SourceItem.derives {node : List Char → Prop} : ∀ {item : SourceItem}, item.Fits node →
    Derives node .item item.source
  | .text _, h => .text h
  | .quoted _ _, h => .quoted h.1 h.2
  | .braces [], _ => .emptyBraces
  | .braces (_ :: _), h =>
      .braces (derives_items h.2.2 (List.cons_ne_nil _ _)) (h.1 (List.cons_ne_nil _ _))
  | .template parts, h => .template (derives_parts parts [] h.2 h.1 .nil fun _ _ _ => rfl)

/-- The source of fitting items is derivable. -/
theorem derives_items {node : List Char → Prop} : ∀ {items : List SourceItem},
    ItemsFit node items → items ≠ [] → Derives node .expression (itemsText items)
  | [], _, hne => absurd rfl hne
  | [item], h, _ => by
      rw [itemsText, itemsText, List.append_nil]
      exact .last (SourceItem.derives h.1)
  | item :: next :: items, h, _ =>
      .more (SourceItem.derives h.1) (derives_items h.2 (List.cons_ne_nil _ _))

/-- The source of fitting parts is derivable, also after a raw text when no chunk follows it. -/
theorem derives_parts {node : List Char → Prop} : ∀ (parts : List SourcePart) (raw : List Char),
    PartsFit node parts → Apart SourcePart.isChunk parts → RawText raw →
    (∀ part ∈ parts.head?, part.isChunk = true → raw = []) →
    Derives node .template (raw ++ partsText parts)
  | [], raw, _, _, hraw, _ => by
      rw [partsText, List.append_nil]
      exact .raw hraw
  | .chunk more :: parts, raw, h, hapart, hraw, hhead => by
      obtain ⟨hnext, hrest⟩ := apart_cons.1 hapart
      rw [hhead _ rfl rfl, List.nil_append, partsText, SourcePart.text]
      refine derives_parts parts more h.2 hrest h.1.2 fun part hpart hchunk => ?_
      rw [hnext rfl part hpart] at hchunk
      exact nomatch hchunk
  | .substitution body :: parts, raw, h, hapart, hraw, _ => by
      obtain ⟨⟨hne, hnode, _, hbody⟩, hparts⟩ := h
      have hrest := derives_parts parts [] hparts (apart_cons.1 hapart).2 .nil fun _ _ _ => rfl
      have hsub := Derives.substitution hraw (derives_items hbody hne) hnode hrest
      simpa [partsText, SourcePart.text] using hsub

end

end CssTemplate
