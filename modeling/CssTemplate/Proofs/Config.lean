import CssTemplate.Proofs.Output.Inlined
import CssTemplate.Proofs.Text.Identifier

/-!
# Names of parameters

A configuration gives a function its parameters: one for the class name, and the stem with a number for
each slot. `parameterNames_of_accepted` says what these names are. They differ from each other, and
they are identifiers, up to one thing: the check of a name lets a line end pass at its end. The host
program does not see a line end around a name, and so the class parameter can come out as the name of a
slot (`validate_slot_with_lineEnd`). A line end inside a name breaks it.
-/

namespace CssTemplate

/-- The names of the parameters of a function with `n` slots. -/
def Config.parameterNames (config : Config) (n : Nat) : List (List Char) :=
  config.classParameter :: (List.range n).map fun k => config.slotStem ++ decimal k

/-- The names in a list of parameters as the host program reads it: between commas, without the blanks
around them. -/
def readParameters (list : List Char) : List (List Char) :=
  (splitWhere (· == ',') list).map trim

/-! ## Lists of parameters -/

/-- Names joined by commas are split at the commas. -/
theorem splitWhere_joinComma {first : List Char} {names : List (List Char)}
    (hfirst : ∀ c ∈ first, (c == ',') = false)
    (hnames : ∀ name ∈ names, ∀ c ∈ name, (c == ',') = false) :
    splitWhere (· == ',') (joinComma (first :: names)) = first :: names.map (' ' :: ·) := by
  induction names generalizing first with
  | nil => rw [joinComma, List.intercalate_singleton, splitWhere_of_forall hfirst, List.map_nil]
  | cons name names ih =>
    have hname : ∀ c ∈ ' ' :: name, (c == ',') = false :=
      List.forall_mem_cons.2 ⟨rfl, hnames name (.head _)⟩
    have hjoin : joinComma (first :: name :: names) =
        first ++ ',' :: joinComma ((' ' :: name) :: names) := by
      cases names with
      | nil => simp [joinComma]
      | cons next names => simp [joinComma]
    rw [hjoin, splitWhere_append_cons hfirst rfl,
      ih hname fun other hother => hnames other (.tail _ hother), List.map_cons]

/-- Names joined by commas are read back, without the blanks around them. -/
theorem readParameters_joinComma {first : List Char} {names : List (List Char)}
    (hfirst : ∀ c ∈ first, (c == ',') = false)
    (hnames : ∀ name ∈ names, ∀ c ∈ name, (c == ',') = false) :
    readParameters (joinComma (first :: names)) = (first :: names).map trim := by
  rw [readParameters, splitWhere_joinComma hfirst hnames, List.map_cons, List.map_cons, List.map_map]
  rfl

/-- Decimal digits may stand in an identifier. -/
theorem continuesIdentifier_of_mem_decimal {n : Nat} {c : Char} (h : c ∈ decimal n) :
    continuesIdentifier c = true :=
  continuesIdentifier_of_isDigit (Nat.isDigit_of_mem_toDigits (by decide) (by decide) h)

namespace Config
variable (config : Config)

/-! ## Names of slots -/

/-- The stem of slots is not empty. -/
theorem stem_ne_nil : config.slotStem ≠ [] := by
  obtain ⟨word, hword, h | h⟩ := isIdentifierLine_iff.1 config.slotStem_name
  · exact h ▸ ne_nil_of_isIdentifier hword
  · rw [h]
    exact List.concat_ne_nil _ _

/-- The name of a slot is an identifier if its stem is. -/
theorem isIdentifier_slot (k : Nat) :
    isIdentifier (config.slotStem ++ decimal k) = isIdentifier config.slotStem :=
  isIdentifier_append config.stem_ne_nil fun _ hc => continuesIdentifier_of_mem_decimal hc

/-- There are no blanks around the name of a slot: it starts like an identifier and ends with a digit. -/
theorem trimmed_slot (k : Nat) : Trimmed (config.slotStem ++ decimal k) where
  head := by
    obtain ⟨word, hword, h⟩ := isIdentifierLine_iff.1 config.slotStem_name
    have hhead : config.slotStem.head? = word.head? := by
      rcases h with h | h
      · rw [h]
      · rw [h, List.head?_append_of_ne_nil _ (ne_nil_of_isIdentifier hword)]
    rw [List.head?_append_of_ne_nil _ config.stem_ne_nil, hhead]
    exact (trimmed_of_isIdentifier hword).head
  last := by
    have hdigits : decimal k ≠ [] := Nat.toDigits_ne_nil
    rw [List.getLast?_append_of_ne_nil _ hdigits]
    intro c hc
    exact isBlank_of_continuesIdentifier
      (continuesIdentifier_of_mem_decimal (List.mem_of_getLast? hc))

/-- The names of the slots are as they were after trimming. -/
theorem map_trim_parameterNames (n : Nat) :
    (config.parameterNames n).map trim =
      trim config.classParameter :: (List.range n).map fun k => config.slotStem ++ decimal k := by
  rw [parameterNames, List.map_cons, List.map_map]
  congr 1
  exact List.map_congr_left fun k _ => (config.trimmed_slot k).trim_eq

/-- No two slots have the same name. -/
theorem nodup_slots (n : Nat) : ((List.range n).map fun k => config.slotStem ++ decimal k).Nodup :=
  List.nodup_range.map fun _ _ h => decimal_injective (List.append_cancel_left h)

/-- The characters of a parameter: those of identifiers, and line ends. -/
theorem of_mem_parameterNames {n : Nat} {name : List Char} (h : name ∈ config.parameterNames n) :
    ∀ c ∈ name, continuesIdentifier c = true ∨ c = '\n' := by
  rcases List.mem_cons.1 h with rfl | h
  · exact of_mem_identifierLine config.classParameter_name
  · obtain ⟨k, -, rfl⟩ := List.mem_map.1 h
    intro c hc
    rcases List.mem_append.1 hc with hc | hc
    · exact of_mem_identifierLine config.slotStem_name c hc
    · exact .inl (continuesIdentifier_of_mem_decimal hc)

/-- The parameters are read back, without the blanks around them. -/
theorem readParameters_parameterNames (n : Nat) :
    readParameters (joinComma (config.parameterNames n)) = (config.parameterNames n).map trim := by
  have hcomma : ∀ name ∈ config.parameterNames n, ∀ c ∈ name, (c == ',') = false := by
    intro name hname c hc
    rw [beq_eq_false_iff_ne]
    rintro rfl
    rcases config.of_mem_parameterNames hname ',' hc with h | h <;> revert h <;> decide
  exact readParameters_joinComma (hcomma _ (.head _)) fun name hname => hcomma name (.tail _ hname)

/-! ## The class parameter among the slots -/

/-- The class parameter is no slot. -/
theorem classParameter_ne_slot (k : Nat) : config.classParameter ≠ config.slotStem ++ decimal k := by
  intro h
  have hslot := looksLikeSlot_append_decimal config.slotStem k
  rw [← h, config.no_collision] at hslot
  cases hslot

/-- The class parameter is read as the name of a slot only if it is that name with a line end. -/
theorem trim_classParameter_eq_iff (k : Nat) :
    trim config.classParameter = config.slotStem ++ decimal k ↔
      config.classParameter = config.slotStem ++ decimal k ++ ['\n'] := by
  obtain ⟨word, hword, h | h⟩ := isIdentifierLine_iff.1 config.classParameter_name
  · rw [h, (trimmed_of_isIdentifier hword).trim_eq]
    refine iff_of_false (h ▸ config.classParameter_ne_slot k) fun hline => ?_
    exact getLast?_of_isIdentifier hword (by rw [hline, List.getLast?_concat])
  · rw [h, trim_append_lineEnd hword, List.append_left_inj]

/-- The parameters are different. -/
theorem nodup_parameterNames (n : Nat) : (config.parameterNames n).Nodup := by
  refine List.nodup_cons.2 ⟨fun h => ?_, config.nodup_slots n⟩
  obtain ⟨k, -, hk⟩ := List.mem_map.1 h
  exact config.classParameter_ne_slot k hk.symm

/-- Without the blanks around them the parameters are different unless a line end told them apart. -/
theorem nodup_map_trim_iff (n : Nat) : ((config.parameterNames n).map trim).Nodup ↔
    ∀ k < n, config.classParameter ≠ config.slotStem ++ decimal k ++ ['\n'] := by
  rw [map_trim_parameterNames, List.nodup_cons, and_iff_left (config.nodup_slots n), List.mem_map]
  simp only [List.mem_range, not_exists, not_and]
  refine forall₂_congr fun k _ => ?_
  rw [eq_comm, trim_classParameter_eq_iff]

/-- Without the blanks around them all parameters are identifiers unless a line end is inside a
name. -/
theorem isIdentifier_map_trim_iff (n : Nat) :
    (∀ name ∈ (config.parameterNames n).map trim, isIdentifier name = true) ↔
      n = 0 ∨ config.slotStem.getLast? ≠ some '\n' := by
  have hclass : isIdentifier (trim config.classParameter) = true := by
    obtain ⟨word, hword, h | h⟩ := isIdentifierLine_iff.1 config.classParameter_name
    · rwa [h, (trimmed_of_isIdentifier hword).trim_eq]
    · rwa [h, trim_append_lineEnd hword]
  rw [map_trim_parameterNames, List.forall_mem_cons, and_iff_right hclass, List.forall_mem_map,
    ← isIdentifier_iff_getLast? config.slotStem_name]
  simp only [isIdentifier_slot, List.mem_range]
  cases n with
  | zero => simp
  | succ n => simpa using ⟨fun h => h 0 (Nat.zero_le n), fun h _ _ => h⟩

end Config

/-- A function that is built has the parameters of its configuration. -/
theorem Output.Scoped.parameters_eq {config : Config} {o : Output} (h : o.Scoped config) :
    o.parameters = config.parameterNames o.slots.length := by
  rw [h.parameters, Config.parameterNames]
  congr 1
  apply List.ext_getElem
  · simp
  · intro k hk _
    simp only [List.getElem_map, List.getElem_range]
    exact h.named k _ (List.getElem?_eq_getElem _)

/-- **Names that a configuration gives.** A name that is accepted is an identifier, or one with a line
end after it, and so it is one exactly if it has no line end there. The parameters of a function all
differ. What the host program reads in the list of them are these names without the blanks around them:
they differ exactly if the class parameter is not the name of a slot with a line end, and they are
identifiers exactly if there is no slot or no line end after the stem. -/
theorem parameterNames_of_accepted (config : Config) (n : Nat) :
    (∀ name ∈ [config.classParameter, config.slotStem, config.animationName],
      (∃ word, isIdentifier word = true ∧ (name = word ∨ name = word ++ ['\n'])) ∧
        (isIdentifier name = true ↔ name.getLast? ≠ some '\n')) ∧
    (config.parameterNames n).Nodup ∧
    readParameters (joinComma (config.parameterNames n)) = (config.parameterNames n).map trim ∧
    (((config.parameterNames n).map trim).Nodup ↔
      ∀ k < n, config.classParameter ≠ config.slotStem ++ decimal k ++ ['\n']) ∧
    ((∀ name ∈ (config.parameterNames n).map trim, isIdentifier name = true) ↔
      n = 0 ∨ config.slotStem.getLast? ≠ some '\n') ∧
    ∀ {m : Markers} {asKeyframes : Bool} {blocks : List (List Char)} {o : Output},
      buildOutput config m asKeyframes blocks = .ok o → o.shape = .functional → o.slots.length = n →
        ∃ array, o.script config =
          .ok ('(' :: joinComma (config.parameterNames n) ++ ") => ".toList ++ array) := by
  refine ⟨?_, config.nodup_parameterNames n, config.readParameters_parameterNames n,
    config.nodup_map_trim_iff n, config.isIdentifier_map_trim_iff n, ?_⟩
  · have hname : ∀ {name : List Char}, isIdentifierLine name = true →
        (∃ word, isIdentifier word = true ∧ (name = word ∨ name = word ++ ['\n'])) ∧
          (isIdentifier name = true ↔ name.getLast? ≠ some '\n') :=
      fun h => ⟨isIdentifierLine_iff.1 h, isIdentifier_iff_getLast? h⟩
    refine List.forall_mem_cons.2 ⟨hname config.classParameter_name, ?_⟩
    refine List.forall_mem_cons.2 ⟨hname config.slotStem_name, ?_⟩
    exact List.forall_mem_singleton.2 (hname config.animationName_name)
  · rintro m asKeyframes blocks o hbuild hshape rfl
    have hscoped := (scoped_of_functional hbuild hshape).1
    obtain ⟨texts, htexts⟩ := exists_mapM_ok fun rule hrule =>
      (native_of_buildOutput hbuild rule hrule).exists_script config
    refine ⟨'[' :: (joinComma texts ++ [']']), ?_⟩
    rw [← hscoped.parameters_eq, Output.script, hshape, if_neg (by decide), arrayScript, htexts,
      Except.map_ok, Except.bind_ok, if_pos (by rw [Output.isFunctional, hshape]; rfl)]

/-- The default names, in a function with one slot. -/
theorem parameterNames_of_accepted_default :
    Config.default.parameterNames 1 = ["cls".toList, "expr0".toList] ∧
    ((Config.default.parameterNames 1).map trim).Nodup ∧
    (∀ name ∈ (Config.default.parameterNames 1).map trim, isIdentifier name = true) ∧
    ∃ o array, buildOutput .default ⟨230, [⟨['x'], rfl⟩]⟩ false [['æ', '.', 'ç', '{', '}']] = .ok o ∧
      o.script .default = .ok ("(cls, expr0) => ".toList ++ array) := by
  obtain ⟨-, -, -, hdistinct, hidentifiers, hscript⟩ := parameterNames_of_accepted .default 1
  refine ⟨by decide, hdistinct.2 ?_, hidentifiers.2 (.inr (by decide)), ?_⟩
  · intro k hk
    obtain rfl : k = 0 := Nat.lt_one_iff.1 hk
    decide
  · obtain ⟨array, harray⟩ := hscript
      (show buildOutput .default ⟨230, [⟨['x'], rfl⟩]⟩ false [['æ', '.', 'ç', '{', '}']] = _ from rfl)
      rfl rfl
    exact ⟨_, array, rfl, harray⟩

/-- A line end is let through after a name, and the class parameter is then read as the first slot. -/
theorem validate_slot_with_lineEnd :
    ∃ config, ({ classParameter := "expr0\n".toList } : Settings).validate = .ok config ∧
      isIdentifier config.classParameter = false ∧
      (config.parameterNames 1).map trim = ["expr0".toList, "expr0".toList] :=
  ⟨_, rfl, by decide, by decide⟩

end CssTemplate
