import WireModules.Module.Basic
import WireModules.Proofs.Reading

/-!
# Words next to words

Nothing in the scanner looks at what stands around a keyword: where no name is looked for, a keyword
is found at the start of any longer word. What keeps the words of an accepted text apart is the
grammar, and it does so at all places but those where it wants a word right after a word.
-/

set_option autoImplicit false

namespace WireModules

/-- The words that the grammar of modules wants right after a word. -/
def Terminal.wordsAfter : Terminal → List Terminal
  | .module | .importWord | .const | .type => [.name]
  | .publicWord | .privateWord => [.const, .type]
  | _ => []

/-- No word can be stepped on but those of a list. -/
def OnlyWords {Next : Type} (words : List Terminal) (step : Terminal → Option Next) : Prop :=
  ∀ terminal, terminal.isWord = true → (step terminal).isSome = true → terminal ∈ words

section Grammar

variable {terminal : Terminal} (token : Token)

theorem OnlyWords.weaken {Next : Type} {words : List Terminal} {step : Terminal → Option Next}
    (none : OnlyWords [] step) : OnlyWords words step := by
  intro terminal word stepped
  cases none terminal word stepped

/-- A part of a text takes no more words than the part of it that is being read. -/
theorem OnlyWords.lift {Inner Outer : Type} {words : List Terminal}
    {inner : Terminal → Option Inner} {outer : Terminal → Option Outer}
    (only : OnlyWords words inner)
    (through : ∀ terminal, terminal.isWord = true → (outer terminal).isSome = true →
      (inner terminal).isSome = true) : OnlyWords words outer :=
  fun terminal word stepped => only terminal word (through terminal word stepped)

/-! ## After a word in a reference, in labels and in fields a sign has to come -/

theorem RefState.onlyWords_named (outer : List OpenRef) (name : String) :
    OnlyWords [] (RefState.named outer name).step := by
  intro terminal word stepped
  cases terminal with
  | scope | lessThan | comma | moreThan => cases word
  | _ => cases stepped

theorem RefState.onlyWords_of_step {state : RefState} {next : Token → RefState}
    (stepped : state.step terminal = some next) (word : terminal.isWord = true) :
    OnlyWords [] (next token).step := by
  unfold RefState.step at stepped
  split at stepped
  all_goals first | cases stepped; exact onlyWords_named _ _ | cases word | cases stepped

theorem LabelsState.onlyWords_labelled (done : List WrittenLabel) (label : Token) :
    OnlyWords [] (LabelsState.labelled done label).step := by
  intro terminal word stepped
  cases terminal with
  | equal | comma | rightBrace => cases word
  | _ => cases stepped

theorem LabelsState.onlyWords_between (done : List WrittenLabel) :
    OnlyWords [] (LabelsState.between done).step := by
  intro terminal word stepped
  cases terminal with
  | comma | rightBrace => cases word
  | _ => cases stepped

theorem LabelsState.onlyWords_of_step {state : LabelsState}
    {advance : Token → Advance LabelsState (List WrittenLabel)}
    (stepped : state.step terminal = some advance) (word : terminal.isWord = true) :
    ∃ next, advance token = .more next ∧ OnlyWords [] next.step := by
  unfold LabelsState.step at stepped
  split at stepped
  all_goals cases stepped
  all_goals first
    | exact ⟨_, rfl, onlyWords_labelled _ _⟩
    | exact ⟨_, rfl, onlyWords_between _⟩
    | cases word

theorem FieldsState.onlyWords_fieldNamed (done : List WrittenField) (name : Token) :
    OnlyWords [] (FieldsState.fieldNamed done name).step := by
  intro terminal word stepped
  cases terminal with
  | colon => cases word
  | _ => cases stepped

theorem FieldsState.onlyWords_typed {done : List WrittenField} {name : Token} {ref : RefState}
    (only : OnlyWords [] ref.step) : OnlyWords [] (FieldsState.typed done name ref).step := by
  refine only.lift fun terminal word stepped => ?_
  cases terminal with
  | semicolon => cases word
  | _ => simpa only [step, Option.isSome_map] using stepped

theorem FieldsState.onlyWords_of_step {state : FieldsState}
    {advance : Token → Advance FieldsState (List WrittenField)}
    (stepped : state.step terminal = some advance) (word : terminal.isWord = true) :
    ∃ next, advance token = .more next ∧ OnlyWords [] next.step := by
  unfold FieldsState.step at stepped
  split at stepped
  · cases word
  · cases stepped
    exact ⟨_, rfl, onlyWords_fieldNamed _ _⟩
  · cases word
  · cases word
  · cases word
  · obtain ⟨next, inner, rfl⟩ := Option.map_eq_some_iff.mp stepped
    exact ⟨_, rfl, onlyWords_typed (RefState.onlyWords_of_step token inner word)⟩
  · cases stepped

theorem BodyState.onlyWords_enum {labels : LabelsState} (only : OnlyWords [] labels.step) :
    OnlyWords [] (BodyState.enum labels).step := by
  refine only.lift fun terminal _ stepped => ?_
  simpa only [step, Option.isSome_map] using stepped

theorem BodyState.onlyWords_fields {form : FieldsForm} {fields : FieldsState}
    (only : OnlyWords [] fields.step) : OnlyWords [] (BodyState.fields form fields).step := by
  refine only.lift fun terminal _ stepped => ?_
  simpa only [step, Option.isSome_map] using stepped

theorem BodyState.onlyWords_alias {target : RefState} (only : OnlyWords [] target.step) :
    OnlyWords [] (BodyState.alias target).step := by
  refine only.lift fun terminal word stepped => ?_
  cases terminal with
  | semicolon => cases word
  | _ => simpa only [step, Option.isSome_map] using stepped

theorem BodyState.onlyWords_of_step {state : BodyState}
    {advance : Token → Advance BodyState WrittenBody}
    (stepped : state.step terminal = some advance) (word : terminal.isWord = true) :
    ∃ next, advance token = .more next ∧ OnlyWords [] next.step := by
  have opened : ∀ {labels : LabelsState} {fields : FieldsState}, labels = .opening →
      fields = .opening → OnlyWords [] labels.step ∧ OnlyWords [] fields.step := by
    rintro _ _ rfl rfl
    constructor
    · intro terminal word stepped
      cases terminal with
      | leftBrace => cases word
      | _ => cases stepped
    · intro terminal word stepped
      cases terminal with
      | leftBrace => cases word
      | _ => cases stepped
  unfold BodyState.step at stepped
  split at stepped
  · cases stepped
    exact ⟨_, rfl, onlyWords_enum (opened rfl rfl).1⟩
  · cases stepped
    exact ⟨_, rfl, onlyWords_fields (opened rfl rfl).2⟩
  · cases stepped
    exact ⟨_, rfl, onlyWords_fields (opened rfl rfl).2⟩
  · cases stepped
    exact ⟨_, rfl, onlyWords_alias (RefState.onlyWords_named _ _)⟩
  · obtain ⟨inner, innerStepped, rfl⟩ := Option.map_eq_some_iff.mp stepped
    obtain ⟨next, same, only⟩ := LabelsState.onlyWords_of_step token innerStepped word
    exact ⟨_, congrArg (Advance.within _ _) same, onlyWords_enum only⟩
  · obtain ⟨inner, innerStepped, rfl⟩ := Option.map_eq_some_iff.mp stepped
    obtain ⟨next, same, only⟩ := FieldsState.onlyWords_of_step token innerStepped word
    exact ⟨_, congrArg (Advance.within _ _) same, onlyWords_fields only⟩
  · cases word
  · obtain ⟨next, innerStepped, rfl⟩ := Option.map_eq_some_iff.mp stepped
    exact ⟨_, rfl, onlyWords_alias (RefState.onlyWords_of_step token innerStepped word)⟩
  · cases word
  · cases stepped

/-! ## After a word in an item -/

theorem ItemState.onlyWords_of_first {begin : Token → ItemState}
    (began : first terminal = some begin) : OnlyWords terminal.wordsAfter (begin token).step := by
  intro following word stepped
  unfold first at began
  split at began
  all_goals cases began
  all_goals
    cases following with
    | name | const | type => first | decide | cases stepped
    | _ => cases stepped

theorem ItemState.onlyWords_typeBody {heading : Heading} {name : String} {body : BodyState}
    (only : OnlyWords [] body.step) : OnlyWords [] (ItemState.typeBody heading name body).step := by
  refine only.lift fun terminal _ stepped => ?_
  simpa only [step, Option.isSome_map] using stepped

theorem ItemState.onlyWords_of_step {state : ItemState}
    {advance : Token → Advance ItemState WrittenItem}
    (stepped : state.step terminal = some advance) (word : terminal.isWord = true) :
    ∃ next, advance token = .more next ∧ OnlyWords terminal.wordsAfter next.step := by
  unfold ItemState.step at stepped
  split at stepped
  -- Inside the body of a type its own rules hold; elsewhere each step is on a fixed terminal.
  case h_11 heading name body terminal =>
    obtain ⟨inner, innerStepped, rfl⟩ := Option.map_eq_some_iff.mp stepped
    obtain ⟨next, same, only⟩ := BodyState.onlyWords_of_step token innerStepped word
    exact ⟨_, congrArg (Advance.within _ _) same, (onlyWords_typeBody only).weaken⟩
  all_goals first | cases word; done | cases stepped
  all_goals
    refine ⟨_, rfl, ?_⟩
    intro following word stepped
    cases following with
    | semicolon | equal => cases word
    | name => first | decide | cases stepped
    | _ => cases stepped

theorem ModuleState.onlyWords_of_step {state : ModuleState} {next : Token → ModuleState}
    (stepped : state.step terminal = some next) (word : terminal.isWord = true) :
    OnlyWords terminal.wordsAfter (next token).step := by
  unfold ModuleState.step at stepped
  split at stepped
  · cases stepped
    intro following word stepped
    cases following with
    | name => decide
    | _ => cases stepped
  · cases stepped
    intro following word stepped
    cases following with
    | semicolon => cases word
    | _ => cases stepped
  · cases word
  · obtain ⟨begin, began, rfl⟩ := Option.map_eq_some_iff.mp stepped
    refine (ItemState.onlyWords_of_first token began).lift fun terminal _ stepped => ?_
    simpa only [step, Option.isSome_map] using stepped
  · obtain ⟨advance, inner, rfl⟩ := Option.map_eq_some_iff.mp stepped
    obtain ⟨current, same, only⟩ := ItemState.onlyWords_of_step token inner word
    simp only [same]
    refine only.lift fun terminal _ stepped => ?_
    simpa only [step, Option.isSome_map] using stepped
  · cases stepped

end Grammar

/-! ## The words of a module -/

theorem Terminal.not_mem_wordsAfter_of_body {terminal : Terminal}
    (ofBody : terminal ∈ [Terminal.enum, .unit, .struct]) (other : Terminal) :
    terminal ∉ other.wordsAfter ∧ other ∉ terminal.wordsAfter := by
  simp only [List.mem_cons, List.not_mem_nil, or_false] at ofBody
  rcases ofBody with rfl | rfl | rfl
  all_goals cases other <;> decide

namespace Module

variable {text : List Char} {module : Module} {occurrences : List Occurrence}

/-- What is consumed of a text that is a module. -/
def Consumes (text : List Char) (module : Module) (occurrences : List Occurrence) : Prop :=
  ∃ written, WrittenModule.machine.Reads written .start [] text occurrences ∧
    written.build = .ok module

theorem parse_eq_ok_iff {file : Option String} :
    parse text file = .ok (.ok module) ↔ ∃ occurrences, Consumes text module occurrences := by
  have denotes : parse text file = .ok (.ok module) ↔ ofText text = .ok module := by
    unfold parse
    split
    · next found => simp [found]
    all_goals
      next found => simp [found]
  rw [denotes, ofText]
  constructor
  · intro built
    split at built
    · cases built
    · next written read =>
      obtain ⟨occurrences, reads⟩ := Machine.run_eq_ok_iff.mp read
      exact ⟨occurrences, written, reads, built⟩
  · rintro ⟨occurrences, written, reads, built⟩
    have read : WrittenModule.read text = .ok written := Machine.run_eq_ok_iff.mpr ⟨_, reads⟩
    rw [read]
    exact built

/-- A word is next to another one only where the grammar wants a word right after a word. -/
theorem Consumes.touching (consumes : Consumes text module occurrences)
    {first second : Occurrence} (adjacent : [first, second] <:+: occurrences)
    (word : first.terminal.isWord = true) (wordToo : second.terminal.isWord = true) :
    second.terminal ∈ first.terminal.wordsAfter := by
  obtain ⟨written, reads, _⟩ := consumes
  obtain ⟨left, next, after, stepped, _, steppedToo⟩ := reads.follows adjacent
  have steps : ((next first.token).step second.terminal).isSome = true :=
    Option.isSome_iff_exists.mpr ⟨after, steppedToo⟩
  exact ModuleState.onlyWords_of_step first.token stepped word second.terminal wordToo steps

/-- Of a text that is a module one list of lexemes is consumed. Each word in it has no letter, digit
or underscore next to it, unless it touches a word that the grammar wants right after the other. -/
theorem words_apart {file : Option String} (parsed : parse text file = .ok (.ok module)) :
    ∃ occurrences, (∀ others, Consumes text module others ↔ others = occurrences) ∧
      ∀ occurrence ∈ occurrences, occurrence.terminal.isWord = true →
        (occurrence.StartsApart ∨ ∃ previous, [previous, occurrence] <:+: occurrences ∧
          previous.Touches occurrence ∧ occurrence.terminal ∈ previous.terminal.wordsAfter) ∧
        (occurrence.EndsApart ∨ ∃ following, [occurrence, following] <:+: occurrences ∧
          occurrence.Touches following ∧ following.terminal ∈ occurrence.terminal.wordsAfter) ∧
        (occurrence.terminal ∈ [.enum, .unit, .struct] → occurrence.IsWhole) := by
  obtain ⟨occurrences, consumes⟩ := parse_eq_ok_iff.mp parsed
  obtain ⟨written, reads, built⟩ := id consumes
  refine ⟨occurrences, ?_, ?_⟩
  · intro others
    constructor
    · rintro ⟨_, readsToo, _⟩
      exact (reads.unique readsToo).1.symm
    · rintro rfl
      exact consumes
  intro occurrence member word
  have starts : occurrence.StartsApart ∨ ∃ previous, [previous, occurrence] <:+: occurrences ∧
      previous.Touches occurrence ∧ occurrence.terminal ∈ previous.terminal.wordsAfter := by
    rcases reads.startsApart_or member with apart | ⟨previous, adjacent, touches, wordToo⟩
    · exact .inl apart
    · exact .inr ⟨previous, adjacent, touches, consumes.touching adjacent wordToo word⟩
  have ends : occurrence.EndsApart ∨ ∃ following, [occurrence, following] <:+: occurrences ∧
      occurrence.Touches following ∧ following.terminal ∈ occurrence.terminal.wordsAfter := by
    rcases reads.endsApart_or member with apart | ⟨following, adjacent, touches, wordToo⟩
    · exact .inl apart
    · exact .inr ⟨following, adjacent, touches, consumes.touching adjacent word wordToo⟩
  refine ⟨starts, ends, fun ofBody => ⟨?_, ?_⟩⟩
  · rcases starts with apart | ⟨previous, _, _, after⟩
    · exact apart
    · exact absurd after (Terminal.not_mem_wordsAfter_of_body ofBody previous.terminal).1
  · rcases ends with apart | ⟨following, _, _, after⟩
    · exact apart
    · exact absurd after (Terminal.not_mem_wordsAfter_of_body ofBody following.terminal).2

def runTogetherText : List Char := "modulem;publictypeT=bool;".toList

def runTogether : Module where
  name := "m"
  position := ⟨1, 1⟩
  decls := [.type {
    name := "T"
    position := ⟨1, 9⟩
    linkage := .external
    definition := { kind := .alias, name := "m::T", target := some { name := "bool" } } }]

theorem parse_runTogetherText : parse runTogetherText none = .ok (.ok runTogether) := by
  decide +kernel

/-- A module may be read whose keywords begin longer words. -/
theorem words_apart_runTogether :
    parse runTogetherText none = .ok (.ok runTogether) ∧
      ∃ occurrences, (∀ others, Consumes runTogetherText runTogether others ↔ others = occurrences) ∧
        ∀ occurrence ∈ occurrences, occurrence.terminal.isWord = true →
          (occurrence.StartsApart ∨ ∃ previous, [previous, occurrence] <:+: occurrences ∧
            previous.Touches occurrence ∧ occurrence.terminal ∈ previous.terminal.wordsAfter) ∧
          (occurrence.EndsApart ∨ ∃ following, [occurrence, following] <:+: occurrences ∧
            occurrence.Touches following ∧ following.terminal ∈ occurrence.terminal.wordsAfter) ∧
          (occurrence.terminal ∈ [.enum, .unit, .struct] → occurrence.IsWhole) :=
  ⟨parse_runTogetherText, words_apart parse_runTogetherText⟩

/-- Keywords need not stand as whole words: `modulem;` is a heading. -/
theorem keywords_not_whole :
    ¬ ∀ (text : List Char) (file : Option String) (module : Module) (occurrences : List Occurrence),
      parse text file = .ok (.ok module) → Consumes text module occurrences →
        ∀ occurrence ∈ occurrences, occurrence.terminal.isKeyword = true → occurrence.IsWhole := by
  intro whole
  obtain ⟨occurrences, consumes⟩ := parse_eq_ok_iff.mp parse_runTogetherText
  have wholeHere := whole _ _ _ _ parse_runTogetherText consumes
  obtain ⟨written, reads, _⟩ := consumes
  cases reads with
  | finish ended => exact absurd ended (by decide)
  | @lexeme _ _ _ first _ others meets _ _ =>
    have begins : first.lexeme = ⟨.module, "module".toList, "m;publictypeT=bool;".toList⟩ := by
      have lexed : Scan.lexeme? (WrittenModule.machine.scanned .start) runTogetherText =
          some ⟨.module, "module".toList, "m;publictypeT=bool;".toList⟩ := by
        decide +kernel
      exact Option.some.inj (meets.lexed.symm.trans lexed)
    have isKeyword : first.terminal.isKeyword = true := by
      rw [Occurrence.terminal, begins]
      rfl
    have ends := (wholeHere first (.head _) isKeyword).2
    rw [Occurrence.EndsApart, begins] at ends
    cases ends 'm' rfl

end Module

end WireModules
