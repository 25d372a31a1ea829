import WireModules.Module.Basic
import WireModules.Proofs.Completion
import WireModules.Proofs.Outcome
import WireModules.Proofs.Positions
import WireModules.Proofs.Resumption

/-!
# Where a syntax error is

The diagnostic of a text that the grammar rejects has the position of the first lexeme that cannot stand
where it stands: up to there the text can be completed, and with that lexeme it can not. If nothing but
an early end is wrong with a text, the position is that of its last lexeme.
-/

set_option autoImplicit false

namespace WireModules

/-! ## Texts of words -/

def Word.spelled (words : List Word) : List Char :=
  words.flatMap fun word => ' ' :: word.text

theorem Word.spaced_spelled (words : List Word) (after : Bool) :
    Spaced after words (Word.spelled words) := by
  induction words generalizing after with
  | nil => exact .done .nil
  | cons word rest ih =>
    have blank : Gap [' '] := .blank (by decide) .nil
    exact .word blank (by simp) (ih _)

theorem Scan.Resumes.spelled {rest gap : List Char} (resumes : Resumes rest gap) (words : List Word) :
    Resumes rest (gap ++ Word.spelled words) := by
  intro next head
  cases gap with
  | cons char gap => exact resumes next head
  | nil =>
    cases words with
    | nil => cases head
    | cons word words => exact Resumes.of_blank (by decide) _ next head

/-! ## What is refused although it is looked for -/

/-- The signs that can end a reference. -/
def Terminal.EndsReference (terminal : Terminal) : Prop :=
  terminal ∈ [.comma, .moreThan, .semicolon]

section Refused

variable {terminal : Terminal}

theorem Terminal.EndsReference.wholeLexeme {word : List Char} (ends : terminal.EndsReference)
    (fits : terminal.Fits word) (rest : List Char) : Scan.wholeLexeme (word ++ rest) = word := by
  simp only [EndsReference, List.mem_cons, List.not_mem_nil, or_false] at ends
  rcases ends with rfl | rfl | rfl
  all_goals
    cases List.mem_singleton.mp fits
    rfl

theorem RefState.endsReference {state : RefState} (listed : terminal ∈ state.alsoScanned) :
    terminal.EndsReference := by
  unfold alsoScanned at listed
  split at listed
  · exact listed
  · exact listed
  · cases listed

theorem FieldsState.endsReference {state : FieldsState} (listed : terminal ∈ state.alsoScanned) :
    terminal.EndsReference := by
  unfold alsoScanned at listed
  split at listed
  · exact RefState.endsReference listed
  · cases listed

theorem BodyState.endsReference {state : BodyState} (listed : terminal ∈ state.alsoScanned) :
    terminal.EndsReference := by
  unfold alsoScanned at listed
  split at listed
  · exact FieldsState.endsReference listed
  · exact RefState.endsReference listed
  · cases listed

theorem ItemState.endsReference {state : ItemState} (listed : terminal ∈ state.alsoScanned) :
    terminal.EndsReference := by
  unfold alsoScanned at listed
  split at listed
  · exact BodyState.endsReference listed
  · cases listed

theorem ModuleState.endsReference {state : ModuleState} (listed : terminal ∈ state.alsoScanned) :
    terminal.EndsReference := by
  unfold alsoScanned at listed
  split at listed
  · exact ItemState.endsReference listed
  · cases listed

end Refused

namespace WrittenModule

open Machine

/-- The grammar of modules accepts a text. -/
def Accepts (text : List Char) : Prop :=
  ∃ written, read text = .ok written

/-- Some text makes a text one that the grammar of modules accepts. -/
def Extends (text : List Char) : Prop :=
  ∃ more, Accepts (text ++ more)

theorem accepts_iff {text : List Char} :
    Accepts text ↔ ∃ written occurrences, machine.Reads written .start [] text occurrences := by
  simp only [Accepts, read, run_eq_ok_iff]
  rfl

variable {text lastBefore lastText gap : List Char} {last : ModuleState}
  {occurrences : List Occurrence} {rejection : Rejection}

/-! ## What comes before the error -/

theorem reads_completion (state : ModuleState) (isGap : Gap gap) (before : List Char) :
    ∃ written occurrences,
      machine.Reads written state before (gap ++ Word.spelled state.completion) occurrences := by
  have spaced : Spaced true state.completion (gap ++ Word.spelled state.completion) :=
    (Word.spaced_spelled _ true).append_left isGap
  have completed : ∃ final, (ModuleState.finish? final).isSome = true ∧
      ∀ written, machine.finish? final = some written →
        machine.runFrom [] state none (Position.start.advance before)
          (gap ++ Word.spelled state.completion) = .ok written :=
    runFrom_of_leads (ModuleReading.leads_completion state) spaced
  obtain ⟨final, finished, ran⟩ := completed
  obtain ⟨written, isFinal⟩ := Option.isSome_iff_exists.mp finished
  exact ⟨written, Reads.of_runFrom rfl (ran written isFinal)⟩

/-- Where the machine has come to a place, the text up to there can be completed behind any layout that
goes on as the text does. -/
theorem extends_of_passes
    (passes : machine.Passes last lastBefore lastText .start [] text occurrences)
    (isGap : Gap gap) (resumes : Scan.Resumes lastText gap) : Extends (lastBefore ++ gap) := by
  obtain ⟨consumed, others, same, _, passes⟩ := passes.resumes (resumes.spelled last.completion)
  obtain ⟨written, later, reads⟩ := reads_completion last isGap lastBefore
  refine ⟨Word.spelled last.completion, accepts_iff.mpr ⟨written, others ++ later, ?_⟩⟩
  rw [List.nil_append] at same
  rw [List.append_assoc, same]
  exact passes.reads_iff.mpr ⟨later, rfl, reads⟩

theorem extends_before
    (passes : machine.Passes last lastBefore lastText .start [] text occurrences)
    (more : (Layout.split lastText).2 ≠ []) :
    Extends (lastBefore ++ (Layout.split lastText).1) := by
  refine extends_of_passes passes (Layout.gap_of_split more) (.of_begins ?_)
  exact ⟨_, Layout.split_append lastText⟩

theorem extends_nil : Extends [] := by
  have passes : machine.Passes .start [] [] .start [] [] [] := .here
  exact extends_of_passes passes .nil nofun

/-- A text of which all has been read can be completed, on a new line. -/
theorem extends_of_ended
    (passes : machine.Passes last lastBefore lastText .start [] text occurrences)
    (ended : (Layout.split lastText).2 = []) : Extends text := by
  have feed : Scan.Resumes [] ['\n'] := .of_blank (by decide) []
  have resumes := feed.append_left lastText
  rw [List.append_nil] at resumes
  obtain ⟨more, accepted⟩ := extends_of_passes passes (Layout.gap_of_ended ended) resumes
  refine ⟨'\n' :: more, ?_⟩
  rw [← List.append_assoc, passes.append, List.nil_append, List.append_assoc] at accepted
  exact accepted

/-! ## What comes at the error -/

/-- What is refused is refused still if the text is cut off behind its first lexeme. -/
theorem refuses_cut {state : ModuleState} (refuses : machine.Refuses state text) (more : List Char) :
    machine.Refuses state (Scan.wholeLexeme text ++ ' ' :: more) := by
  have blank : Layout.isBlank ' ' = true := by decide
  intro other foundToo
  cases found : Scan.lexeme? (machine.scanned state) text with
  | none =>
    rw [Scan.lexeme?_eq_none_of_cut found (Scan.wholeLexeme_begins text) blank more] at foundToo
    cases foundToo
  | some lexeme =>
    have ends : lexeme.terminal.EndsReference :=
      ModuleState.endsReference (mem_alsoScanned found (refuses lexeme found))
    obtain ⟨fits, split⟩ := Scan.lexeme?_sound found
    rw [split, ends.wholeLexeme fits, Scan.lexeme?_resumes found (.of_blank blank more)] at foundToo
    cases foundToo
    exact refuses lexeme found

theorem not_accepts_of_refuses
    (passes : machine.Passes last lastBefore lastText .start [] text occurrences)
    (filled : (Layout.split lastText).2 ≠ [])
    (refuses : machine.Refuses last (Layout.split lastText).2) (more : List Char) :
    ¬Accepts (lastBefore ++ (Layout.split lastText).1 ++
      Scan.wholeLexeme (Layout.split lastText).2 ++ ' ' :: more) := by
  have head : (Scan.wholeLexeme (Layout.split lastText).2 ++ ' ' :: more).head? =
      (Layout.split lastText).2.head? := by
    obtain ⟨char, rest, starts⟩ := List.exists_cons_of_ne_nil filled
    rw [List.head?_append, Scan.head?_wholeLexeme, starts]
    rfl
  -- The same layout is split off, and the same state is reached before it.
  have split := Layout.split_replace filled (head ▸ Layout.solid_of_split lastText)
  have resumes := (Scan.Resumes.of_head? head).append_left (Layout.split lastText).1
  rw [Layout.split_append] at resumes
  obtain ⟨consumed, others, same, _, passes⟩ := passes.resumes resumes
  intro accepted
  obtain ⟨written, read, reads⟩ := accepts_iff.mp accepted
  rw [List.nil_append] at same
  rw [List.append_assoc, List.append_assoc, same] at reads
  obtain ⟨later, _, reads⟩ := passes.reads_iff.mp reads
  have refusesCut := refuses_cut refuses more
  refine Refuses.not_reads ?_ ?_ written later reads
  · rw [split]
    exact refusesCut
  · rw [split]
    simp

/-! ## Where the error is -/

/-- All of a text is lexemes that the machine takes, and the last of them begins behind some text; with no
lexeme at all that is the empty text. -/
inductive EndsBehind (text : List Char) : List Char → Prop where
  | empty : (Layout.split text).2 = [] → EndsBehind text []
  | lexeme {own : ModuleState} {ownBefore ownText : List Char} {front : List Occurrence}
      {occurrence : Occurrence} : machine.Passes own ownBefore ownText .start [] text front →
      machine.Meets own ownBefore ownText occurrence →
      (machine.step own occurrence.terminal).isSome = true → occurrence.StandsIn text →
      (Layout.split occurrence.lexeme.rest).2 = [] → EndsBehind text occurrence.before

/-- The position of a rejection is that of the first lexeme that cannot stand where it stands, or that of
the last lexeme if nothing but an early end is wrong. -/
structure ErrsAt (text : List Char) (rejection : Rejection) (before rest : List Char) : Prop where
  whole : before ++ rest = text
  placed : rejection.position = Position.start.advance before
  only : ∀ front, front <+: text → Position.start.advance front = rejection.position → front = before
  completable : Extends before
  refused : ¬rejection.AtEnd →
    rest ≠ [] ∧ ∀ more, ¬Accepts (before ++ Scan.wholeLexeme rest ++ ' ' :: more)
  ended : rejection.AtEnd → Extends text ∧ EndsBehind text before

theorem only_of_placed {before rest : List Char} (whole : before ++ rest = text)
    (placed : rejection.position = Position.start.advance before) :
    ∀ front, front <+: text → Position.start.advance front = rejection.position → front = before :=
  fun _ begins same => Position.eq_of_advance_eq begins ⟨rest, whole⟩ (same.trans placed)

theorem errsAt_of_refused
    (passes : machine.Passes last lastBefore lastText .start [] text occurrences)
    {previous : Option Token} (halts : machine.Halts text last previous lastBefore lastText rejection)
    (within : ¬rejection.AtEnd) :
    ErrsAt text rejection (lastBefore ++ (Layout.split lastText).1) (Layout.split lastText).2 := by
  obtain ⟨filled, placed, refuses⟩ := halts.of_not_atEnd within
  have whole : lastBefore ++ (Layout.split lastText).1 ++ (Layout.split lastText).2 = text := by
    rw [List.append_assoc, Layout.split_append, passes.append, List.nil_append]
  exact {
    whole
    placed
    only := only_of_placed whole placed
    completable := extends_before passes filled
    refused := fun _ => ⟨filled, not_accepts_of_refuses passes filled refuses⟩
    ended := fun atEnd => absurd atEnd within }

theorem errsAt_of_ended
    (passes : machine.Passes last lastBefore lastText .start [] text occurrences)
    (halts : machine.Halts text last (occurrences.getLast?.map Occurrence.token) lastBefore lastText
      rejection) (atEnd : rejection.AtEnd) :
    ∃ before rest, ErrsAt text rejection before rest := by
  obtain ⟨ended, placed⟩ := halts.of_atEnd atEnd
  have completable : Extends text := extends_of_ended passes ended
  rcases List.eq_nil_or_concat' occurrences with rfl | ⟨front, occurrence, rfl⟩
  · cases passes
    refine ⟨[], text, rfl, placed, ?_, extends_nil, fun within => absurd atEnd within, fun _ => ?_⟩
    · exact only_of_placed rfl placed
    · exact ⟨completable, .empty ended⟩
  · obtain ⟨own, ownBefore, ownText, next, earlier, meets, stepped, rfl⟩ := passes.exists_meets
    rw [List.getLast?_concat] at placed
    have stands : occurrence.StandsIn text := by
      have standsHere := meets.standsIn
      rw [earlier.append, List.nil_append] at standsHere
      exact standsHere
    have whole : occurrence.before ++ (occurrence.lexeme.text ++ occurrence.lexeme.rest) = text := by
      rw [← List.append_assoc]
      exact stands
    refine ⟨occurrence.before, _, whole, placed, only_of_placed whole placed, ?_,
      fun within => absurd atEnd within, fun _ => ⟨completable, ?_⟩⟩
    · rw [meets.placed]
      exact extends_before earlier meets.ne_nil
    · exact .lexeme earlier meets (Option.isSome_iff_exists.mpr ⟨next, stepped⟩) stands ended

theorem errsAt_of_read (rejected : read text = .error rejection) :
    ∃ before rest, ErrsAt text rejection before rest := by
  obtain ⟨last, lastBefore, lastText, occurrences, passes, halts⟩ := exists_passes_of_run rejected
  by_cases atEnd : rejection.AtEnd
  · exact errsAt_of_ended passes halts atEnd
  · exact ⟨_, _, errsAt_of_refused passes halts atEnd⟩

end WrittenModule

namespace Module

variable {text : List Char} {rejection : Rejection}

/-- The diagnostic of a text that is no module by its syntax has the line and the column of the first
lexeme that cannot stand where it stands, or of the last one if the text ends too early. -/
theorem errsAt_of_rejected (rejected : WrittenModule.read text = .error rejection)
    (file : Option String) :
    parse text file = .ok (.error (parserDiagnostic rejection.message
      { file
        line := some rejection.position.line
        column := some rejection.position.column })) ∧
      ∃ before rest, WrittenModule.ErrsAt text rejection before rest := by
  refine ⟨?_, WrittenModule.errsAt_of_read rejected⟩
  rw [parse, ofText, rejected]

/-- A field up to a comma at which no arguments are open. -/
def misplacedFront : List Char :=
  "module m; # c\ntype T = unit \x7b a: b".toList

def misplacedText : List Char :=
  misplacedFront ++ ", c; \x7d;".toList

def misplaced : Rejection :=
  .misplacedToken ⟨.comma, ",", ⟨2, 21⟩, ⟨2, 22⟩⟩ [.terminal .semicolon]

theorem read_misplacedText : WrittenModule.read misplacedText = .error misplaced :=
  eq_error_of_errorOf? (by decide +kernel)

/-- A constant up to its value, after which the semicolon is missing. -/
def unendedFront : List Char :=
  "module m;\nconst x =\n ".toList

def unendedText : List Char :=
  unendedFront ++ "-12 # c".toList

def unended : Rejection :=
  .earlyEnd ⟨3, 2⟩ [.terminal .semicolon]

theorem read_unendedText : WrittenModule.read unendedText = .error unended :=
  eq_error_of_errorOf? (by decide +kernel)

theorem errsAt_of_rejected_misplaced_unended :
    (WrittenModule.read misplacedText = .error misplaced ∧ ¬misplaced.AtEnd ∧
        ∃ rest, WrittenModule.ErrsAt misplacedText misplaced misplacedFront rest) ∧
      WrittenModule.read unendedText = .error unended ∧ unended.AtEnd ∧
        ∃ rest, WrittenModule.ErrsAt unendedText unended unendedFront rest := by
  obtain ⟨_, before, rest, errs⟩ := errsAt_of_rejected read_misplacedText none
  obtain ⟨_, beforeEnd, restEnd, errsEnd⟩ := errsAt_of_rejected read_unendedText none
  have isFront := errs.only misplacedFront ⟨_, rfl⟩ (by decide)
  have isFrontEnd := errsEnd.only unendedFront ⟨_, rfl⟩ (by decide)
  refine ⟨⟨read_misplacedText, nofun, rest, ?_⟩, read_unendedText, ⟨_, _, rfl⟩, restEnd, ?_⟩
  · rw [isFront]
    exact errs
  · rw [isFrontEnd]
    exact errsEnd

end Module

end WireModules
