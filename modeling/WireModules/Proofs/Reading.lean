import Mathlib.Data.List.Basic
import WireModules.Proofs.MachineRun

/-!
# The lexemes that a machine consumes

A reading lists the lexemes of a text in order, each with what stands before it. A machine accepts
a text exactly if there is a reading of it, and there is one reading at most.
-/

set_option autoImplicit false

namespace WireModules

/-- A lexeme where it stands in a text. -/
structure Occurrence where
  before : List Char
  lexeme : Lexeme
deriving DecidableEq

namespace Occurrence

def terminal (occurrence : Occurrence) : Terminal :=
  occurrence.lexeme.terminal

/-- The text up to the end of the lexeme. -/
def past (occurrence : Occurrence) : List Char :=
  occurrence.before ++ occurrence.lexeme.text

def token (occurrence : Occurrence) : Token :=
  Machine.tokenAt (Position.start.advance occurrence.before) occurrence.lexeme

theorem token_past (occurrence : Occurrence) :
    occurrence.token.past = Position.start.advance occurrence.past := by
  rw [past, Position.advance_append]
  rfl

theorem tokenAt_advance (before layout : List Char) (lexeme : Lexeme) :
    Machine.tokenAt ((Position.start.advance before).advance layout) lexeme =
      token ⟨before ++ layout, lexeme⟩ := by
  rw [token, Position.advance_append]

/-- Nothing stands between two lexemes. -/
def Touches (first second : Occurrence) : Prop :=
  second.before = first.past

def StartsApart (occurrence : Occurrence) : Prop :=
  ∀ last ∈ occurrence.before.getLast?, Scan.isNamePart last = false

def EndsApart (occurrence : Occurrence) : Prop :=
  Scan.Stops occurrence.lexeme.rest

/-- Neither before nor after the lexeme stands a letter, a digit or an underscore. -/
def IsWhole (occurrence : Occurrence) : Prop :=
  occurrence.StartsApart ∧ occurrence.EndsApart

end Occurrence

namespace Layout

theorem eq_nil_of_splitAfter {text : List Char} (ended : (splitAfter true text).1 = []) :
    text = [] := by
  cases text with
  | nil => rfl
  | cons char rest => cases ended

/-- Layout that text comes after ends with a blank: a comment goes on to the end of its line. -/
theorem isBlank_of_getLast? {inComment : Bool} {text : List Char}
    (followed : (splitAfter inComment text).2 ≠ []) :
    ∀ last ∈ (splitAfter inComment text).1.getLast?, isBlank last = true := by
  induction text generalizing inComment with
  | nil => exact absurd rfl followed
  | cons char rest ih =>
    have ends : ∀ {flag : Bool}, (splitAfter flag rest).2 ≠ [] →
        ((splitAfter flag rest).1 = [] → isBlank char = true) →
        ∀ last ∈ (char :: (splitAfter flag rest).1).getLast?, isBlank last = true := by
      intro flag later alone last isLast
      rw [List.getLast?_cons] at isLast
      cases isLast
      cases none : (splitAfter flag rest).1.getLast? with
      | none => exact alone (List.getLast?_eq_none_iff.mp none)
      | some last => exact ih later last none
    rw [splitAfter] at followed ⊢
    split at followed
    · next within =>
      rw [if_pos within]
      refine ends followed fun ended => ?_
      by_cases feed : char = '\n'
      · subst feed
        decide
      · rw [decide_eq_true feed] at ended followed
        rw [eq_nil_of_splitAfter ended] at followed
        exact absurd rfl followed
    · next outside =>
      rw [if_neg outside]
      split at followed
      · next blank =>
        rw [if_pos blank]
        exact ends followed fun _ => blank
      · next solid =>
        rw [if_neg solid]
        split at followed
        · next sign =>
          rw [if_pos sign]
          refine ends followed fun ended => ?_
          rw [eq_nil_of_splitAfter ended] at followed
          exact absurd rfl followed
        · next other =>
          rw [if_neg other]
          intro last isLast
          cases isLast

end Layout

theorem exists_of_not_stops {text : List Char} (goesOn : ¬ Scan.Stops text) :
    ∃ char rest, text = char :: rest ∧ Scan.isNamePart char = true := by
  cases text with
  | nil => exact absurd nofun goesOn
  | cons char rest =>
    refine ⟨char, rest, rfl, ?_⟩
    cases part : Scan.isNamePart char with
    | true => rfl
    | false =>
      refine absurd ?_ goesOn
      rintro next ⟨⟩
      exact part

theorem isNamePart_of_getLast?_sign {terminal : Terminal} {word before : List Char}
    (fits : terminal.Fits word) (sign : terminal.isWord = false) :
    ∀ last ∈ (before ++ word).getLast?, Scan.isNamePart last = false := by
  have member : word ∈ terminal.spellings := by
    cases terminal <;> first | exact fits | cases sign
  have table : ∀ word ∈ terminal.spellings,
      (word.getLast?.any fun char => !Scan.isNamePart char) = true := by
    cases terminal <;> first | decide +kernel | cases sign
  obtain ⟨char, ends, checked⟩ := (Option.any_eq_true _ _).mp (table word member)
  intro last isLast
  rw [List.getLast?_append, ends, Option.some_or] at isLast
  cases isLast
  simpa using checked

namespace Machine

variable {State Result : Type} {machine : Machine State Result} {result : Result} {state : State}
  {before text : List Char} {occurrence : Occurrence} {occurrences : List Occurrence}

/-- In a state, after some text, a lexeme comes next, behind layout. -/
structure Meets (machine : Machine State Result) (state : State) (before text : List Char)
    (occurrence : Occurrence) : Prop where
  placed : occurrence.before = before ++ (Layout.split text).1
  lexed : Scan.lexeme? (machine.scanned state) (Layout.split text).2 = some occurrence.lexeme

/-- What a machine consumes of a text, from a state in which it has come after some text. -/
inductive Reads (machine : Machine State Result) (result : Result) :
    State → List Char → List Char → List Occurrence → Prop where
  | finish {state : State} {before text : List Char} : (Layout.split text).2 = [] →
      machine.finish? state = some result → Reads machine result state before text []
  | lexeme {state : State} {before text : List Char} {occurrence : Occurrence}
      {next : Token → State} {others : List Occurrence} :
      machine.Meets state before text occurrence →
      machine.step state occurrence.terminal = some next →
      Reads machine result (next occurrence.token) occurrence.past occurrence.lexeme.rest others →
      Reads machine result state before text (occurrence :: others)

theorem Meets.unique {first second : Occurrence} (meetsFirst : machine.Meets state before text first)
    (meetsSecond : machine.Meets state before text second) : first = second := by
  obtain ⟨placed, lexed⟩ := meetsFirst
  obtain ⟨placedToo, lexedToo⟩ := meetsSecond
  rw [lexed] at lexedToo
  cases first
  cases second
  simp_all

theorem Meets.ne_nil (meets : machine.Meets state before text occurrence) :
    (Layout.split text).2 ≠ [] := by
  have shorter := Scan.length_of_lexeme? meets.lexed
  exact List.ne_nil_of_length_pos (Nat.zero_lt_of_lt shorter)

theorem Meets.fits (meets : machine.Meets state before text occurrence) :
    occurrence.terminal.Fits occurrence.lexeme.text :=
  (Scan.lexeme?_sound meets.lexed).1

theorem Meets.whole (meets : machine.Meets state before text occurrence) :
    (Layout.split text).1 ++ (occurrence.lexeme.text ++ occurrence.lexeme.rest) = text := by
  rw [← (Scan.lexeme?_sound meets.lexed).2, Layout.split_append]

theorem Reads.unique (reads : machine.Reads result state before text occurrences)
    {other : Result} {others : List Occurrence}
    (readsToo : machine.Reads other state before text others) :
    occurrences = others ∧ result = other := by
  induction reads generalizing others with
  | finish ended finished =>
    cases readsToo with
    | finish _ finishedToo => exact ⟨rfl, Option.some.inj (finished.symm.trans finishedToo)⟩
    | lexeme meets => exact absurd ended meets.ne_nil
  | lexeme meets stepped _ ih =>
    cases readsToo with
    | finish ended => exact absurd ended meets.ne_nil
    | lexeme meetsToo steppedToo later =>
      cases meets.unique meetsToo
      cases stepped.symm.trans steppedToo
      obtain ⟨rfl, same⟩ := ih later
      exact ⟨rfl, same⟩

theorem Reads.of_runFrom {whole : List Char} {previous : Option Token} {position : Position}
    (here : position = Position.start.advance before)
    (ran : machine.runFrom whole state previous position text = .ok result) :
    ∃ occurrences, machine.Reads result state before text occurrences := by
  fun_induction runFrom machine whole state previous position text generalizing before with
  | case1 state previous position text layout split finished found =>
    cases ran
    exact ⟨[], .finish (by rw [split]) found⟩
  | case2 => cases ran
  | case3 => cases ran
  | case4 state previous position text layout char rest split place lexeme lexed token next stepped =>
    next ih =>
    let occurrence : Occurrence := ⟨before ++ layout, lexeme⟩
    have isToken : token = occurrence.token := by
      rw [← Occurrence.tokenAt_advance, ← here]
    have past : token.past = Position.start.advance occurrence.past := by
      rw [isToken, Occurrence.token_past]
    obtain ⟨others, later⟩ := ih past ran
    refine ⟨occurrence :: others, .lexeme ⟨by rw [split], by rw [split]; exact lexed⟩ stepped ?_⟩
    rw [← isToken]
    exact later
  | case5 => cases ran

theorem Reads.runFrom (reads : machine.Reads result state before text occurrences)
    (whole : List Char) (previous : Option Token) :
    machine.runFrom whole state previous (Position.start.advance before) text = .ok result := by
  induction reads generalizing previous with
  | @finish state before text ended finished =>
    rw [Machine.runFrom]
    split
    · rw [finished]
    · next layout char rest same =>
      rw [same] at ended
      cases ended
  | @lexeme state before text occurrence next others meets stepped _ ih =>
    obtain ⟨placed, lexed⟩ := meets
    have token : tokenAt ((Position.start.advance before).advance (Layout.split text).1)
        occurrence.lexeme = occurrence.token := by
      rw [Occurrence.tokenAt_advance, ← placed]
    rw [Machine.runFrom]
    split
    · next layout same =>
      rw [same] at lexed
      have shorter := Scan.length_of_lexeme? lexed
      cases shorter
    · next layout char rest same =>
      rw [same] at lexed token
      dsimp only
      split
      · next missing =>
        rw [lexed] at missing
        cases missing
      · next lexeme found =>
        rw [lexed] at found
        cases found
        split
        · next steppedToo =>
          rw [token] at steppedToo ⊢
          cases stepped.symm.trans steppedToo
          rw [Occurrence.token_past]
          exact ih _
        · next refused => cases stepped.symm.trans refused

/-- A machine accepts exactly the texts that have a reading. -/
theorem run_eq_ok_iff {text : List Char} :
    machine.run text = .ok result ↔
      ∃ occurrences, machine.Reads result machine.start [] text occurrences :=
  ⟨Reads.of_runFrom rfl, fun ⟨_, reads⟩ => reads.runFrom text none⟩

/-! ## Neighbours -/

theorem Reads.fits (reads : machine.Reads result state before text occurrences) :
    ∀ occurrence ∈ occurrences, occurrence.terminal.Fits occurrence.lexeme.text := by
  induction reads with
  | finish => simp
  | lexeme meets _ _ ih => exact List.forall_mem_cons.mpr ⟨meets.fits, ih⟩

theorem Reads.drop {front others : List Occurrence}
    (reads : machine.Reads result state before text (front ++ others)) :
    ∃ own past rest, machine.Reads result own past rest others := by
  induction front generalizing state before text with
  | nil => exact ⟨state, before, text, reads⟩
  | cons first front ih =>
    cases reads with
    | lexeme _ _ later => exact ih later

/-- A lexeme is met in the state that the lexeme before it leads to. -/
theorem Reads.follows (reads : machine.Reads result state before text occurrences)
    {first second : Occurrence} (adjacent : [first, second] <:+: occurrences) :
    ∃ left next after, machine.step left first.terminal = some next ∧
      machine.Meets (next first.token) first.past first.lexeme.rest second ∧
      machine.step (next first.token) second.terminal = some after := by
  obtain ⟨front, back, rfl⟩ := adjacent
  rw [List.append_assoc] at reads
  obtain ⟨left, past, rest, reads⟩ := reads.drop
  cases reads with
  | lexeme _ stepped later =>
    cases later with
    | lexeme meets steppedToo _ => exact ⟨left, _, _, stepped, meets, steppedToo⟩

/-- Right before a lexeme stands a blank or the text consumed earlier. -/
theorem Meets.startsApart (meets : machine.Meets state before text occurrence)
    (apart : ∀ last ∈ before.getLast?, Scan.isNamePart last = false) : occurrence.StartsApart := by
  intro last isLast
  rw [meets.placed, List.getLast?_append] at isLast
  rcases Option.or_eq_some_iff.mp isLast with inLayout | ⟨_, earlier⟩
  · exact isNamePart_of_isBlank (Layout.isBlank_of_getLast? meets.ne_nil last inLayout)
  · exact apart last earlier

theorem Meets.touches {first : Occurrence}
    (meets : machine.Meets state first.past text occurrence) :
    occurrence.StartsApart ∨ first.Touches occurrence := by
  by_cases empty : (Layout.split text).1 = []
  · right
    rw [Occurrence.Touches, meets.placed, empty, List.append_nil]
  · left
    intro last isLast
    have ends := List.getLast?_eq_some_getLast empty
    rw [meets.placed, List.getLast?_append, ends] at isLast
    cases isLast
    exact isNamePart_of_isBlank (Layout.isBlank_of_getLast? meets.ne_nil _ ends)

/-- The lexeme before one that does not start apart touches it, and is a word. -/
theorem Reads.startsApart_or (reads : machine.Reads result state [] text occurrences)
    (member : occurrence ∈ occurrences) :
    occurrence.StartsApart ∨ ∃ previous, [previous, occurrence] <:+: occurrences ∧
      previous.Touches occurrence ∧ previous.terminal.isWord = true := by
  obtain ⟨front, back, rfl⟩ := List.append_of_mem member
  rcases List.eq_nil_or_concat' front with rfl | ⟨front, previous, rfl⟩
  · cases reads with
    | lexeme meets => exact .inl (meets.startsApart (by simp))
  · have adjacent : [previous, occurrence] <:+: front ++ [previous] ++ occurrence :: back :=
      ⟨front, back, by simp⟩
    obtain ⟨left, next, after, stepped, meets, _⟩ := reads.follows adjacent
    rcases meets.touches with apart | touches
    · exact .inl apart
    · cases isWord : previous.terminal.isWord with
      | true => exact .inr ⟨previous, adjacent, touches, isWord⟩
      | false =>
        left
        rw [Occurrence.StartsApart, touches]
        exact isNamePart_of_getLast?_sign (reads.fits previous (by simp)) isWord

/-- The lexeme after one that does not end apart touches it, and is a word. -/
theorem Reads.endsApart_or (reads : machine.Reads result state before text occurrences)
    (member : occurrence ∈ occurrences) :
    occurrence.EndsApart ∨ ∃ following, [occurrence, following] <:+: occurrences ∧
      occurrence.Touches following ∧ following.terminal.isWord = true := by
  by_cases apart : occurrence.EndsApart
  · exact .inl apart
  right
  obtain ⟨char, rest, same, part⟩ := exists_of_not_stops apart
  have solid := solid_of_isNamePart part
  obtain ⟨front, back, rfl⟩ := List.append_of_mem member
  have split : Layout.split (char :: rest) = ([], char :: rest) := by
    simp [Layout.split, Layout.splitAfter, solid]
  obtain ⟨_, _, _, own⟩ := reads.drop
  cases own with
  | lexeme _ _ later =>
    rw [same] at later
    cases later with
    | finish ended =>
      rw [split] at ended
      cases ended
    | @lexeme _ _ _ following _ others meets _ _ =>
      refine ⟨following, ⟨front, others, by simp⟩, ?_, ?_⟩
      · rw [Occurrence.Touches, meets.placed, split, List.append_nil]
      · cases isWord : following.terminal.isWord with
        | true => rfl
        | false =>
          have whole := (Scan.lexeme?_sound meets.lexed).2
          rw [split] at whole
          have stops : Scan.Stops (following.lexeme.text ++ following.lexeme.rest) :=
            stops_of_sign meets.fits isWord
          rw [← whole] at stops
          cases part.symm.trans (stops char rfl)

end Machine

end WireModules
