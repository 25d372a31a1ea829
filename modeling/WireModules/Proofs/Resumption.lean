import WireModules.Proofs.Reading
import WireModules.Proofs.Relexing

/-!
# Reading a text up to some place

A machine that reads no further has passed some lexemes and is in some state, at some place of the
text. It comes to the same state at the same place if the text goes on in another way there.
-/

set_option autoImplicit false

namespace WireModules

/-! ## Layout as a gap -/

theorem Gap.comment_cons {char : Char} {layout : List Char} (isGap : Gap ('#' :: layout))
    (other : char ≠ '\n') : Gap ('#' :: char :: layout) := by
  cases isGap with
  | blank blank _ => exact absurd blank (by decide)
  | @comment body rest inside isGap =>
    have within : '\n' ∉ char :: body := by
      simp [inside, Ne.symm other]
    exact .comment within isGap

namespace Layout

/-- Layout is a gap if text comes after it, and else once its last line is ended. -/
theorem gap_of_splitAfter {inComment : Bool} {text closing : List Char}
    (closes : closing = ['\n'] ∨ closing = [] ∧ (splitAfter inComment text).2 ≠ []) :
    Gap (if inComment = true then '#' :: ((splitAfter inComment text).1 ++ closing)
      else (splitAfter inComment text).1 ++ closing) := by
  have feed : Gap ['\n'] := .blank (by decide) .nil
  induction text generalizing inComment with
  | nil =>
    rcases closes with rfl | ⟨_, more⟩
    · cases inComment with
      | true => exact @Gap.comment [] _ (by simp) .nil
      | false => exact feed
    · exact absurd rfl more
  | cons char rest ih =>
    rw [splitAfter] at closes ⊢
    split at closes
    · next within =>
      rw [if_pos within, if_pos within]
      have later := ih closes
      by_cases ends : char = '\n'
      · subst ends
        exact @Gap.comment [] _ (by simp) later
      · rw [decide_eq_true ends, if_pos rfl] at later
        rw [decide_eq_true ends]
        exact later.comment_cons ends
    · next outside =>
      rw [if_neg outside, if_neg outside]
      split at closes
      · next blank =>
        rw [if_pos blank]
        exact .blank blank (ih closes)
      · next solid =>
        rw [if_neg solid]
        split at closes
        · next sign =>
          rw [if_pos sign, sign]
          exact ih closes
        · next other =>
          rw [if_neg other]
          rcases closes with rfl | ⟨rfl, _⟩
          · exact feed
          · exact .nil

theorem gap_of_split {text : List Char} (more : (split text).2 ≠ []) : Gap (split text).1 := by
  have isGap := gap_of_splitAfter (.inr ⟨rfl, more⟩)
  rw [List.append_nil] at isGap
  exact isGap

theorem gap_of_ended {text : List Char} (ended : (split text).2 = []) : Gap (text ++ ['\n']) := by
  have whole := split_append text
  rw [ended, List.append_nil] at whole
  have isGap := @gap_of_splitAfter false text _ (.inl rfl)
  rw [← whole]
  exact isGap

theorem solid_of_split (text : List Char) :
    ∀ next ∈ (split text).2.head?, isBlank next = false ∧ next ≠ '#' := by
  have solid : ∀ inComment, ∀ next ∈ (splitAfter inComment text).2.head?,
      isBlank next = false ∧ next ≠ '#' := by
    induction text with
    | nil => exact fun _ next head => nomatch head
    | cons char rest ih =>
      intro inComment
      rw [splitAfter]
      split
      · exact ih _
      · split
        · exact ih _
        · next solid =>
          split
          · exact ih _
          · next other =>
            intro next head
            cases head
            exact ⟨by simpa using solid, other⟩
  exact solid false

theorem split_replace {text other : List Char} (more : (split text).2 ≠ [])
    (solid : ∀ next ∈ other.head?, isBlank next = false ∧ next ≠ '#') :
    split ((split text).1 ++ other) = ((split text).1, other) :=
  (gap_of_split more).split_append solid

end Layout

/-- Nothing but an early end is wrong with the text that is rejected. -/
def Rejection.AtEnd (rejection : Rejection) : Prop :=
  ∃ position expected, rejection = .earlyEnd position expected

/-- A lexeme where it stands, before another text. -/
def Occurrence.followedBy (occurrence : Occurrence) (rest : List Char) : Occurrence :=
  { occurrence with lexeme := { occurrence.lexeme with rest } }

namespace Machine

open Scan

variable {State Result : Type} {machine : Machine State Result} {result : Result}
  {state last : State} {before text lastBefore lastText other : List Char} {occurrence : Occurrence}
  {occurrences front : List Occurrence}

/-- What a machine consumes of a text up to some place, where it is in its last state. -/
inductive Passes (machine : Machine State Result) (last : State) (lastBefore lastText : List Char) :
    State → List Char → List Char → List Occurrence → Prop where
  | here : Passes machine last lastBefore lastText last lastBefore lastText []
  | lexeme {state : State} {before text : List Char} {occurrence : Occurrence}
      {next : Token → State} {others : List Occurrence} :
      machine.Meets state before text occurrence →
      machine.step state occurrence.terminal = some next →
      Passes machine last lastBefore lastText (next occurrence.token) occurrence.past
        occurrence.lexeme.rest others →
      Passes machine last lastBefore lastText state before text (occurrence :: others)

theorem Passes.reads_iff
    (passes : machine.Passes last lastBefore lastText state before text front) :
    machine.Reads result state before text occurrences ↔
      ∃ later, occurrences = front ++ later ∧
        machine.Reads result last lastBefore lastText later := by
  induction passes generalizing occurrences with
  | here => simp
  | @lexeme _ _ _ occurrence _ others meets stepped _ ih =>
    constructor
    · intro reads
      cases reads with
      | finish ended => exact absurd ended meets.ne_nil
      | lexeme meetsToo steppedToo following =>
        cases meets.unique meetsToo
        cases stepped.symm.trans steppedToo
        obtain ⟨later, rfl, reads⟩ := ih.mp following
        exact ⟨later, rfl, reads⟩
    · intro goesOn
      obtain ⟨later, rfl, reads⟩ := goesOn
      exact .lexeme meets stepped (ih.mpr ⟨later, rfl, reads⟩)

theorem Meets.resumes (meets : machine.Meets state before text occurrence)
    (resumes : Resumes occurrence.lexeme.rest other) :
    machine.Meets state before ((Layout.split text).1 ++ (occurrence.lexeme.text ++ other))
      (occurrence.followedBy other) := by
  have split := Layout.split_replace meets.ne_nil (@Terminal.Fits.solid _ _ other meets.fits)
  constructor
  · rw [split]
    exact meets.placed
  · rw [split]
    exact lexeme?_resumes meets.lexed resumes

/-- The machine comes to the same place in the same state if the text goes on there in another way. -/
theorem Passes.resumes
    (passes : machine.Passes last lastBefore lastText state before text occurrences)
    (resumes : Resumes lastText other) :
    ∃ consumed others, lastBefore = before ++ consumed ∧ text = consumed ++ lastText ∧
      machine.Passes last lastBefore other state before (consumed ++ other) others := by
  induction passes with
  | here => exact ⟨[], [], (List.append_nil _).symm, rfl, .here⟩
  | @lexeme state before text occurrence next _ meets stepped _ ih =>
    obtain ⟨consumed, others, isLast, isRest, passes⟩ := ih
    have own : Resumes occurrence.lexeme.rest (consumed ++ other) := by
      rw [isRest]
      exact resumes.append_left consumed
    -- Behind each lexeme the text begins as before, up to the last place.
    refine ⟨(Layout.split text).1 ++ (occurrence.lexeme.text ++ consumed),
      occurrence.followedBy (consumed ++ other) :: others, ?_, ?_, ?_⟩
    · rw [isLast, Occurrence.past, meets.placed]
      simp only [List.append_assoc]
    · rw [List.append_assoc, List.append_assoc, ← isRest, meets.whole]
    · rw [List.append_assoc, List.append_assoc]
      exact .lexeme (meets.resumes own) stepped passes

/-- The last lexeme that is passed is met at a place that is passed before. -/
theorem Passes.exists_meets
    (passes : machine.Passes last lastBefore lastText state before text (front ++ [occurrence])) :
    ∃ own ownBefore ownText next, machine.Passes own ownBefore ownText state before text front ∧
      machine.Meets own ownBefore ownText occurrence ∧
      machine.step own occurrence.terminal = some next ∧ lastText = occurrence.lexeme.rest := by
  induction front generalizing state before text with
  | nil =>
    cases passes with
    | lexeme meets stepped later =>
      cases later
      exact ⟨_, _, _, _, .here, meets, stepped, rfl⟩
  | cons first front ih =>
    cases passes with
    | lexeme meets stepped later =>
      obtain ⟨own, ownBefore, ownText, next, passes, rest⟩ := ih later
      exact ⟨own, ownBefore, ownText, next, .lexeme meets stepped passes, rest⟩

theorem Passes.append
    (passes : machine.Passes last lastBefore lastText state before text occurrences) :
    lastBefore ++ lastText = before ++ text := by
  induction passes with
  | here => rfl
  | @lexeme _ before text occurrence _ _ meets _ _ ih =>
    rw [ih, Occurrence.past, meets.placed, List.append_assoc, List.append_assoc, meets.whole]

/-! ## Where a machine reads no further -/

/-- Why a machine reads no further in a state: the text has ended too early, or nothing that is looked
for is found, or what is found may not follow. -/
inductive Halts (machine : Machine State Result) (whole : List Char) (state : State)
    (previous : Option Token) (before text : List Char) : Rejection → Prop where
  | ended : (Layout.split text).2 = [] → machine.finish? state = none →
      Halts machine whole state previous before text
        (.earlyEnd (previous.elim Position.start Token.position) (machine.expected state))
  | unmatched {char : Char} {rest : List Char} : (Layout.split text).2 = char :: rest →
      lexeme? (machine.scanned state) (char :: rest) = none →
      Halts machine whole state previous before text
        (machine.reject whole state previous
          (Position.start.advance (before ++ (Layout.split text).1)) char (char :: rest))
  | refused {occurrence : Occurrence} : machine.Meets state before text occurrence →
      machine.step state occurrence.terminal = none →
      Halts machine whole state previous before text
        (.misplacedToken occurrence.token (machine.expected (machine.settle state)))

/-- A machine that rejects a text has passed some lexemes, the last of which is the previous one, and
reads no further. -/
theorem Passes.of_runFrom {whole : List Char} {previous : Option Token} {position : Position}
    {rejection : Rejection} (here : position = Position.start.advance before)
    (ran : machine.runFrom whole state previous position text = .error rejection) :
    ∃ last lastBefore lastText occurrences,
      machine.Passes last lastBefore lastText state before text occurrences ∧
        machine.Halts whole last ((occurrences.getLast?.map Occurrence.token).or previous) lastBefore
          lastText rejection := by
  fun_induction runFrom machine whole state previous position text generalizing before with
  | case1 => cases ran
  | case2 state previous position text layout split missing =>
    cases ran
    exact ⟨state, before, text, [], .here, .ended (by rw [split]) missing⟩
  | case3 state previous position text layout char rest split place =>
    next missing =>
    cases ran
    refine ⟨state, before, text, [], .here, ?_⟩
    have tail : (Layout.split text).2 = char :: rest := by rw [split]
    have halts : machine.Halts whole state previous before text _ := .unmatched tail missing
    rw [split, Position.advance_append, ← here] at halts
    exact halts
  | case4 state previous position text layout char rest split place lexeme lexed token next stepped =>
    next ih =>
    let occurrence : Occurrence := ⟨before ++ layout, lexeme⟩
    have isToken : token = occurrence.token := by
      rw [← Occurrence.tokenAt_advance, ← here]
    have past : token.past = Position.start.advance occurrence.past := by
      rw [isToken, Occurrence.token_past]
    obtain ⟨last, lastBefore, lastText, others, passes, halts⟩ := ih past ran
    have isPrevious : (others.getLast?.map Occurrence.token).or (some token) =
        ((occurrence :: others).getLast?.map Occurrence.token).or previous := by
      rw [List.getLast?_cons, isToken]
      cases others.getLast? <;> rfl
    rw [isPrevious] at halts
    refine ⟨last, lastBefore, lastText, occurrence :: others, ?_, halts⟩
    refine .lexeme ⟨by rw [split], by rw [split]; exact lexed⟩ stepped ?_
    rw [← isToken]
    exact passes
  | case5 state previous position text layout char rest split place lexeme lexed token =>
    next missing =>
    cases ran
    refine ⟨state, before, text, [], .here, ?_⟩
    have meets : machine.Meets state before text ⟨before ++ layout, lexeme⟩ :=
      ⟨by rw [split], by rw [split]; exact lexed⟩
    have halts : machine.Halts whole state previous before text _ := .refused meets missing
    rw [← Occurrence.tokenAt_advance, ← here] at halts
    exact halts

theorem exists_passes_of_run {rejection : Rejection} (ran : machine.run text = .error rejection) :
    ∃ last lastBefore lastText occurrences,
      machine.Passes last lastBefore lastText machine.start [] text occurrences ∧
        machine.Halts text last (occurrences.getLast?.map Occurrence.token) lastBefore lastText
          rejection := by
  have here : Position.start = Position.start.advance [] := rfl
  obtain ⟨last, lastBefore, lastText, occurrences, passes, halts⟩ := Passes.of_runFrom here ran
  rw [Option.or_none] at halts
  exact ⟨last, lastBefore, lastText, occurrences, passes, halts⟩

/-- Nothing that may follow in a state is found at the start of a text. -/
def Refuses (machine : Machine State Result) (state : State) (text : List Char) : Prop :=
  ∀ lexeme, lexeme? (machine.scanned state) text = some lexeme →
    machine.step state lexeme.terminal = none

theorem Refuses.not_reads (refuses : machine.Refuses state (Layout.split text).2)
    (more : (Layout.split text).2 ≠ []) (result : Result) (occurrences : List Occurrence) :
    ¬machine.Reads result state before text occurrences := by
  intro reads
  cases reads with
  | finish ended => exact more ended
  | lexeme meets stepped _ => cases stepped.symm.trans (refuses _ meets.lexed)

theorem mem_alsoScanned {lexeme : Lexeme} (found : lexeme? (machine.scanned state) text = some lexeme)
    (refused : machine.step state lexeme.terminal = none) :
    lexeme.terminal ∈ machine.alsoScanned state := by
  have looked := (List.mem_filter.mp (terminal_of_lexeme? found)).2
  simpa [accepts, refused] using looked

theorem reject_position (whole : List Char) (previous : Option Token) (position : Position)
    (char : Char) : (machine.reject whole state previous position char text).position = position := by
  unfold reject
  split <;> rfl

theorem not_atEnd_reject (whole : List Char) (previous : Option Token) (position : Position)
    (char : Char) : ¬(machine.reject whole state previous position char text).AtEnd := by
  intro atEnd
  obtain ⟨_, _, same⟩ := atEnd
  unfold reject at same
  split at same <;> cases same

section Halts

variable {whole : List Char} {previous : Option Token} {rejection : Rejection}

theorem Halts.of_atEnd (halts : machine.Halts whole state previous before text rejection)
    (atEnd : rejection.AtEnd) :
    (Layout.split text).2 = [] ∧ rejection.position = previous.elim Position.start Token.position := by
  cases halts with
  | ended none _ => exact ⟨none, rfl⟩
  | unmatched => exact absurd atEnd (not_atEnd_reject _ _ _ _)
  | refused =>
    obtain ⟨_, _, same⟩ := atEnd
    cases same

theorem Halts.of_not_atEnd (halts : machine.Halts whole state previous before text rejection)
    (within : ¬rejection.AtEnd) :
    (Layout.split text).2 ≠ [] ∧
      rejection.position = Position.start.advance (before ++ (Layout.split text).1) ∧
      machine.Refuses state (Layout.split text).2 := by
  cases halts with
  | ended => exact absurd ⟨_, _, rfl⟩ within
  | unmatched split missing =>
    rw [split]
    refine ⟨by simp, reject_position _ _ _ _, fun lexeme found => ?_⟩
    cases missing.symm.trans found
  | refused meets refused =>
    refine ⟨meets.ne_nil, ?_, fun lexeme found => ?_⟩
    · rw [← meets.placed]
      rfl
    · cases meets.lexed.symm.trans found
      exact refused

end Halts

end Machine

end WireModules
