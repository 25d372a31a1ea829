import WireModules.Grammar.Layout
import WireModules.Proofs.Lexing

/-!
# Words and what stands between them

A text of words has gaps of layout before, between and after them; two words that would run into
one another are kept apart by a gap that is not empty.
-/

set_option autoImplicit false

namespace WireModules

/-- A lexeme without its place. -/
structure Word where
  terminal : Terminal
  text : List Char
deriving DecidableEq

/-- The terminals that are spelled in one way and do not begin another terminal. -/
def Terminal.isFixed (terminal : Terminal) : Bool :=
  (terminal.keyword?.or terminal.sign?).isSome && terminal ≠ .colon

namespace Word

/-- The word of a terminal that is spelled in one way. -/
def ofTerminal (terminal : Terminal) : Word :=
  ⟨terminal, terminal.spellings.headD []⟩

def name (text : String) : Word :=
  ⟨.name, text.toList⟩

def integer (literal : String) : Word :=
  ⟨.integer, literal.toList⟩

theorem fits_ofTerminal {terminal : Terminal} (spelled : terminal.spellings ≠ []) :
    terminal.Fits (ofTerminal terminal).text := by
  cases terminal <;> first | exact absurd rfl spelled | exact List.mem_cons_self

end Word

/-- Text that may stand between words: blanks, and comments with the ends of their lines. -/
inductive Gap : List Char → Prop where
  | nil : Gap []
  | blank {char : Char} {rest : List Char} : Layout.isBlank char = true → Gap rest →
      Gap (char :: rest)
  | comment {body rest : List Char} : '\n' ∉ body → Gap rest → Gap ('#' :: body ++ '\n' :: rest)

/-- A text of some words with gaps before, between and after them. The first flag tells that the
text comes after a word that has to be kept apart from another. -/
inductive Spaced : Bool → List Word → List Char → Prop where
  | done {after : Bool} {gap : List Char} : Gap gap → Spaced after [] gap
  | word {after : Bool} {word : Word} {words : List Word} {gap rest : List Char} : Gap gap →
      (after = true → word.terminal.isWord = true → gap ≠ []) →
      Spaced word.terminal.isWord words rest → Spaced after (word :: words) (gap ++ word.text ++ rest)

theorem Layout.splitAfter_comment {body rest : List Char} (inside : '\n' ∉ body) :
    splitAfter true (body ++ '\n' :: rest) =
      (body ++ '\n' :: (splitAfter false rest).1, (splitAfter false rest).2) := by
  induction body with
  | nil => rfl
  | cons char others ih =>
    obtain ⟨other, later⟩ := not_or.mp (mt List.mem_cons.mpr inside)
    have stays : decide (char ≠ '\n') = true := decide_eq_true (Ne.symm other)
    rw [List.cons_append, splitAfter, if_pos rfl, stays, ih later]
    rfl

/-- A gap is what layout is split off before a word. -/
theorem Gap.split_append {gap rest : List Char} (isGap : Gap gap)
    (starts : ∀ next ∈ rest.head?, Layout.isBlank next = false ∧ next ≠ '#') :
    Layout.split (gap ++ rest) = (gap, rest) := by
  rw [Layout.split]
  induction isGap with
  | nil =>
    cases rest with
    | nil => rfl
    | cons char others =>
      obtain ⟨solid, other⟩ := starts char rfl
      simp [Layout.splitAfter, solid, other]
  | @blank char others blank _ ih => simp [Layout.splitAfter, blank, ih]
  | @comment body others inside _ ih =>
    have sign : Layout.isBlank '#' = false := by decide
    rw [List.append_assoc, List.cons_append, List.cons_append, Layout.splitAfter]
    simp [sign, Layout.splitAfter_comment inside, ih]

theorem isNamePart_of_isBlank {char : Char} (blank : Layout.isBlank char = true) :
    Scan.isNamePart char = false := by
  simp only [Layout.isBlank, Bool.or_eq_true, decide_eq_true_eq] at blank
  rcases blank with (((rfl | rfl) | rfl) | rfl) | rfl <;> decide

theorem solid_of_isNamePart {char : Char} (part : Scan.isNamePart char = true) :
    Layout.isBlank char = false ∧ char ≠ '#' := by
  constructor
  · cases blank : Layout.isBlank char with
    | false => rfl
    | true =>
      rw [isNamePart_of_isBlank blank] at part
      cases part
  · rintro rfl
    revert part
    decide

theorem Gap.stops {gap rest : List Char} (isGap : Gap gap) (nonempty : gap ≠ []) :
    Scan.Stops (gap ++ rest) := by
  intro next head
  cases isGap with
  | nil => exact absurd rfl nonempty
  | @blank char others blank _ =>
    cases head
    exact isNamePart_of_isBlank blank
  | comment inside _ =>
    cases head
    decide

/-- What a word begins with is no layout. -/
theorem Terminal.Fits.solid {terminal : Terminal} {word rest : List Char}
    (fits : terminal.Fits word) :
    ∀ next ∈ (word ++ rest).head?, Layout.isBlank next = false ∧ next ≠ '#' := by
  have spelled : word ∈ terminal.spellings →
      ∀ next ∈ (word ++ rest).head?, Layout.isBlank next = false ∧ next ≠ '#' := by
    intro member next head
    have table : ∀ word ∈ terminal.spellings, (word.head?.any fun char =>
        !Layout.isBlank char && char != '#') = true := by
      cases terminal <;> decide +kernel
    obtain ⟨char, first, checked⟩ := (Option.any_eq_true _ _).mp (table word member)
    rw [List.head?_append, first, Option.some_or] at head
    cases head
    simpa using checked
  have begins : ∀ {digits : List Char}, Scan.isNatural digits = true →
      ∀ next ∈ (digits ++ rest).head?, Layout.isBlank next = false ∧ next ≠ '#' := by
    intro digits natural next head
    cases digits with
    | nil => cases natural
    | cons first others =>
      cases head
      simp only [Scan.isNatural, List.all_cons, Bool.and_eq_true] at natural
      exact solid_of_isNamePart (Scan.isNamePart_of_isDigit natural.2.1)
  cases terminal with
  | name =>
    intro next head
    cases word with
    | nil => cases fits
    | cons first others =>
      cases head
      have start : Scan.isName (next :: others) = true := fits
      simp only [Scan.isName, Bool.and_eq_true] at start
      exact solid_of_isNamePart (by simp [Scan.isNamePart, start.1])
  | integer =>
    have number : Scan.isInteger word = true := fits
    unfold Scan.isInteger at number
    split at number
    · intro next head
      cases head
      decide
    · exact begins number
  | natural => exact begins fits
  | _ => exact spelled fits

theorem Scan.Stops.append {text rest : List Char} (stops : Stops text) (stopsThen : Stops rest) :
    Stops (text ++ rest) := by
  cases text with
  | nil => exact stopsThen
  | cons first others => exact stops

theorem stops_of_sign {terminal : Terminal} {word rest : List Char} (fits : terminal.Fits word)
    (sign : terminal.isWord = false) : Scan.Stops (word ++ rest) := by
  have member : word ∈ terminal.spellings := by
    cases terminal <;> first | exact fits | cases sign
  obtain ⟨char, first, digit, _, start⟩ := Terminal.head_of_spelling member
  intro next head
  rw [List.head?_append, first, Option.some_or] at head
  cases head
  rw [Scan.isNamePart, start, sign, digit]
  rfl

/-- After a word that has to be kept apart the text does not go on with a word. -/
theorem Spaced.stops {words : List Word} {text : List Char} (spaced : Spaced true words text)
    (fit : ∀ word ∈ words, word.terminal.Fits word.text) : Scan.Stops text := by
  cases spaced with
  | done isGap =>
    intro next head
    cases isGap with
    | nil => cases head
    | blank blank _ =>
      cases head
      exact isNamePart_of_isBlank blank
    | comment inside _ =>
      cases head
      decide
  | @word _ word words gap rest isGap apart following =>
    rw [List.append_assoc]
    by_cases empty : gap = []
    · have sign : word.terminal.isWord = false := by
        cases isWord : word.terminal.isWord with
        | false => rfl
        | true => exact absurd empty (apart rfl isWord)
      rw [empty, List.nil_append]
      exact stops_of_sign (fit word (.head _)) sign
    · exact isGap.stops empty

/-! ## Texts one after the other -/

theorem Gap.append {first second : List Char} (isGap : Gap first) (isGapToo : Gap second) :
    Gap (first ++ second) := by
  induction isGap with
  | nil => exact isGapToo
  | blank blank _ ih => exact .blank blank ih
  | comment inside _ ih =>
    rw [List.append_assoc, List.cons_append]
    exact .comment inside ih

namespace Spaced

variable {after : Bool} {word : Word} {words more : List Word} {gap text rest : List Char}

theorem append_left (spaced : Spaced after words text) (isGap : Gap gap) :
    Spaced after words (gap ++ text) := by
  cases spaced with
  | done isGapToo => exact .done (isGap.append isGapToo)
  | word isGapToo apart following =>
    rw [← List.append_assoc, ← List.append_assoc]
    refine .word (isGap.append isGapToo) (fun isAfter isWord empty => ?_) following
    exact apart isAfter isWord (List.append_eq_nil_iff.mp empty).2

theorem weaken (spaced : Spaced true words text) (after : Bool) : Spaced after words text := by
  cases spaced with
  | done isGap => exact .done isGap
  | word isGap apart following => exact .word isGap (fun _ => apart rfl) following

/-- Nothing need stand before a sign. -/
theorem sign (isSign : word.terminal.isWord = false) (spaced : Spaced false words text) :
    Spaced after (word :: words) (word.text ++ text) := by
  have following : Spaced word.terminal.isWord words text := isSign ▸ spaced
  refine .word .nil (fun _ isWord => ?_) following
  cases isSign.symm.trans isWord

theorem of_sign (isSign : word.terminal.isWord = false) (spaced : Spaced false (word :: words) text) :
    Spaced after (word :: words) text := by
  cases spaced with
  | word isGap _ following =>
    refine .word isGap (fun _ isWord => ?_) following
    cases isSign.symm.trans isWord

/-- Whether words end in one that has to be kept apart; the flag tells it of what is before them. -/
def sticks (after : Bool) (words : List Word) : Bool :=
  words.foldl (fun _ word => word.terminal.isWord) after

theorem append (spaced : Spaced after words text) (later : Spaced (sticks after words) more rest) :
    Spaced after (words ++ more) (text ++ rest) := by
  induction spaced with
  | done isGap => exact later.append_left isGap
  | word isGap apart _ ih =>
    rw [List.append_assoc]
    exact .word isGap apart (ih later)

theorem append_weaken (spaced : Spaced after words text) (later : Spaced true more rest) :
    Spaced after (words ++ more) (text ++ rest) :=
  spaced.append (later.weaken _)

end Spaced

end WireModules
