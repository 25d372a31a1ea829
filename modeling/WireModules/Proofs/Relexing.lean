import WireModules.Proofs.Spacing

/-!
# Scanning a text that goes on in another way

A lexeme is found again if the text behind it is replaced by one that begins with the same character
or with a blank. Where nothing is found, nothing is found either if the text is cut off by a blank.
-/

set_option autoImplicit false

namespace WireModules

/-! ## The terminal that decides -/

namespace Terminal

variable {terminal : Terminal}

theorem earlier_inOrder :
    inOrder.Pairwise fun first second => second ∉ first.earlier := by
  decide +kernel

theorem mem_inOrder (terminal : Terminal) : terminal ∈ inOrder := by
  cases terminal <;> decide

theorem not_mem_earlier_self (terminal : Terminal) : terminal ∉ terminal.earlier := by
  cases terminal <;> decide

end Terminal

namespace Scan

open Terminal

variable {terminals : List Terminal} {terminal : Terminal} {word rest other text : List Char}
  {lexeme : Lexeme}

theorem lexeme?_eq_none_iff :
    lexeme? terminals text = none ↔ ∀ terminal ∈ terminals, terminal.match? text = none := by
  rw [lexeme?, List.findSome?_eq_none_iff]
  simp only [Option.map_eq_none_iff, List.mem_filter, List.contains_iff_mem]
  exact ⟨fun none terminal looked => none terminal ⟨mem_inOrder terminal, looked⟩,
    fun none terminal looked => none terminal looked.2⟩

/-- What is found is decided by a terminal before which no other one matches. -/
theorem first_of_lexeme? (found : lexeme? terminals text = some lexeme) :
    ∃ first ∈ terminals, first.match? text = some (lexeme.text, lexeme.rest) ∧
      lexeme.terminal = (if first = name then classify terminals lexeme.text else first) ∧
      ∀ other ∈ first.earlier, other ∈ terminals → other.match? text = none := by
  obtain ⟨before, first, after, split, matched, none⟩ := List.findSome?_eq_some_iff.mp found
  obtain ⟨⟨word, rest⟩, matchedHere, same⟩ := Option.map_eq_some_iff.mp matched
  cases same
  have looked : first ∈ inOrder.filter (terminals.contains ·) := by
    rw [split]
    exact List.mem_append_right _ (.head _)
  refine ⟨first, List.contains_iff_mem.mp (List.mem_filter.mp looked).2, matchedHere, rfl, ?_⟩
  intro other tried contained
  have listed : other ∈ before ++ first :: after := by
    rw [← split]
    exact List.mem_filter.mpr ⟨mem_inOrder other, List.contains_iff_mem.mpr contained⟩
  -- What comes after the first one is not tried before it.
  have ordered := earlier_inOrder.filter (terminals.contains ·)
  rw [split] at ordered
  rcases List.mem_append.mp listed with earlier | later
  · exact Option.map_eq_none_iff.mp (none other earlier)
  · rcases List.mem_cons.mp later with rfl | later
    · exact absurd tried (not_mem_earlier_self _)
    · have behind := List.rel_of_pairwise_cons (List.pairwise_append.mp ordered).2.1 later
      exact absurd tried behind

theorem classify_mem (named : name ∈ terminals) (word : List Char) :
    classify terminals word ∈ terminals := by
  rw [classify]
  cases found : terminals.find? fun other => other.keyword? = some (String.ofList word) with
  | none => exact named
  | some other => exact List.mem_of_find?_eq_some found

theorem terminal_of_lexeme? (found : lexeme? terminals text = some lexeme) :
    lexeme.terminal ∈ terminals := by
  obtain ⟨first, looked, _, same, _⟩ := first_of_lexeme? found
  rw [same]
  split
  · next named => exact classify_mem (named ▸ looked) _
  · exact looked

/-! ## Going on in another way -/

/-- A text begins as another one does, or with a blank. -/
def Resumes (rest other : List Char) : Prop :=
  ∀ next ∈ other.head?, next ∈ rest.head? ∨ Layout.isBlank next = true

theorem Resumes.of_blank {blank : Char} (isBlank : Layout.isBlank blank = true) (more : List Char) :
    Resumes rest (blank :: more) := by
  intro next head
  cases head
  exact .inr isBlank

theorem Resumes.of_begins (begins : other <+: rest) : Resumes rest other := by
  obtain ⟨more, rfl⟩ := begins
  intro next head
  left
  rw [List.head?_append, head]
  rfl

theorem Resumes.of_head? (same : other.head? = rest.head?) : Resumes rest other :=
  fun _ head => .inl (same ▸ head)

theorem Resumes.append_left (resumes : Resumes rest other) (front : List Char) :
    Resumes (front ++ rest) (front ++ other) := by
  cases front with
  | nil => exact resumes
  | cons char front => exact fun next head => .inl head

theorem Resumes.stops (resumes : Resumes rest other) (stops : Stops rest) : Stops other := by
  intro next head
  rcases resumes next head with same | blank
  · exact stops next same
  · exact isNamePart_of_isBlank blank

theorem Resumes.digits (resumes : Resumes rest other)
    (stops : ∀ next ∈ rest.head?, isDigit next = false) :
    ∀ next ∈ other.head?, isDigit next = false := by
  intro next head
  rcases resumes next head with same | blank
  · exact stops next same
  · exact (Bool.or_eq_false_iff.mp (isNamePart_of_isBlank blank)).2

theorem head?_dropWhile {test : Char → Bool} (text : List Char) :
    ∀ next ∈ (text.dropWhile test).head?, test next = false := by
  intro next head
  have stops := List.head?_dropWhile_not test text
  rw [head] at stops
  simpa using stops

theorem name?_stops (found : name? text = some (word, rest)) : Stops rest := by
  cases text with
  | nil => cases found
  | cons char tail =>
    simp only [name?] at found
    split at found
    · cases found
      exact head?_dropWhile tail
    · cases found

theorem natural?_stops (found : natural? text = some (word, rest)) :
    ∀ next ∈ rest.head?, isDigit next = false := by
  cases text with
  | nil => cases found
  | cons char tail =>
    simp only [natural?] at found
    split at found
    · cases found
      exact head?_dropWhile tail
    · cases found

theorem integer?_stops (found : integer? text = some (word, rest)) :
    ∀ next ∈ rest.head?, isDigit next = false := by
  unfold integer? at found
  split at found
  · obtain ⟨⟨digits, after⟩, digitsFound, same⟩ := Option.map_eq_some_iff.mp found
    cases same
    exact natural?_stops digitsFound
  · exact natural?_stops found

end Scan

namespace Terminal

open Scan

variable {terminal : Terminal} {word rest other text : List Char}

theorem match?_resumes (found : terminal.match? (word ++ rest) = some (word, rest))
    (resumes : Resumes rest other) : terminal.match? (word ++ other) = some (word, other) := by
  have fits := (match?_sound found).1
  cases terminal with
  | name => exact name?_append fits (resumes.stops (name?_stops found))
  | integer => exact integer?_append fits (resumes.digits (integer?_stops found))
  | natural => exact natural?_append fits (resumes.digits (natural?_stops found))
  | _ => exact match?_append_of_spelled fits other

theorem Fits.ne_nil (fits : terminal.Fits word) : word ≠ [] := by
  rintro rfl
  cases terminal with
  | name | integer | natural => cases fits
  | _ =>
    obtain ⟨_, none, _⟩ := head_of_spelling fits
    cases none

/-- Text that begins like a terminal is matched, though perhaps more of it. -/
theorem Fits.match?_ne_none (fits : terminal.Fits word) (rest : List Char) :
    terminal.match? (word ++ rest) ≠ Option.none := by
  have begins : ∀ {digits : List Char}, isNatural digits = true →
      natural? (digits ++ rest) ≠ Option.none := by
    intro digits natural
    cases digits with
    | nil => cases natural
    | cons first others =>
      simp only [isNatural, List.all_cons, Bool.and_eq_true] at natural
      simp [natural?, natural.2.1]
  have spelled : word ∈ terminal.spellings → terminal.match? (word ++ rest) ≠ Option.none := by
    intro member
    simp [match?_append_of_spelled member rest]
  cases terminal with
  | name =>
    cases word with
    | nil => cases fits
    | cons first others =>
      have starts : isNameStart first = true := (Bool.and_eq_true_iff.mp fits).1
      simp [match?, name?, starts]
  | integer =>
    have number : isInteger word = true := fits
    change integer? (word ++ rest) ≠ Option.none
    unfold isInteger at number
    split at number
    · simpa [integer?] using begins number
    · next unsigned =>
      obtain ⟨first, others, rfl⟩ := List.exists_cons_of_ne_nil fits.ne_nil
      unfold integer?
      split
      · next same =>
        cases same
        exact absurd rfl (unsigned others)
      · exact begins number
  | natural => exact begins fits
  | _ => exact spelled fits

theorem scope_resumes (unmatched : scope.match? (':' :: rest) = Option.none)
    (resumes : Resumes rest other) : scope.match? (':' :: other) = Option.none := by
  have begins : ∀ text, scope.match? (':' :: text) = Option.none ↔ ':' ∉ text.head? := by
    intro text
    change spelling? "::".toList _ = _ ↔ _
    cases text with
    | nil => simp [spelling?]
    | cons char tail => simp [spelling?, eq_comm]
  rw [begins] at unmatched ⊢
  intro head
  rcases resumes ':' head with same | blank
  · exact unmatched same
  · revert blank
    decide

/-- What is tried before the terminal that decides does not match if the text goes on in another
way. -/
theorem earlier_resumes {first earlier : Terminal} (tried : earlier ∈ first.earlier)
    (fits : first.Fits word) (unmatched : earlier.match? (word ++ rest) = Option.none)
    (resumes : Resumes rest other) : earlier.match? (word ++ other) = Option.none := by
  -- Whether a name begins here is for the first character to say.
  have unnamed : name? (word ++ rest) = Option.none → name? (word ++ other) = Option.none := by
    obtain ⟨char, tail, rfl⟩ := List.exists_cons_of_ne_nil fits.ne_nil
    simp only [List.cons_append, name?, ite_eq_right_iff, reduceCtorEq, imp_false]
    exact id
  have spelled : word ∈ first.spellings → earlier.match? (word ++ other) = Option.none := by
    intro member
    obtain ⟨char, head, digit, unsigned, _⟩ := head_of_spelling member
    cases earlier with
    | name => exact unnamed unmatched
    | integer => exact integer?_of_head head digit unsigned
    | natural => exact natural?_of_head head digit
    | scope =>
      rcases clash_of_earlier word member scope tried _ (.head _) with clashes | ⟨rfl, _⟩
      · exact spelling?_of_clash clashes
      · cases List.mem_singleton.mp member
        exact scope_resumes unmatched resumes
    | _ =>
      rw [match?_of_spelled (by decide), List.findSome?_eq_none_iff]
      intro spelling listed
      rcases clash_of_earlier word member _ tried spelling listed with clashes | ⟨_, same⟩
      · exact spelling?_of_clash clashes
      · cases same
  cases first with
  | name => cases tried
  | integer =>
    cases List.mem_singleton.mp tried
    exact unnamed unmatched
  | natural =>
    rcases List.mem_cons.mp tried with rfl | tried
    · exact unnamed unmatched
    · cases List.mem_singleton.mp tried
      have asInteger : integer.Fits word := isInteger_of_isNatural fits
      exact absurd unmatched (asInteger.match?_ne_none rest)
  | _ => exact spelled fits

theorem Fits.not_isBlank (fits : terminal.Fits word) : ∀ char ∈ word, Layout.isBlank char = false := by
  have parts : ∀ {part : List Char}, part.all isNamePart = true →
      ∀ char ∈ part, Layout.isBlank char = false := fun all char member =>
    (solid_of_isNamePart (List.all_eq_true.mp all char member)).1
  have digits : ∀ {part : List Char}, isNatural part = true →
      ∀ char ∈ part, Layout.isBlank char = false := by
    intro part natural
    refine parts (List.all_eq_true.mpr fun char member => ?_)
    exact isNamePart_of_isDigit (List.all_eq_true.mp (Bool.and_eq_true_iff.mp natural).2 char member)
  have spelled : word ∈ terminal.spellings → ∀ char ∈ word, Layout.isBlank char = false := by
    intro member char inside
    have table : ∀ word ∈ terminal.spellings, (word.all fun char => !Layout.isBlank char) = true := by
      cases terminal <;> decide +kernel
    simpa using List.all_eq_true.mp (table word member) char inside
  cases terminal with
  | name =>
    cases word with
    | nil => cases fits
    | cons first others =>
      obtain ⟨starts, all⟩ := Bool.and_eq_true_iff.mp fits
      exact parts (by simp [isNamePart, starts, all])
  | integer =>
    have number : isInteger word = true := fits
    unfold isInteger at number
    split at number
    · exact List.forall_mem_cons.mpr ⟨by decide, digits number⟩
    · exact digits number
  | natural => exact digits fits
  | _ => exact spelled fits

end Terminal

namespace Scan

open Terminal

variable {terminals : List Terminal} {rest other text front : List Char} {lexeme : Lexeme}

/-- A lexeme is found again if the text behind it goes on as before, or with a blank. -/
theorem lexeme?_resumes (found : lexeme? terminals text = some lexeme)
    (resumes : Resumes lexeme.rest other) :
    lexeme? terminals (lexeme.text ++ other) = some { lexeme with rest := other } := by
  obtain ⟨first, looked, matched, terminal, unmatched⟩ := first_of_lexeme? found
  obtain ⟨fits, split⟩ := match?_sound matched
  rw [split] at matched unmatched
  rw [lexeme?_of_first looked (match?_resumes matched resumes), terminal]
  intro earlier tried contained
  exact earlier_resumes tried fits (unmatched earlier tried contained) resumes

/-- The whole word at the start of a text, or the one character that stands there. -/
def wholeLexeme : List Char → List Char
  | [] => []
  | char :: rest => if isNamePart char then (char :: rest).takeWhile isNamePart else [char]

theorem wholeLexeme_begins (text : List Char) : wholeLexeme text <+: text := by
  cases text with
  | nil => exact List.prefix_rfl
  | cons char rest =>
    rw [wholeLexeme]
    split
    · exact List.takeWhile_prefix _
    · exact ⟨rest, rfl⟩

theorem head?_wholeLexeme (text : List Char) : (wholeLexeme text).head? = text.head? := by
  cases text with
  | nil => rfl
  | cons char rest =>
    rw [wholeLexeme]
    split
    · next part => rw [List.takeWhile_cons_of_pos part, List.head?_cons, List.head?_cons]
    · rfl

/-- Nothing is found in a text that is cut off by a blank if nothing is found in the whole of it. -/
theorem lexeme?_eq_none_of_cut (missing : lexeme? terminals text = none) (begins : front <+: text)
    {blank : Char} (isBlank : Layout.isBlank blank = true) (more : List Char) :
    lexeme? terminals (front ++ blank :: more) = none := by
  rw [lexeme?_eq_none_iff] at missing ⊢
  intro terminal looked
  rw [Option.eq_none_iff_forall_ne_some]
  rintro ⟨word, rest⟩ matched
  obtain ⟨fits, split⟩ := match?_sound matched
  have inFront : word <+: front := by
    have wordFirst : word <+: front ++ blank :: more := ⟨rest, split.symm⟩
    rcases List.prefix_or_prefix_of_prefix wordFirst (List.prefix_append ..) with short | ⟨tail, rfl⟩
    · exact short
    · rw [List.append_assoc, List.append_cancel_left_eq] at split
      cases tail with
      | nil => simp
      | cons char tail =>
        cases split
        have solid := fits.not_isBlank blank (by simp)
        rw [isBlank] at solid
        cases solid
  obtain ⟨later, rfl⟩ := inFront.trans begins
  exact fits.match?_ne_none later (missing terminal looked)

end Scan

end WireModules
