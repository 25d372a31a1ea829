import WireModules.Grammar.Terminal

/-!
# What a scanner finds

A lexeme that is found fits its terminal. The other way round, a lexeme at the start of a text is
found where its terminal is looked for, unless the text goes on with a word or a terminal that is
tried before matches too.
-/

set_option autoImplicit false

namespace WireModules

namespace Scan

def isName : List Char → Bool
  | [] => false
  | first :: rest => isNameStart first && rest.all isNamePart

def isNatural (word : List Char) : Bool :=
  !word.isEmpty && word.all isDigit

def isInteger : List Char → Bool
  | '-' :: digits => isNatural digits
  | digits => isNatural digits

/-- A text that does not go on with a word. -/
def Stops (rest : List Char) : Prop :=
  ∀ next ∈ rest.head?, isNamePart next = false

/-- Two spellings of which neither begins with the other. -/
def clash : List Char → List Char → Bool
  | first :: rest, other :: others => first ≠ other || clash rest others
  | _, _ => false

end Scan

namespace Terminal

/-- The texts of a terminal that is spelled in a few ways only. -/
def spellings : Terminal → List (List Char)
  | .transport => ["TCP".toList, "UDP".toList]
  | terminal => (terminal.keyword?.or terminal.sign?).toList.map String.toList

/-- What a lexeme of a terminal looks like. -/
def Fits (terminal : Terminal) (word : List Char) : Prop :=
  match terminal with
  | .name => Scan.isName word = true
  | .integer => Scan.isInteger word = true
  | .natural => Scan.isNatural word = true
  | terminal => word ∈ terminal.spellings

/-- The terminals that are tried before one. -/
def earlier (terminal : Terminal) : List Terminal :=
  inOrder.takeWhile (· ≠ terminal)

/-- Names, numbers and keywords, which have to be kept apart from one another. -/
def isWord (terminal : Terminal) : Bool :=
  terminal.sign?.isNone

end Terminal

namespace Scan

variable {word rest text : List Char}

theorem not_mem_of_isName {char : Char} (named : isName word = true)
    (outside : isNamePart char = false) : char ∉ word := by
  cases word with
  | nil => cases named
  | cons first others =>
    simp only [isName, Bool.and_eq_true, List.all_eq_true] at named
    intro member
    rcases List.mem_cons.mp member with rfl | later
    · simp [isNamePart, named.1] at outside
    · rw [named.2 char later] at outside
      cases outside

theorem takeWhile_append_of_stops {test : Char → Bool} (all : word.all test = true)
    (stops : ∀ next ∈ rest.head?, test next = false) :
    (word ++ rest).takeWhile test = word ∧ (word ++ rest).dropWhile test = rest := by
  have inside : ∀ char ∈ word, test char = true := List.all_eq_true.mp all
  rw [List.takeWhile_append_of_pos inside, List.dropWhile_append_of_pos inside]
  cases rest with
  | nil => simp
  | cons next after => simp [stops next rfl]

theorem name?_append (named : isName word = true) (stops : Stops rest) :
    name? (word ++ rest) = some (word, rest) := by
  cases word with
  | nil => cases named
  | cons first others =>
    simp only [isName, Bool.and_eq_true] at named
    obtain ⟨taken, dropped⟩ := takeWhile_append_of_stops named.2 stops
    rw [List.cons_append, name?, if_pos named.1, taken, dropped]

theorem name?_sound (found : name? text = some (word, rest)) :
    isName word = true ∧ text = word ++ rest := by
  cases text with
  | nil => cases found
  | cons first others =>
    simp only [name?] at found
    split at found
    · next starts =>
      cases found
      refine ⟨?_, by rw [List.cons_append, List.takeWhile_append_dropWhile]⟩
      simp [isName, starts]
    · cases found

theorem natural?_append (digits : isNatural word = true)
    (stops : ∀ next ∈ rest.head?, isDigit next = false) :
    natural? (word ++ rest) = some (word, rest) := by
  cases word with
  | nil => cases digits
  | cons first others =>
    simp only [isNatural, List.all_cons, Bool.and_eq_true] at digits
    obtain ⟨taken, dropped⟩ := takeWhile_append_of_stops digits.2.2 stops
    rw [List.cons_append, natural?, if_pos digits.2.1, taken, dropped]

theorem natural?_sound (found : natural? text = some (word, rest)) :
    isNatural word = true ∧ text = word ++ rest := by
  cases text with
  | nil => cases found
  | cons first others =>
    simp only [natural?] at found
    split at found
    · next starts =>
      cases found
      refine ⟨?_, by rw [List.cons_append, List.takeWhile_append_dropWhile]⟩
      simp [isNatural, starts]
    · cases found

theorem integer?_append (digits : isInteger word = true)
    (stops : ∀ next ∈ rest.head?, isDigit next = false) :
    integer? (word ++ rest) = some (word, rest) := by
  unfold isInteger at digits
  split at digits
  · next digitsOnly =>
    rw [List.cons_append, integer?, natural?_append digits stops]
    rfl
  · next unsigned =>
    have plain : integer? (word ++ rest) = natural? (word ++ rest) := by
      cases word with
      | nil => cases digits
      | cons first others =>
        unfold integer?
        split
        · next same =>
          cases same
          exact absurd rfl (unsigned others)
        · rfl
    rw [plain, natural?_append digits stops]

theorem integer?_sound (found : integer? text = some (word, rest)) :
    isInteger word = true ∧ text = word ++ rest := by
  unfold integer? at found
  split at found
  · obtain ⟨⟨digits, after⟩, digitsFound, same⟩ := Option.map_eq_some_iff.mp found
    cases same
    obtain ⟨natural, rfl⟩ := natural?_sound digitsFound
    exact ⟨natural, rfl⟩
  · next unsigned =>
    obtain ⟨natural, rfl⟩ := natural?_sound found
    refine ⟨?_, rfl⟩
    unfold isInteger
    split
    · next digits => exact absurd rfl (unsigned (digits ++ rest))
    · exact natural

theorem spelling?_append (word rest : List Char) :
    spelling? word (word ++ rest) = some (word, rest) := by
  induction word with
  | nil => rfl
  | cons char others ih => simp [spelling?, ih]

theorem spelling?_sound {spelling : List Char} (found : spelling? spelling text = some (word, rest)) :
    word = spelling ∧ text = spelling ++ rest := by
  induction spelling generalizing text word with
  | nil =>
    cases found
    exact ⟨rfl, rfl⟩
  | cons expected more ih =>
    cases text with
    | nil => cases found
    | cons char tail =>
      simp only [spelling?] at found
      split at found
      · next same =>
        obtain ⟨⟨inner, after⟩, innerFound, pair⟩ := Option.map_eq_some_iff.mp found
        cases pair
        obtain ⟨rfl, rfl⟩ := ih innerFound
        exact ⟨by rw [same], by rw [same, List.cons_append]⟩
      · cases found

theorem clash_self (word : List Char) : clash word word = false := by
  induction word with
  | nil => rfl
  | cons char others ih => simp [clash, ih]

theorem spelling?_of_clash {spelling : List Char} (clashes : clash spelling word = true) :
    spelling? spelling (word ++ rest) = none := by
  induction spelling generalizing word with
  | nil => cases clashes
  | cons expected more ih =>
    cases word with
    | nil => cases clashes
    | cons char others =>
      rw [List.cons_append, spelling?]
      by_cases same : expected = char
      · have later : clash more others = true := by simpa [clash, same] using clashes
        rw [if_pos same, ih later]
        rfl
      · rw [if_neg same]

end Scan

namespace Terminal

variable {terminal : Terminal} {word rest text : List Char}

theorem match?_of_spelled (spelled : terminal.spellings ≠ []) (text : List Char) :
    terminal.match? text = terminal.spellings.findSome? (Scan.spelling? · text) := by
  cases terminal with
  | name => exact absurd rfl spelled
  | integer => exact absurd rfl spelled
  | natural => exact absurd rfl spelled
  | transport =>
    simp only [match?, spellings, List.findSome?_cons, List.findSome?_nil]
    cases Scan.spelling? "TCP".toList text <;> cases Scan.spelling? "UDP".toList text <;> rfl
  | _ =>
    simp only [match?, spellings, keyword?, sign?, Option.or, Option.toList, List.map,
      List.findSome?]
    split <;> simp_all

theorem match?_sound (found : terminal.match? text = some (word, rest)) :
    terminal.Fits word ∧ text = word ++ rest := by
  have spelled : terminal.spellings ≠ [] → word ∈ terminal.spellings ∧ text = word ++ rest := by
    intro some
    rw [match?_of_spelled some] at found
    obtain ⟨spelling, member, foundHere⟩ := List.exists_of_findSome?_eq_some found
    obtain ⟨rfl, rfl⟩ := Scan.spelling?_sound foundHere
    exact ⟨member, rfl⟩
  cases terminal with
  | name => exact Scan.name?_sound found
  | integer => exact Scan.integer?_sound found
  | natural => exact Scan.natural?_sound found
  | _ => exact spelled (by decide)

theorem find?_keyword : ∀ spelled ∈ terminal.keyword?,
    inOrder.find? (fun other => other.keyword? = some spelled) = some terminal := by
  cases terminal <;> decide +kernel

theorem eq_of_keyword? {first second : Terminal} {spelled : String}
    (isFirst : first.keyword? = some spelled) (isSecond : second.keyword? = some spelled) :
    first = second :=
  Option.some.inj ((find?_keyword spelled isFirst).symm.trans (find?_keyword spelled isSecond))

theorem isName_of_keyword : ∀ spelled ∈ terminal.keyword?, Scan.isName spelled.toList = true := by
  cases terminal <;> decide

theorem spellings_of_keyword {spelled : String} (keyword : terminal.keyword? = some spelled) :
    terminal.spellings = [spelled.toList] := by
  cases terminal with
  | transport => cases keyword
  | _ => simp [spellings, keyword]

theorem isWord_of_keyword {spelled : String} (keyword : terminal.keyword? = some spelled) :
    terminal.isWord = true := by
  cases terminal <;> first | rfl | cases keyword

theorem fits_of_keyword (keyword : terminal.keyword? = some (String.ofList word)) :
    terminal.Fits word := by
  have member : word ∈ terminal.spellings := by
    rw [spellings_of_keyword keyword]
    simp
  cases terminal <;> first | exact member | cases keyword

theorem earlier_name : name.earlier = [] := rfl

/-- The terminals tried before a terminal that is spelled do not match its spellings, except that
a scope sign begins with a colon. -/
theorem clash_of_earlier : ∀ word ∈ terminal.spellings, ∀ other ∈ terminal.earlier,
    ∀ spelling ∈ other.spellings,
      Scan.clash spelling word = true ∨ terminal = .colon ∧ other = .scope := by
  cases terminal <;> decide +kernel

theorem clash_of_ne : ∀ word ∈ terminal.spellings, ∀ spelling ∈ terminal.spellings,
    spelling = word ∨ Scan.clash spelling word = true := by
  cases terminal <;> decide +kernel

/-- A spelling begins like no number, and like a name only if it is no sign. -/
theorem head_of_spelling (fits : word ∈ terminal.spellings) : ∃ char ∈ word.head?,
    Scan.isDigit char = false ∧ char ≠ '-' ∧ Scan.isNameStart char = terminal.isWord := by
  have table : ∀ word ∈ terminal.spellings, (word.head?.any fun char =>
      !Scan.isDigit char && char != '-' && Scan.isNameStart char == terminal.isWord) = true := by
    cases terminal <;> decide +kernel
  obtain ⟨char, head, checked⟩ := (Option.any_eq_true _ _).mp (table word fits)
  simp only [Bool.and_eq_true, Bool.not_eq_true', bne_iff_ne, beq_iff_eq] at checked
  exact ⟨char, head, checked.1.1, checked.1.2, checked.2⟩

theorem match?_append_of_spelled (fits : word ∈ terminal.spellings) (rest : List Char) :
    terminal.match? (word ++ rest) = some (word, rest) := by
  rw [match?_of_spelled (List.ne_nil_of_mem fits)]
  have clashes := clash_of_ne word fits
  generalize terminal.spellings = spellings at fits clashes
  induction spellings with
  | nil => cases fits
  | cons first others ih =>
    rw [List.findSome?_cons]
    rcases clashes first (.head _) with rfl | clashesFirst
    · rw [Scan.spelling?_append]
    · rw [Scan.spelling?_of_clash clashesFirst]
      refine ih ?_ fun spelling member => clashes spelling (.tail _ member)
      rcases List.mem_cons.mp fits with rfl | later
      · rw [Scan.clash_self] at clashesFirst
        cases clashesFirst
      · exact later

/-- Where some terminals are looked for, no word of a terminal is taken for anything else. -/
def Clear (terminals : List Terminal) (terminal : Terminal) (word : List Char) : Prop :=
  match terminal with
  | .name => ∀ other ∈ terminals, other.keyword? ≠ some (String.ofList word)
  | .natural => .integer ∉ terminals
  | .transport => .name ∉ terminals
  | .colon => .scope ∉ terminals
  | _ => True

/-- Only signs and keywords are spelled where names are looked for too. -/
theorem not_isWord_of_clear {terminals : List Terminal} (clear : terminal.Clear terminals word)
    (named : name ∈ terminals) (fits : word ∈ terminal.spellings)
    (keyword : ¬terminal.isKeyword = true) : terminal.isWord = false := by
  cases terminal with
  | name => cases fits
  | integer => cases fits
  | natural => cases fits
  | transport => exact absurd named clear
  | _ => first | rfl | exact absurd rfl keyword

end Terminal

namespace Scan

open Terminal

variable {terminals : List Terminal} {terminal : Terminal} {word rest text : List Char}

/-- The first terminal that matches decides. -/
theorem lexeme?_of_first (looked : terminal ∈ terminals)
    (found : terminal.match? text = some (word, rest))
    (none : ∀ other ∈ terminal.earlier, other ∈ terminals → other.match? text = none) :
    lexeme? terminals text =
      some ⟨if terminal = .name then classify terminals word else terminal, word, rest⟩ := by
  have split : inOrder = terminal.earlier ++ inOrder.dropWhile (· ≠ terminal) :=
    List.takeWhile_append_dropWhile.symm
  have next : ∃ later, inOrder.dropWhile (· ≠ terminal) = terminal :: later := by
    cases terminal <;> exact ⟨_, rfl⟩
  obtain ⟨later, next⟩ := next
  have before : ∀ other ∈ terminal.earlier.filter (terminals.contains ·),
      other.match? text = Option.none := by
    intro other member
    obtain ⟨tried, contained⟩ := List.mem_filter.mp member
    exact none other tried (List.contains_iff_mem.mp contained)
  rw [lexeme?, split, next, List.filter_append, List.findSome?_append,
    List.findSome?_eq_none_iff.mpr ?_, Option.none_or,
    List.filter_cons_of_pos (List.contains_iff_mem.mpr looked), List.findSome?_cons, found]
  · rfl
  · intro other member
    rw [before other member]
    rfl

theorem classify_of_clear (clear : name.Clear terminals word) :
    classify terminals word = name := by
  have absent : terminals.find? (fun other => other.keyword? = some (String.ofList word)) =
      Option.none := by
    rw [List.find?_eq_none]
    intro other member same
    exact clear other member (of_decide_eq_true same)
  rw [classify, absent, Option.getD_none]

theorem classify_of_keyword (looked : terminal ∈ terminals)
    (keyword : terminal.keyword? = some (String.ofList word)) :
    classify terminals word = terminal := by
  obtain ⟨other, found⟩ := Option.isSome_iff_exists.mp (List.find?_isSome.mpr
    ⟨terminal, looked, decide_eq_true keyword⟩ : (terminals.find? fun other =>
      other.keyword? = some (String.ofList word)).isSome = true)
  have spelled : other.keyword? = some (String.ofList word) := by
    simpa using List.find?_some found
  rw [classify, found, Option.getD_some, eq_of_keyword? spelled keyword]

theorem name?_of_head {char : Char} (head : char ∈ word.head?) (other : isNameStart char = false) :
    name? (word ++ rest) = Option.none := by
  cases word with
  | nil => cases head
  | cons first others =>
    cases head
    rw [List.cons_append, name?, if_neg (by simp [other])]

theorem natural?_of_head {char : Char} (head : char ∈ word.head?) (other : isDigit char = false) :
    natural? (word ++ rest) = Option.none := by
  cases word with
  | nil => cases head
  | cons first others =>
    cases head
    rw [List.cons_append, natural?, if_neg (by simp [other])]

theorem integer?_of_head {char : Char} (head : char ∈ word.head?) (other : isDigit char = false)
    (unsigned : char ≠ '-') : integer? (word ++ rest) = Option.none := by
  cases word with
  | nil => cases head
  | cons first others =>
    cases head
    unfold integer?
    split
    · next same =>
      cases same
      exact absurd rfl unsigned
    · exact natural?_of_head rfl other


theorem isNameStart_of_isDigit {char : Char} (digit : isDigit char = true) :
    isNameStart char = false := by
  simp only [isDigit, Bool.and_eq_true, decide_eq_true_eq, Char.le_def] at digit
  have bound : char.val.toNat ≤ 57 := UInt32.le_iff_toNat_le.mp digit.2
  have large : ¬( 'A' ≤ char) := fun above => by
    have : 65 ≤ char.val.toNat := UInt32.le_iff_toNat_le.mp above
    omega
  have small : ¬( 'a' ≤ char) := fun above => by
    have : 97 ≤ char.val.toNat := UInt32.le_iff_toNat_le.mp above
    omega
  have underscore : char ≠ '_' := fun same => by
    rw [same] at bound
    revert bound
    decide
  simp [isNameStart, large, small, underscore]

theorem isNamePart_of_isDigit {char : Char} (digit : isDigit char = true) :
    isNamePart char = true := by
  simp [isNamePart, digit]

theorem Stops.digits (stops : Stops rest) : ∀ next ∈ rest.head?, isDigit next = false := by
  intro next head
  have part := stops next head
  simp only [isNamePart, Bool.or_eq_false_iff] at part
  exact part.2

/-- What a number begins with. -/
theorem head_of_isInteger (number : isInteger word = true) :
    ∃ char ∈ word.head?, isNameStart char = false := by
  unfold isInteger at number
  split at number
  · exact ⟨'-', rfl, by decide⟩
  · cases word with
    | nil => cases number
    | cons first others =>
      simp only [isNatural, List.all_cons, Bool.and_eq_true] at number
      exact ⟨first, rfl, isNameStart_of_isDigit number.2.1⟩

theorem isInteger_of_isNatural (natural : isNatural word = true) : isInteger word = true := by
  unfold isInteger
  split
  · cases natural
  · exact natural

/-- A spelling is found, also where names are looked for, if no earlier terminal matches it. -/
theorem lexeme?_append_of_spelled (looked : terminal ∈ terminals)
    (fits : word ∈ terminal.spellings) (clear : terminal.Clear terminals word)
    (stops : terminal.isWord = true → Stops rest) :
    lexeme? terminals (word ++ rest) = some ⟨terminal, word, rest⟩ := by
  obtain ⟨char, head, digit, unsigned, start⟩ := head_of_spelling fits
  have unnamed : terminal ≠ name := by
    rintro rfl
    cases fits
  -- A keyword is scanned as a name first, and told from a name afterwards.
  by_cases keyword : terminal.isKeyword = true ∧ name ∈ terminals
  · obtain ⟨spelled, isSpelled⟩ := Option.isSome_iff_exists.mp keyword.1
    have isSame := fits
    rw [spellings_of_keyword isSpelled] at isSame
    cases List.mem_singleton.mp isSame
    have named := isName_of_keyword spelled isSpelled
    have word := isWord_of_keyword isSpelled
    have first := lexeme?_of_first keyword.2 (name?_append named (stops word)) (by simp [earlier_name])
    rw [if_pos rfl, classify_of_keyword looked (by simpa using isSpelled)] at first
    exact first
  · have first := lexeme?_of_first looked (match?_append_of_spelled fits rest) ?_
    · rw [if_neg unnamed] at first
      exact first
    · intro other tried contained
      cases other with
      | name =>
        refine name?_of_head head ?_
        rw [start]
        exact not_isWord_of_clear clear contained fits fun isKeyword => keyword ⟨isKeyword, contained⟩
      | integer => exact integer?_of_head head digit unsigned
      | natural => exact natural?_of_head head digit
      | _ =>
        rw [match?_of_spelled (by decide), List.findSome?_eq_none_iff]
        intro spelling member
        rcases clash_of_earlier word fits _ tried spelling member with clashes | ⟨rfl, same⟩
        · exact spelling?_of_clash clashes
        · exact absurd (same ▸ contained) clear

/-- A lexeme at the start of a text is found where its terminal is looked for. -/
theorem lexeme?_append (looked : terminal ∈ terminals) (fits : terminal.Fits word)
    (clear : terminal.Clear terminals word) (stops : terminal.isWord = true → Stops rest) :
    lexeme? terminals (word ++ rest) = some ⟨terminal, word, rest⟩ := by
  cases terminal with
  | name =>
    have first := lexeme?_of_first looked (name?_append fits (stops rfl)) (by simp [earlier_name])
    rw [if_pos rfl, classify_of_clear clear] at first
    exact first
  | integer =>
    obtain ⟨char, head, other⟩ := head_of_isInteger fits
    refine lexeme?_of_first looked (integer?_append fits (stops rfl).digits) ?_
    intro earlier tried _
    cases List.mem_singleton.mp tried
    exact name?_of_head head other
  | natural =>
    obtain ⟨char, head, other⟩ := head_of_isInteger (isInteger_of_isNatural fits)
    refine lexeme?_of_first looked (natural?_append fits (stops rfl).digits) ?_
    intro earlier tried contained
    rcases List.mem_cons.mp tried with rfl | tried
    · exact name?_of_head head other
    · cases List.mem_singleton.mp tried
      exact absurd contained clear
  | _ => exact lexeme?_append_of_spelled looked fits clear stops

/-- A lexeme that is found stands at the start of the text and fits its terminal. -/
theorem lexeme?_sound {lexeme : Lexeme} (found : lexeme? terminals text = some lexeme) :
    lexeme.terminal.Fits lexeme.text ∧ text = lexeme.text ++ lexeme.rest := by
  obtain ⟨terminal, _, matchFound⟩ := List.exists_of_findSome?_eq_some found
  obtain ⟨⟨matched, rest⟩, matchedHere, same⟩ := Option.map_eq_some_iff.mp matchFound
  obtain ⟨fits, split⟩ := match?_sound matchedHere
  cases same
  refine ⟨?_, split⟩
  change (if terminal = name then classify terminals matched else terminal).Fits matched
  by_cases named : terminal = name
  · rw [if_pos named, classify]
    cases keyword : terminals.find? fun other => other.keyword? = some (String.ofList matched) with
    | none => exact named ▸ fits
    | some other =>
      have spelled : other.keyword? = some (String.ofList matched) := by
        simpa using List.find?_some keyword
      exact fits_of_keyword spelled
  · rw [if_neg named]
    exact fits

end Scan

end WireModules
