import WireModules.Grammar.Machine
import WireModules.Proofs.Spacing

/-!
# What a machine reads

What every token keeps holds at the end of a reading. The other way round, a machine reads a text
of words that it can take one after the other, whatever layout stands between them.
-/

set_option autoImplicit false

namespace WireModules

/-- A token looks like its terminal. -/
def Token.Fits (token : Token) : Prop :=
  token.terminal.Fits token.text.toList

namespace Machine

variable {State Result : Type} {machine : Machine State Result}

/-- A reading that succeeds ends in a state that has what every token keeps. -/
theorem exists_finish_of_runFrom {Good : State → Prop}
    (keeps : ∀ {state token next}, Good state → Token.Fits token →
      machine.step state token.terminal = some next → Good (next token))
    {whole text : List Char} {state : State} {previous : Option Token} {position : Position}
    {result : Result} (good : Good state)
    (ran : machine.runFrom whole state previous position text = .ok result) :
    ∃ last, Good last ∧ machine.finish? last = some result := by
  fun_induction runFrom machine whole state previous position text with
  | case1 =>
    next finished =>
    cases ran
    exact ⟨_, good, finished⟩
  | case2 => cases ran
  | case3 => cases ran
  | case4 =>
    next found token next stepped ih =>
    have fits : token.Fits := by
      rw [Token.Fits]
      simpa [token, tokenAt] using (Scan.lexeme?_sound found).1
    exact ih (keeps good fits stepped) ran
  | case5 => cases ran

/-- In a state a word is looked for, is taken for what it is, and leads on. -/
structure Takes (machine : Machine State Result) (state : State) (word : Word)
    (next : Token → State) : Prop where
  stepped : machine.step state word.terminal = some next
  looked : word.terminal ∈ machine.scanned state
  fits : word.terminal.Fits word.text
  clear : word.terminal.Clear (machine.scanned state) word.text

/-- From a state some words lead to a goal, wherever they stand. -/
def Leads (machine : Machine State Result) (goal : State → Prop) : State → List Word → Prop
  | state, [] => goal state
  | state, word :: rest =>
    ∃ next, machine.Takes state word next ∧
      ∀ token : Token, token.text = String.ofList word.text → machine.Leads goal (next token) rest

theorem Leads.fits {goal : State → Prop} {state : State} {words : List Word}
    (leads : machine.Leads goal state words) : ∀ word ∈ words, word.terminal.Fits word.text := by
  induction words generalizing state with
  | nil => simp
  | cons word rest ih =>
    obtain ⟨next, takes, later⟩ := leads
    let token : Token := ⟨word.terminal, String.ofList word.text, .start, .start⟩
    exact List.forall_mem_cons.mpr ⟨takes.fits, ih (later token rfl)⟩

/-- Whether keywords are looked for, which no name may spell then. -/
def scansKeyword (machine : Machine State Result) (state : State) : Bool :=
  (machine.scanned state).any Terminal.isKeyword

theorem mem_scanned_of_step {state : State} {terminal : Terminal} {next : Token → State}
    (known : terminal ∈ machine.alphabet) (stepped : machine.step state terminal = some next) :
    terminal ∈ machine.scanned state :=
  List.mem_filter.mpr ⟨known, by simp [accepts, stepped]⟩

theorem clear_of_not_scansKeyword {state : State} {word : List Char}
    (free : machine.scansKeyword state = false) : Terminal.name.Clear (machine.scanned state) word := by
  intro other member spelled
  have isKeyword : other.isKeyword = true := by simp [Terminal.isKeyword, spelled]
  rw [scansKeyword, List.any_eq_false] at free
  exact free other member isKeyword

/-! ## Single words -/

section Words

variable {goal : State → Prop} {state : State} {next : Token → State} {rest : List Word}

theorem takes_ofTerminal {terminal : Terminal} (known : terminal ∈ machine.alphabet)
    (spelled : terminal.spellings ≠ []) (stepped : machine.step state terminal = some next)
    (clear : terminal.Clear (machine.scanned state) (Word.ofTerminal terminal).text) :
    machine.Takes state (.ofTerminal terminal) next where
  stepped := stepped
  looked := mem_scanned_of_step known stepped
  fits := Word.fits_ofTerminal spelled
  clear := clear

theorem takes_fixed {terminal : Terminal} (known : terminal ∈ machine.alphabet)
    (fixed : terminal.isFixed = true) (stepped : machine.step state terminal = some next) :
    machine.Takes state (.ofTerminal terminal) next := by
  refine takes_ofTerminal known ?_ stepped ?_
  · cases terminal <;> first | decide | cases fixed
  · cases terminal <;> trivial

theorem takes_name {name : String} (known : .name ∈ machine.alphabet)
    (named : Scan.isName name.toList = true) (stepped : machine.step state .name = some next)
    (clear : Terminal.name.Clear (machine.scanned state) name.toList) :
    machine.Takes state (.name name) next where
  stepped := stepped
  looked := mem_scanned_of_step known stepped
  fits := named
  clear := clear

theorem leads_fixed {terminal : Terminal} (known : terminal ∈ machine.alphabet)
    (fixed : terminal.isFixed = true) (stepped : machine.step state terminal = some next)
    (later : ∀ token, machine.Leads goal (next token) rest) :
    machine.Leads goal state (.ofTerminal terminal :: rest) :=
  ⟨next, takes_fixed known fixed stepped, fun token _ => later token⟩

/-- A colon is taken where the sign of a scope is not looked for. -/
theorem leads_colon (known : .colon ∈ machine.alphabet)
    (stepped : machine.step state .colon = some next)
    (unscoped : (machine.scanned state).contains .scope = false)
    (later : ∀ token, machine.Leads goal (next token) rest) :
    machine.Leads goal state (.ofTerminal .colon :: rest) := by
  have clear : .scope ∉ machine.scanned state := by
    intro member
    rw [List.contains_iff_mem.mpr member] at unscoped
    cases unscoped
  exact ⟨next, takes_ofTerminal known (by decide) stepped clear, fun token _ => later token⟩

theorem leads_name {name : String} (known : .name ∈ machine.alphabet)
    (named : Scan.isName name.toList = true) (stepped : machine.step state .name = some next)
    (clear : Terminal.name.Clear (machine.scanned state) name.toList)
    (later : ∀ token : Token, token.text = name → machine.Leads goal (next token) rest) :
    machine.Leads goal state (.name name :: rest) := by
  refine ⟨next, takes_name known named stepped clear, fun token same => ?_⟩
  exact later token (same.trans String.ofList_toList)

end Words

/-! ## Readings -/

theorem runFrom_of_gap {whole gap : List Char} {state : State} {previous : Option Token}
    {position : Position} {result : Result} (isGap : Gap gap)
    (finished : machine.finish? state = some result) :
    machine.runFrom whole state previous position gap = .ok result := by
  have split : Layout.split (gap ++ []) = (gap, []) := isGap.split_append (by simp)
  rw [List.append_nil] at split
  rw [runFrom]
  split
  · rw [finished]
  · next layout char rest same =>
    rw [split] at same
    cases same

/-- A word that is taken is a token with its place: behind the gap, and up to its end. -/
theorem runFrom_of_takes {gap rest : List Char} {state : State} {word : Word} {next : Token → State}
    (isGap : Gap gap) (takes : machine.Takes state word next)
    (stops : word.terminal.isWord = true → Scan.Stops rest) (whole : List Char)
    (previous : Option Token) (position : Position) :
    ∃ token : Token, token.text = String.ofList word.text ∧
      token.position = position.advance gap ∧ token.past = position.advance (gap ++ word.text) ∧
        machine.runFrom whole state previous position (gap ++ word.text ++ rest) =
          machine.runFrom whole (next token) (some token) token.past rest := by
  have split : Layout.split (gap ++ (word.text ++ rest)) = (gap, word.text ++ rest) :=
    isGap.split_append takes.fits.solid
  have lexed := Scan.lexeme?_append takes.looked takes.fits takes.clear stops
  have nonempty : word.text ++ rest ≠ [] := by
    have shorter := Scan.length_of_lexeme? lexed
    exact List.ne_nil_of_length_pos (Nat.zero_lt_of_lt shorter)
  obtain ⟨first, others, starts⟩ := List.exists_cons_of_ne_nil nonempty
  refine ⟨tokenAt (position.advance gap) ⟨word.terminal, word.text, rest⟩, rfl, rfl,
    (position.advance_append gap word.text).symm, ?_⟩
  rw [List.append_assoc, starts, runFrom]
  rw [starts] at split lexed
  split
  · next layout same =>
    rw [split] at same
    cases same
  · next layout char tail same =>
    rw [split] at same
    cases same
    dsimp only
    split
    · next missing =>
      rw [lexed] at missing
      cases missing
    · next lexeme found =>
      rw [lexed] at found
      cases found
      split
      · next stepped =>
        cases takes.stepped.symm.trans stepped
        rfl
      · next refused => cases takes.stepped.symm.trans refused

/-- Words that lead to a goal are read, whatever layout stands between them; a gap may be left. -/
theorem runFrom_of_leads_append {goal : State → Prop} {text rest : List Char} {state : State}
    {words : List Word} {after : Bool} (leads : machine.Leads goal state words)
    (spaced : Spaced after words text) (stops : Scan.Stops rest) (whole : List Char)
    (previous : Option Token) (position : Position) :
    ∃ last token here gap, goal last ∧ Gap gap ∧ here.advance gap = position.advance text ∧
      machine.runFrom whole state previous position (text ++ rest) =
        machine.runFrom whole last token here (gap ++ rest) := by
  induction words generalizing state text previous position after with
  | nil =>
    cases spaced with
    | done isGap => exact ⟨state, previous, position, text, leads, isGap, rfl, rfl⟩
  | cons word others ih =>
    have fit := leads.fits
    obtain ⟨next, takes, later⟩ := leads
    cases spaced with
    | @word _ _ _ gap text isGap apart following =>
      have stopsHere : word.terminal.isWord = true → Scan.Stops (text ++ rest) := by
        intro isWord
        refine Scan.Stops.append (Spaced.stops (isWord ▸ following) fun other member => ?_) stops
        exact fit other (.tail _ member)
      obtain ⟨token, same, _, past, ran⟩ :=
        runFrom_of_takes isGap takes stopsHere whole previous position
      obtain ⟨last, seen, here, left, reached, isLeft, ends, goesOn⟩ :=
        ih (later token same) following (some token) token.past
      refine ⟨last, seen, here, left, reached, isLeft, ?_, ?_⟩
      · rw [ends, past, ← Position.advance_append]
      · rw [List.append_assoc, ran, goesOn]

/-- Words that lead to a goal are read to the end of a text of them. -/
theorem runFrom_of_leads {goal : State → Prop} {whole text : List Char} {state : State}
    {previous : Option Token} {position : Position} {words : List Word} {after : Bool}
    (leads : machine.Leads goal state words) (spaced : Spaced after words text) :
    ∃ last, goal last ∧ ∀ result, machine.finish? last = some result →
      machine.runFrom whole state previous position text = .ok result := by
  have stops : Scan.Stops [] := nofun
  obtain ⟨last, token, here, gap, reached, isGap, _, ran⟩ :=
    runFrom_of_leads_append leads spaced stops whole previous position
  rw [List.append_nil, List.append_nil] at ran
  exact ⟨last, reached, fun result finished => ran.trans (runFrom_of_gap isGap finished)⟩

end Machine

end WireModules
