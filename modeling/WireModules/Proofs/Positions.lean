import Mathlib.Data.List.Induction
import WireModules.Proofs.Standing
import WireModules.Proofs.WordBoundary

/-!
# Positions of the nodes of a module

A position counts the line feeds before a character, and the characters since the last of them. Each
node of a module that is read has the position of the first character of its construct, and the nodes
come in the order of the text.
-/

set_option autoImplicit false

namespace WireModules

namespace Position

variable {position first second third : Position} {text : List Char}

theorem Before.trans (before : first.Before second) (after : second.Before third) :
    first.Before third := by
  unfold Before at *
  omega

theorem before_next (position : Position) (char : Char) : position.Before (position.next char) := by
  unfold Before next
  split
  · exact .inl (Nat.lt_succ_self _)
  · exact .inr ⟨rfl, Nat.lt_succ_self _⟩

theorem before_advance (filled : text ≠ []) : position.Before (position.advance text) := by
  induction text generalizing position with
  | nil => exact absurd rfl filled
  | cons char rest ih =>
    rw [advance_cons]
    cases rest with
    | nil => exact before_next position char
    | cons next others => exact (before_next position char).trans (ih (by simp))

theorem not_before_self (position : Position) : ¬position.Before position := by
  unfold Before
  omega

/-- The position past a beginning of a text tells which beginning it is. -/
theorem eq_of_advance_eq {front other : List Char} (begins : front <+: text) (beginsToo : other <+: text)
    (same : position.advance front = position.advance other) : front = other := by
  have longer : ∀ {front other : List Char}, front <+: other →
      position.advance front = position.advance other → front = other := by
    intro front other begins same
    obtain ⟨more, rfl⟩ := begins
    by_cases filled : more = []
    · rw [filled, List.append_nil]
    · have before : (position.advance front).Before _ := before_advance filled
      rw [← advance_append, ← same] at before
      exact absurd before (not_before_self _)
  rcases List.prefix_or_prefix_of_prefix begins beginsToo with short | short
  · exact longer short same
  · exact (longer short same.symm).symm

/-- Past a text there is one more line for each line feed in it, and one more column for each character
of its last line. -/
theorem start_advance (text : List Char) :
    start.advance text = ⟨1 + text.count '\n', 1 + (Text.lastLine text).length⟩ := by
  induction text using List.reverseRecOn with
  | nil => rfl
  | append_singleton front char ih =>
    rw [advance_append, ih, advance_cons, advance_nil, next]
    by_cases feed : char = '\n'
    · simp [feed, Text.lastLine, Nat.add_assoc]
    · simp [feed, Text.lastLine, Nat.add_assoc]

end Position

/-! ## Lexemes in their text -/

/-- A lexeme stands in a text, behind what comes before it. -/
def Occurrence.StandsIn (text : List Char) (occurrence : Occurrence) : Prop :=
  occurrence.before ++ occurrence.lexeme.text ++ occurrence.lexeme.rest = text

namespace Machine

variable {State Result : Type} {machine : Machine State Result} {result : Result} {state : State}
  {before text : List Char} {occurrence : Occurrence} {occurrences : List Occurrence}

theorem Meets.standsIn (meets : machine.Meets state before text occurrence) :
    occurrence.StandsIn (before ++ text) := by
  rw [Occurrence.StandsIn, meets.placed, List.append_assoc, List.append_assoc, meets.whole]

theorem Meets.filled (meets : machine.Meets state before text occurrence) :
    occurrence.lexeme.text ≠ [] := by
  intro empty
  have whole := (Scan.lexeme?_sound meets.lexed).2
  have shorter := Scan.length_of_lexeme? meets.lexed
  rw [whole, empty, List.nil_append] at shorter
  exact Nat.lt_irrefl _ shorter

theorem Reads.filled (reads : machine.Reads result state before text occurrences) :
    ∀ occurrence ∈ occurrences, occurrence.lexeme.text ≠ [] := by
  induction reads with
  | finish => simp
  | lexeme meets _ _ ih => exact List.forall_mem_cons.mpr ⟨meets.filled, ih⟩

theorem Reads.standsIn (reads : machine.Reads result state before text occurrences) :
    ∀ occurrence ∈ occurrences, occurrence.StandsIn (before ++ text) := by
  induction reads with
  | finish => simp
  | lexeme meets _ _ ih =>
    refine List.forall_mem_cons.mpr ⟨meets.standsIn, ?_⟩
    rw [← meets.standsIn]
    exact ih

/-- What is consumed after some text stands behind that text, and later lexemes stand behind earlier
ones. -/
theorem Reads.past_prefix (reads : machine.Reads result state before text occurrences) :
    (∀ occurrence ∈ occurrences, before <+: occurrence.before) ∧
      occurrences.Pairwise fun first second => first.past <+: second.before := by
  induction reads with
  | finish => simp
  | @lexeme _ before _ occurrence _ _ meets _ _ ih =>
    have own : before <+: occurrence.before := ⟨_, meets.placed.symm⟩
    refine ⟨List.forall_mem_cons.mpr ⟨own, fun other member => ?_⟩, .cons ih.1 ih.2⟩
    exact (own.trans (List.prefix_append ..)).trans (ih.1 other member)

/-- The lexemes that are consumed stand at growing positions. -/
theorem Reads.pairwise_before (reads : machine.Reads result state before text occurrences) :
    (occurrences.map Occurrence.position).Pairwise Position.Before := by
  rw [List.pairwise_map]
  refine reads.past_prefix.2.imp_of_mem ?_
  rintro first second member _ ⟨more, same⟩
  have filled : first.lexeme.text ++ more ≠ [] := by
    simp [reads.filled first member]
  rw [Occurrence.position, Occurrence.position, ← same, Occurrence.past, List.append_assoc,
    Position.advance_append]
  exact Position.before_advance filled

end Machine

/-! ## What stands where -/

theorem Sequence.sublist {Item : Type} {Stands : Item → List Occurrence → Prop}
    {positions : Item → List Position} {items : List Item} {own : List Occurrence}
    (all : Sequence Stands items own)
    (each : ∀ item part, Stands item part →
      (positions item).Sublist (part.map Occurrence.position)) :
    (items.flatMap positions).Sublist (own.map Occurrence.position) := by
  obtain ⟨parts, all, rfl⟩ := all
  induction all with
  | nil => exact .slnil
  | cons stands _ ih =>
    rw [List.flatMap_cons, List.flatten_cons, List.map_append]
    exact (each _ _ stands).append ih

theorem WrittenField.Stands.sublist {field : WrittenField} {own : List Occurrence}
    (stands : field.Stands own) : [field.position].Sublist (own.map Occurrence.position) := by
  cases stands with
  | field shaped type => simp

theorem WrittenBody.Stands.sublist {body : WrittenBody} {own : List Occurrence}
    (stands : body.Stands own) :
    (body.writtenFields.map WrittenField.position).Sublist (own.map Occurrence.position) := by
  cases stands with
  | enum isWord labels => exact List.nil_sublist _
  | @fields word list form fields isWord braced =>
    obtain ⟨left, inner, right, _, _, all, rfl⟩ := braced
    have inside := all.sublist fun _ _ stands => stands.sublist
    rw [← List.map_eq_flatMap] at inside
    simp only [List.map_cons, List.map_append]
    exact .cons _ (.cons _ (inside.trans (List.sublist_append_left ..)))
  | «alias» standsTarget => exact List.nil_sublist _

theorem Heading.Stands.sublist {heading : Heading} {linkage : List Occurrence} {keyword : Occurrence}
    (stands : heading.Stands linkage keyword) :
    [heading.position].Sublist ((linkage ++ [keyword]).map Occurrence.position) := by
  rw [List.singleton_sublist, stands.placed]
  refine List.mem_map_of_mem ?_
  cases linkage <;> simp

namespace WrittenItem

def position : WrittenItem → Position
  | .imported position _ => position
  | .constant heading _ _ | .type heading _ _ => heading.position

def writtenFields : WrittenItem → List WrittenField
  | .type _ _ body => body.writtenFields
  | _ => []

/-- The positions of an item and of its fields. -/
def positions (item : WrittenItem) : List Position :=
  item.position :: item.writtenFields.map WrittenField.position

theorem Stands.sublist {item : WrittenItem} {own : List Occurrence} (stands : item.Stands own) :
    item.positions.Sublist (own.map Occurrence.position) := by
  cases stands with
  | imported shaped => simp [positions, position, writtenFields]
  | @constant heading linkage word name equal value semicolon standsHeading shaped =>
    have split : linkage ++ [word, name, equal, value, semicolon] =
        (linkage ++ [word]) ++ [name, equal, value, semicolon] := by simp
    rw [split, List.map_append]
    exact standsHeading.sublist.trans (List.sublist_append_left ..)
  | @type heading linkage inner body word name equal semicolon standsHeading shaped standsBody =>
    have split : linkage ++ ([word, name, equal] ++ inner) ++ [semicolon] =
        (linkage ++ [word]) ++ ([name, equal] ++ (inner ++ [semicolon])) := by simp
    rw [split, List.map_append]
    refine standsHeading.sublist.append (standsBody.sublist.trans ?_)
    exact (List.sublist_append_of_sublist_right (List.sublist_append_left ..)).map _

end WrittenItem

/-- The positions of a module, of its items and of their fields. -/
def WrittenModule.positions (written : WrittenModule) : List Position :=
  written.position :: written.items.flatMap WrittenItem.positions

theorem WrittenModule.Stands.sublist {written : WrittenModule} {own : List Occurrence}
    (stands : written.Stands own) : written.positions.Sublist (own.map Occurrence.position) := by
  cases stands with
  | module shaped items =>
    have inside := items.sublist fun _ _ stands => stands.sublist
    simp only [List.map_append, List.map_cons]
    exact .cons_cons _ (.cons _ (.cons _ inside))

/-! ## The nodes of a module -/

def ModuleNode.position : ModuleNode → Position
  | .root node => node.position
  | .decl node => node.position
  | .field node => node.position

theorem Decl.Mirrors.positions {module : String} {item : WrittenItem} {decl : Decl}
    (mirrors : decl.Mirrors module item) :
    decl.position :: decl.fields.map PlacedField.position = item.positions := by
  cases mirrors with
  | imported position name => rfl
  | constant heading name read => rfl
  | type own =>
    rw [Decl.position, Decl.fields, own.ownPosition, own.ownFields, List.map_map]
    rfl

theorem Module.Mirrors.positions {written : WrittenModule} {module : Module}
    (mirrors : module.Mirrors written) :
    module.nodes.map ModuleNode.position = written.positions := by
  have each : ∀ {decls : List Decl} {items : List WrittenItem},
      List.Forall₂ (fun decl item => decl.Mirrors written.name item) decls items →
      (decls.flatMap fun decl => decl.position :: decl.fields.map PlacedField.position) =
        items.flatMap WrittenItem.positions := by
    intro decls items all
    induction all with
    | nil => rfl
    | cons own _ ih => rw [List.flatMap_cons, List.flatMap_cons, own.positions, ih]
  rw [WrittenModule.positions, ← mirrors.position, ← each mirrors.decls]
  simp [Module.nodes, List.map_flatMap, ModuleNode.position, Function.comp_def]

namespace Module

variable {text : List Char} {module : Module}

/-- A module that is read stands on the lexemes of its text, which are told by the text. The nodes have
the positions of the constructs that they stand for: each lexeme of the text has the line and column of
its first character, whatever layout is between the lexemes, and the nodes come in order of their
positions. -/
theorem positions_of_parse {file : Option String} (parsed : parse text file = .ok (.ok module)) :
    ∃ written occurrences, WrittenModule.read text = .ok written ∧
      (∀ others, Consumes text module others ↔ others = occurrences) ∧
      written.Stands occurrences ∧ module.Mirrors written ∧
      (∀ occurrence ∈ occurrences, occurrence.StandsIn text ∧ occurrence.lexeme.text ≠ [] ∧
        occurrence.position = ⟨1 + occurrence.before.count '\n',
          1 + (Text.lastLine occurrence.before).length⟩) ∧
      (module.nodes.map ModuleNode.position).Sublist (occurrences.map Occurrence.position) ∧
      (module.nodes.map ModuleNode.position).Pairwise Position.Before := by
  obtain ⟨occurrences, only, _⟩ := words_apart parsed
  obtain ⟨written, reads, built⟩ := (only occurrences).mpr rfl
  have stands := WrittenModule.stands_of_reads reads
  have mirrors := WrittenModule.mirrors_of_build built
  have inOrder : (module.nodes.map ModuleNode.position).Sublist
      (occurrences.map Occurrence.position) := mirrors.positions ▸ stands.sublist
  refine ⟨written, occurrences, Machine.run_eq_ok_iff.mpr ⟨_, reads⟩, only, stands, mirrors, ?_,
    inOrder, reads.pairwise_before.sublist inOrder⟩
  intro occurrence member
  exact ⟨reads.standsIn occurrence member, reads.filled occurrence member,
    Position.start_advance _⟩

/-- A text with tabs, carriage returns, empty lines and comments between and inside its items. -/
def laidOutText : List Char :=
  ("# a\tcomment\r\n\tmodule m;\r\n\n public # own line\n\ttype T = unit \x7b\n" ++
    "\ta\r: bool; b:a<T>;# c\n\x7d;import x;").toList

theorem positions_of_parse_laidOut : ∃ module, parse laidOutText none = .ok (.ok module) ∧
    module.nodes.map ModuleNode.position = [⟨2, 2⟩, ⟨4, 2⟩, ⟨6, 2⟩, ⟨6, 12⟩, ⟨7, 3⟩] ∧
      (module.nodes.map ModuleNode.position).Pairwise Position.Before := by
  have found : ∃ module ∈ (parse laidOutText none).toOption.bind Except.toOption,
      module.nodes.map ModuleNode.position = [⟨2, 2⟩, ⟨4, 2⟩, ⟨6, 2⟩, ⟨6, 12⟩, ⟨7, 3⟩] := by
    decide +kernel
  obtain ⟨module, parses, positions⟩ := found
  obtain ⟨reading, isReading, isModule⟩ := Option.bind_eq_some_iff.mp parses
  have parsed : parse laidOutText none = .ok (.ok module) := by
    rw [eq_ok_of_toOption isReading, eq_ok_of_toOption isModule]
  obtain ⟨_, _, _, _, _, _, _, _, inOrder⟩ := positions_of_parse parsed
  exact ⟨module, parsed, positions, inOrder⟩

end Module

end WireModules
