import Mathlib.Data.List.Forall2
import WireModules.Module.Grammar
import WireModules.Proofs.PlainReferences
import WireModules.Proofs.Reading

/-!
# Where the parts of a module stand

The lexemes of a text that is read as a module begin with the heading of the module. Items follow,
each an import, a constant or a type, and the body of a type is an enum, a unit, a struct or a
reference. Each part stands on lexemes of its own, and has its name and its position from them. A
module is built from these parts and no others.
-/

set_option autoImplicit false

namespace WireModules

namespace Occurrence

def position (occurrence : Occurrence) : Position :=
  Position.start.advance occurrence.before

def word (occurrence : Occurrence) : String :=
  String.ofList occurrence.lexeme.text

end Occurrence

/-! ## The parts -/

/-- Items stand one after the other, and nothing between them. -/
def Sequence {Item : Type} (Stands : Item → List Occurrence → Prop) (items : List Item)
    (own : List Occurrence) : Prop :=
  ∃ parts, List.Forall₂ Stands items parts ∧ own = parts.flatten

/-- Something stands in braces. -/
def Braced (Inside : List Occurrence → Prop) (own : List Occurrence) : Prop :=
  ∃ left inner right, left.terminal = .leftBrace ∧ right.terminal = .rightBrace ∧ Inside inner ∧
    own = left :: (inner ++ [right])

/-- Names that are joined by scope signs. -/
inductive ScopedName : String → List Occurrence → Prop where
  | name {part : Occurrence} : part.terminal = .name → ScopedName part.word [part]
  | joined {name : String} {own : List Occurrence} {scope part : Occurrence} :
      ScopedName name own → scope.terminal = .scope → part.terminal = .name →
      ScopedName (extendName name part.word) (own ++ [scope, part])

mutual

inductive TypeRef.Stands : TypeRef → List Occurrence → Prop where
  | plain {name : String} {own : List Occurrence} : ScopedName name own → Stands { name } own
  | applied {name : String} {args : List TypeRef} {front inner : List Occurrence}
      {less more : Occurrence} : ScopedName name front → less.terminal = .lessThan →
      ArgsStand args inner → more.terminal = .moreThan →
      Stands { name, args } (front ++ [less] ++ inner ++ [more])

/-- Arguments of a reference, which have commas between them. -/
inductive TypeRef.ArgsStand : List TypeRef → List Occurrence → Prop where
  | first {arg : TypeRef} {own : List Occurrence} : TypeRef.Stands arg own → ArgsStand [arg] own
  | next {args : List TypeRef} {arg : TypeRef} {before own : List Occurrence} {comma : Occurrence} :
      ArgsStand args before → comma.terminal = .comma → TypeRef.Stands arg own →
      ArgsStand (args ++ [arg]) (before ++ [comma] ++ own)

end

inductive WrittenLabel.Stands : WrittenLabel → List Occurrence → Prop where
  | plain {name : Occurrence} : name.terminal = .name →
      Stands ⟨name.word, name.position, none⟩ [name]
  | explicit {name equal value : Occurrence} :
      [name, equal, value].map Occurrence.terminal = [.name, .equal, .integer] →
      Stands ⟨name.word, name.position, some value.word⟩ [name, equal, value]

/-- A label and the comma after it. -/
inductive WrittenLabel.Followed : WrittenLabel → List Occurrence → Prop where
  | comma {label : WrittenLabel} {own : List Occurrence} {comma : Occurrence} :
      label.Stands own → comma.terminal = .comma → Followed label (own ++ [comma])

/-- Labels have commas between them, and may have one after the last. -/
inductive WrittenLabel.Listed : List WrittenLabel → List Occurrence → Prop where
  | separated {front : List WrittenLabel} {own last : List Occurrence} {label : WrittenLabel} :
      Sequence WrittenLabel.Followed front own → label.Stands last →
      Listed (front ++ [label]) (own ++ last)
  | terminated {labels : List WrittenLabel} {own : List Occurrence} : labels ≠ [] →
      Sequence WrittenLabel.Followed labels own → Listed labels own

inductive WrittenField.Stands : WrittenField → List Occurrence → Prop where
  | field {name colon semicolon : Occurrence} {type : List Occurrence} {ref : TypeRef} :
      [name, colon, semicolon].map Occurrence.terminal = [.name, .colon, .semicolon] →
      ref.Stands type →
      Stands ⟨name.word, name.position, ref⟩ (name :: colon :: (type ++ [semicolon]))

def FieldsForm.terminal : FieldsForm → Terminal
  | .unit => .unit
  | .struct => .struct

inductive WrittenBody.Stands : WrittenBody → List Occurrence → Prop where
  | enum {word : Occurrence} {list : List Occurrence} {labels : List WrittenLabel} :
      word.terminal = .enum → Braced (WrittenLabel.Listed labels) list →
      Stands (.enum labels) (word :: list)
  | fields {word : Occurrence} {list : List Occurrence} {form : FieldsForm}
      {fields : List WrittenField} : word.terminal = form.terminal →
      Braced (Sequence WrittenField.Stands fields) list → Stands (.fields form fields) (word :: list)
  | alias {own : List Occurrence} {target : TypeRef} : target.Stands own →
      Stands (.alias target) own

/-- The terminals of a linkage, which is private unless it is written. -/
inductive Linkage.Shape : Linkage → List Terminal → Prop where
  | unwritten : Shape .internal []
  | internal : Shape .internal [.privateWord]
  | external : Shape .external [.publicWord]

/-- A declaration starts with its linkage, or with its keyword if no linkage is written. -/
structure Heading.Stands (heading : Heading) (linkage : List Occurrence) (keyword : Occurrence) :
    Prop where
  shaped : heading.linkage.Shape (linkage.map Occurrence.terminal)
  placed : heading.position = (linkage.head?.getD keyword).position

inductive WrittenItem.Stands : WrittenItem → List Occurrence → Prop where
  | imported {word name semicolon : Occurrence} :
      [word, name, semicolon].map Occurrence.terminal = [.importWord, .name, .semicolon] →
      Stands (.imported word.position name.word) [word, name, semicolon]
  | constant {heading : Heading} {linkage : List Occurrence}
      {word name equal value semicolon : Occurrence} : heading.Stands linkage word →
      [word, name, equal, value, semicolon].map Occurrence.terminal =
        [.const, .name, .equal, .integer, .semicolon] →
      Stands (.constant heading name.word value.word)
        (linkage ++ [word, name, equal, value, semicolon])
  | type {heading : Heading} {linkage inner : List Occurrence} {body : WrittenBody}
      {word name equal semicolon : Occurrence} : heading.Stands linkage word →
      [word, name, equal].map Occurrence.terminal = [.type, .name, .equal] → body.Stands inner →
      semicolon.terminal = .semicolon →
      Stands (.type heading name.word body)
        (linkage ++ ([word, name, equal] ++ inner) ++ [semicolon])

inductive WrittenModule.Stands : WrittenModule → List Occurrence → Prop where
  | module {word name semicolon : Occurrence} {own : List Occurrence} {items : List WrittenItem} :
      [word, name, semicolon].map Occurrence.terminal = [.module, .name, .semicolon] →
      Sequence WrittenItem.Stands items own →
      Stands ⟨word.position, name.word, items⟩ ([word, name, semicolon] ++ own)

namespace Sequence

variable {Item : Type} {Stands : Item → List Occurrence → Prop} {items : List Item} {item : Item}
  {own more : List Occurrence}

theorem nil : Sequence Stands [] [] := ⟨[], .nil, rfl⟩

theorem snoc (before : Sequence Stands items own) (stands : Stands item more) :
    Sequence Stands (items ++ [item]) (own ++ more) := by
  obtain ⟨parts, all, rfl⟩ := before
  exact ⟨parts ++ [more], List.rel_append all (.cons stands .nil), by simp⟩

end Sequence

section Steps

variable {terminal : Terminal} {read : List Occurrence} {occurrence : Occurrence}

/-! ## Lists in braces -/

/-- Of a list in braces the items that are kept last first have been read, and then something. -/
def Opened {Item : Type} (Stands : Item → List Occurrence → Prop) (done : List Item)
    (current read : List Occurrence) : Prop :=
  ∃ left own, left.terminal = .leftBrace ∧ Sequence Stands done.reverse own ∧
    read = left :: (own ++ current)

namespace Opened

variable {Item : Type} {Stands : Item → List Occurrence → Prop} {done : List Item} {item : Item}
  {current : List Occurrence}

theorem begin (isLeft : occurrence.terminal = .leftBrace) : Opened Stands [] [] [occurrence] :=
  ⟨occurrence, [], isLeft, .nil, rfl⟩

theorem step (opened : Opened Stands done current read) (occurrence : Occurrence) :
    Opened Stands done (current ++ [occurrence]) (read ++ [occurrence]) := by
  obtain ⟨left, own, isLeft, all, rfl⟩ := opened
  exact ⟨left, own, isLeft, all, by simp⟩

theorem complete (opened : Opened Stands done current read) (stands : Stands item current) :
    Opened Stands (item :: done) [] read := by
  obtain ⟨left, own, isLeft, all, rfl⟩ := opened
  refine ⟨left, own ++ current, isLeft, ?_, by simp⟩
  rw [List.reverse_cons]
  exact all.snoc stands

theorem close {Inside : List Occurrence → Prop} (opened : Opened Stands done current read)
    (isRight : occurrence.terminal = .rightBrace)
    (inside : ∀ own, Sequence Stands done.reverse own → Inside (own ++ current)) :
    Braced Inside (read ++ [occurrence]) := by
  obtain ⟨left, own, isLeft, all, rfl⟩ := opened
  exact ⟨left, own ++ current, occurrence, isLeft, isRight, inside own all, by simp⟩

end Opened

/-- What has been read of a list of labels when a state is come to. -/
def LabelsState.Has : LabelsState → List Occurrence → Prop
  | .opening, read => read = []
  | .first, read => Opened WrittenLabel.Followed [] [] read
  | .labelled done label, read =>
    ∃ name, name.terminal = .name ∧ label = name.token ∧
      Opened WrittenLabel.Followed done [name] read
  | .valued done label, read =>
    ∃ name equal, name.terminal = .name ∧ equal.terminal = .equal ∧ label = name.token ∧
      Opened WrittenLabel.Followed done [name, equal] read
  | .between done, read =>
    ∃ label earlier own, done = label :: earlier ∧ label.Stands own ∧
      Opened WrittenLabel.Followed earlier own read
  | .next done, read => done ≠ [] ∧ Opened WrittenLabel.Followed done [] read

theorem LabelsState.Has.step {state : LabelsState}
    {advance : Token → Advance LabelsState (List WrittenLabel)} (has : state.Has read)
    (isTerminal : occurrence.terminal = terminal) (stepped : state.step terminal = some advance) :
    (advance occurrence.token).Holds (fun next => next.Has (read ++ [occurrence]))
      fun labels => Braced (WrittenLabel.Listed labels) (read ++ [occurrence]) := by
  unfold LabelsState.step at stepped
  split at stepped <;> cases stepped
  case h_1 =>
    cases has
    exact Opened.begin isTerminal
  case h_2 =>
    exact ⟨occurrence, isTerminal, rfl, Opened.step has occurrence⟩
  case h_3 =>
    obtain ⟨name, isName, isLabel, opened⟩ := has
    exact ⟨name, occurrence, isName, isTerminal, isLabel, opened.step occurrence⟩
  case h_4 =>
    obtain ⟨name, isName, rfl, opened⟩ := has
    exact ⟨by simp, (opened.step occurrence).complete (.comma (.plain isName) isTerminal)⟩
  case h_5 =>
    obtain ⟨name, isName, rfl, opened⟩ := has
    rw [Advance.Holds, List.reverse_cons]
    exact opened.close isTerminal fun own all => .separated all (.plain isName)
  case h_6 =>
    obtain ⟨name, equal, isName, isEqual, rfl, opened⟩ := has
    refine ⟨_, _, _, rfl, .explicit ?_, opened.step occurrence⟩
    simp [isName, isEqual, isTerminal]
  case h_7 =>
    obtain ⟨label, earlier, own, rfl, stands, opened⟩ := has
    exact ⟨by simp, (opened.step occurrence).complete (.comma stands isTerminal)⟩
  case h_8 =>
    obtain ⟨label, earlier, own, rfl, stands, opened⟩ := has
    rw [Advance.Holds, List.reverse_cons]
    exact opened.close isTerminal fun own all => .separated all stands
  case h_9 =>
    exact ⟨occurrence, isTerminal, rfl, has.2.step occurrence⟩
  case h_10 =>
    refine has.2.close isTerminal fun own all => ?_
    rw [List.append_nil]
    exact .terminated (by simpa using has.1) all

/-! ## References -/

/-- The arguments that a reference has so far, last first, and the comma after them. -/
def ArgsBegun (args : List TypeRef) (read : List Occurrence) : Prop :=
  (args = [] ∧ read = []) ∨ ∃ inner comma, TypeRef.ArgsStand args.reverse inner ∧
    comma.terminal = .comma ∧ read = inner ++ [comma]

theorem ArgsBegun.add {args : List TypeRef} {arg : TypeRef} {own : List Occurrence}
    (begun : ArgsBegun args read) (stands : arg.Stands own) :
    TypeRef.ArgsStand (arg :: args).reverse (read ++ own) := by
  rcases begun with ⟨rfl, rfl⟩ | ⟨inner, comma, all, isComma, rfl⟩
  · exact .first stands
  · rw [List.reverse_cons]
    exact .next all isComma stands

/-- What has been read of the references that are open, innermost first. -/
def OpenRefs.Have : List OpenRef → List Occurrence → Prop
  | [], read => read = []
  | opened :: outer, read =>
    ∃ before front less inner, Have outer before ∧ ScopedName opened.name front ∧
      less.terminal = .lessThan ∧ ArgsBegun opened.args inner ∧
      read = before ++ (front ++ [less] ++ inner)

def RefState.Has : RefState → List Occurrence → Prop
  | .wanted outer, read => OpenRefs.Have outer read
  | .scoped outer name, read =>
    ∃ before front scope, OpenRefs.Have outer before ∧ ScopedName name front ∧
      scope.terminal = .scope ∧ read = before ++ (front ++ [scope])
  | .named outer name, read =>
    ∃ before front, OpenRefs.Have outer before ∧ ScopedName name front ∧ read = before ++ front
  | .closed outer ref, read =>
    ∃ before own, OpenRefs.Have outer before ∧ ref.Stands own ∧ read = before ++ own

section Refs

variable {outer : List OpenRef} {before own : List Occurrence} {ref : TypeRef}

theorem RefState.has_of_nextArg {next : RefState} (openHave : OpenRefs.Have outer before)
    (stands : ref.Stands own) (isComma : occurrence.terminal = .comma)
    (goesOn : nextArg outer ref = some next) : next.Has (before ++ own ++ [occurrence]) := by
  cases outer with
  | nil => cases goesOn
  | cons opened rest =>
    cases goesOn
    obtain ⟨earlier, front, less, inner, outside, named, isLess, begun, rfl⟩ := openHave
    refine ⟨earlier, front, less, inner ++ own ++ [occurrence], outside, named, isLess, ?_, by simp⟩
    exact .inr ⟨_, _, begun.add stands, isComma, rfl⟩

theorem RefState.has_of_lastArg {next : RefState} (openHave : OpenRefs.Have outer before)
    (stands : ref.Stands own) (isMore : occurrence.terminal = .moreThan)
    (ends : lastArg outer ref = some next) : next.Has (before ++ own ++ [occurrence]) := by
  cases outer with
  | nil => cases ends
  | cons opened rest =>
    cases ends
    obtain ⟨earlier, front, less, inner, outside, named, isLess, begun, rfl⟩ := openHave
    refine ⟨earlier, _, outside, .applied named isLess (begun.add stands) isMore, by simp⟩

theorem RefState.Has.step {state : RefState} {next : Token → RefState} (has : state.Has read)
    (isTerminal : occurrence.terminal = terminal) (stepped : state.step terminal = some next) :
    (next occurrence.token).Has (read ++ [occurrence]) := by
  unfold RefState.step at stepped
  split at stepped
  case h_1 =>
    cases stepped
    exact ⟨read, [occurrence], has, .name isTerminal, rfl⟩
  case h_2 =>
    cases stepped
    obtain ⟨before, front, scope, outside, named, isScope, rfl⟩ := has
    exact ⟨before, _, outside, .joined named isScope isTerminal, by simp⟩
  case h_3 =>
    cases stepped
    obtain ⟨before, front, outside, named, rfl⟩ := has
    exact ⟨before, front, occurrence, outside, named, isTerminal, by simp⟩
  case h_4 =>
    cases stepped
    obtain ⟨before, front, outside, named, rfl⟩ := has
    exact ⟨before, front, occurrence, [], outside, named, isTerminal, .inl ⟨rfl, rfl⟩, by simp⟩
  case h_5 =>
    obtain ⟨state, goesOn, rfl⟩ := Option.map_eq_some_iff.mp stepped
    obtain ⟨before, front, outside, named, rfl⟩ := has
    exact has_of_nextArg outside (.plain named) isTerminal goesOn
  case h_6 =>
    obtain ⟨state, ends, rfl⟩ := Option.map_eq_some_iff.mp stepped
    obtain ⟨before, front, outside, named, rfl⟩ := has
    exact has_of_lastArg outside (.plain named) isTerminal ends
  case h_7 =>
    obtain ⟨state, goesOn, rfl⟩ := Option.map_eq_some_iff.mp stepped
    obtain ⟨before, own, outside, stands, rfl⟩ := has
    exact has_of_nextArg outside stands isTerminal goesOn
  case h_8 =>
    obtain ⟨state, ends, rfl⟩ := Option.map_eq_some_iff.mp stepped
    obtain ⟨before, own, outside, stands, rfl⟩ := has
    exact has_of_lastArg outside stands isTerminal ends
  case h_9 => cases stepped

theorem RefState.Has.finished {state : RefState} (has : state.Has read)
    (finished : state.finished? = some ref) : ref.Stands read := by
  unfold RefState.finished? at finished
  split at finished <;> cases finished
  · obtain ⟨before, front, outside, named, rfl⟩ := has
    cases outside
    exact .plain named
  · obtain ⟨before, own, outside, stands, rfl⟩ := has
    cases outside
    exact stands

end Refs

/-! ## Fields -/

def FieldsState.Has : FieldsState → List Occurrence → Prop
  | .opening, read => read = []
  | .next done, read => Opened WrittenField.Stands done [] read
  | .fieldNamed done label, read =>
    ∃ name, name.terminal = .name ∧ label = name.token ∧
      Opened WrittenField.Stands done [name] read
  | .typed done label ref, read =>
    ∃ name colon type, name.terminal = .name ∧ colon.terminal = .colon ∧ label = name.token ∧
      ref.Has type ∧ Opened WrittenField.Stands done (name :: colon :: type) read

theorem FieldsState.Has.step {state : FieldsState}
    {advance : Token → Advance FieldsState (List WrittenField)} (has : state.Has read)
    (isTerminal : occurrence.terminal = terminal) (stepped : state.step terminal = some advance) :
    (advance occurrence.token).Holds (fun next => next.Has (read ++ [occurrence]))
      fun fields => Braced (Sequence WrittenField.Stands fields) (read ++ [occurrence]) := by
  unfold FieldsState.step at stepped
  split at stepped
  case h_1 =>
    cases stepped
    cases has
    exact Opened.begin isTerminal
  case h_2 =>
    cases stepped
    exact ⟨occurrence, isTerminal, rfl, Opened.step has occurrence⟩
  case h_3 =>
    cases stepped
    exact Opened.close has isTerminal fun own all => (List.append_nil own).symm ▸ all
  case h_4 =>
    cases stepped
    obtain ⟨name, isName, isLabel, opened⟩ := has
    exact ⟨name, occurrence, [], isName, isTerminal, isLabel, rfl, opened.step occurrence⟩
  case h_5 =>
    obtain ⟨finished, ended, rfl⟩ := Option.map_eq_some_iff.mp stepped
    obtain ⟨name, colon, type, isName, isColon, rfl, hasRef, opened⟩ := has
    exact (opened.step occurrence).complete
      (.field (by simp [isName, isColon, isTerminal]) (hasRef.finished ended))
  case h_6 =>
    obtain ⟨next, goesOn, rfl⟩ := Option.map_eq_some_iff.mp stepped
    obtain ⟨name, colon, type, isName, isColon, isLabel, hasRef, opened⟩ := has
    exact ⟨name, colon, type ++ [occurrence], isName, isColon, isLabel,
      hasRef.step isTerminal goesOn, opened.step occurrence⟩
  case h_7 => cases stepped

/-! ## Bodies -/

def BodyState.Has : BodyState → List Occurrence → Prop
  | .opening, read => read = []
  | .enum labels, read => ∃ word list, word.terminal = .enum ∧ labels.Has list ∧ read = word :: list
  | .fields form inner, read =>
    ∃ word list, word.terminal = form.terminal ∧ inner.Has list ∧ read = word :: list
  | .alias target, read => target.Has read
  | .closing body, read => body.Stands read

theorem BodyState.Has.step {state : BodyState} {advance : Token → Advance BodyState WrittenBody}
    (has : state.Has read) (isTerminal : occurrence.terminal = terminal)
    (stepped : state.step terminal = some advance) :
    (advance occurrence.token).Holds (fun next => next.Has (read ++ [occurrence]))
      fun body => terminal = .semicolon ∧ body.Stands read := by
  unfold BodyState.step at stepped
  split at stepped
  case h_1 | h_2 | h_3 =>
    cases stepped
    cases has
    exact ⟨occurrence, [], isTerminal, rfl, rfl⟩
  case h_4 =>
    cases stepped
    cases has
    exact ⟨[], [occurrence], rfl, .name isTerminal, rfl⟩
  case h_5 =>
    obtain ⟨inner, innerStepped, rfl⟩ := Option.map_eq_some_iff.mp stepped
    obtain ⟨word, list, isWord, hasList, rfl⟩ := has
    exact (hasList.step isTerminal innerStepped).within
      (fun _ hasMore => ⟨word, _, isWord, hasMore, rfl⟩) fun _ braced => .enum isWord braced
  case h_6 =>
    obtain ⟨inner, innerStepped, rfl⟩ := Option.map_eq_some_iff.mp stepped
    obtain ⟨word, list, isWord, hasList, rfl⟩ := has
    exact (hasList.step isTerminal innerStepped).within
      (fun _ hasMore => ⟨word, _, isWord, hasMore, rfl⟩) fun _ braced => .fields isWord braced
  case h_7 =>
    obtain ⟨target, ended, rfl⟩ := Option.map_eq_some_iff.mp stepped
    exact ⟨rfl, .alias (RefState.Has.finished has ended)⟩
  case h_8 =>
    obtain ⟨next, goesOn, rfl⟩ := Option.map_eq_some_iff.mp stepped
    exact RefState.Has.step has isTerminal goesOn
  case h_9 =>
    cases stepped
    exact ⟨rfl, has⟩
  case h_10 => cases stepped

/-! ## Items -/

/-- What has been read begins with a linkage and a keyword. -/
def Heading.Begins (heading : Heading) (keyword : Occurrence) (own read : List Occurrence) : Prop :=
  ∃ linkage, heading.Stands linkage keyword ∧ read = linkage ++ keyword :: own

theorem Heading.Begins.step {heading : Heading} {keyword : Occurrence} {own : List Occurrence}
    (begins : heading.Begins keyword own read) (occurrence : Occurrence) :
    heading.Begins keyword (own ++ [occurrence]) (read ++ [occurrence]) := by
  obtain ⟨linkage, stands, rfl⟩ := begins
  exact ⟨linkage, stands, by simp⟩

def ItemState.Has : ItemState → List Occurrence → Prop
  | .importing position, read =>
    ∃ word, word.terminal = .importWord ∧ position = word.position ∧ read = [word]
  | .imported position name, read =>
    ∃ word label, word.terminal = .importWord ∧ label.terminal = .name ∧
      position = word.position ∧ name = label.word ∧ read = [word, label]
  | .linked heading, read =>
    ∃ word, heading.linkage.Shape [word.terminal] ∧ heading.position = word.position ∧ read = [word]
  | .constant heading, read => ∃ word, word.terminal = .const ∧ heading.Begins word [] read
  | .constantNamed heading name, read =>
    ∃ word label, [word, label].map Occurrence.terminal = [.const, .name] ∧ name = label.word ∧
      heading.Begins word [label] read
  | .constantEqual heading name, read =>
    ∃ word label equal, [word, label, equal].map Occurrence.terminal = [.const, .name, .equal] ∧
      name = label.word ∧ heading.Begins word [label, equal] read
  | .constantValued heading name literal, read =>
    ∃ word label equal value,
      [word, label, equal, value].map Occurrence.terminal = [.const, .name, .equal, .integer] ∧
      name = label.word ∧ literal = value.word ∧ heading.Begins word [label, equal, value] read
  | .type heading, read => ∃ word, word.terminal = .type ∧ heading.Begins word [] read
  | .typeNamed heading name, read =>
    ∃ word label, [word, label].map Occurrence.terminal = [.type, .name] ∧ name = label.word ∧
      heading.Begins word [label] read
  | .typeBody heading name body, read =>
    ∃ word label equal inner, [word, label, equal].map Occurrence.terminal = [.type, .name, .equal] ∧
      name = label.word ∧ body.Has inner ∧ heading.Begins word ([label, equal] ++ inner) read

theorem ItemState.has_first {begin : Token → ItemState} (isTerminal : occurrence.terminal = terminal)
    (stepped : ItemState.first terminal = some begin) :
    (begin occurrence.token).Has [occurrence] := by
  unfold ItemState.first at stepped
  split at stepped <;> cases stepped
  case h_1 => exact ⟨occurrence, isTerminal, rfl, rfl⟩
  case h_2 => exact ⟨occurrence, isTerminal ▸ .internal, rfl, rfl⟩
  case h_3 => exact ⟨occurrence, isTerminal ▸ .external, rfl, rfl⟩
  case h_4 | h_5 => exact ⟨occurrence, isTerminal, [], ⟨.unwritten, rfl⟩, rfl⟩

theorem ItemState.Has.step {state : ItemState} {advance : Token → Advance ItemState WrittenItem}
    (has : state.Has read) (isTerminal : occurrence.terminal = terminal)
    (stepped : state.step terminal = some advance) :
    (advance occurrence.token).Holds (fun next => next.Has (read ++ [occurrence]))
      fun item => item.Stands (read ++ [occurrence]) := by
  unfold ItemState.step at stepped
  split at stepped
  case h_1 =>
    cases stepped
    obtain ⟨word, isWord, placed, rfl⟩ := has
    exact ⟨word, occurrence, isWord, isTerminal, placed, rfl, rfl⟩
  case h_2 =>
    cases stepped
    obtain ⟨word, label, isWord, isLabel, rfl, rfl, rfl⟩ := has
    exact .imported (by simp [isWord, isLabel, isTerminal])
  case h_3 | h_4 =>
    cases stepped
    obtain ⟨word, shaped, placed, rfl⟩ := has
    exact ⟨occurrence, isTerminal, [word], ⟨shaped, placed⟩, rfl⟩
  case h_5 | h_9 =>
    cases stepped
    obtain ⟨word, isWord, begins⟩ := has
    exact ⟨word, occurrence, by simp [isWord, isTerminal], rfl, begins.step occurrence⟩
  case h_6 =>
    cases stepped
    obtain ⟨word, label, shaped, named, begins⟩ := has
    refine ⟨word, label, occurrence, ?_, named, begins.step occurrence⟩
    simp_all
  case h_7 =>
    cases stepped
    obtain ⟨word, label, equal, shaped, named, begins⟩ := has
    refine ⟨word, label, equal, occurrence, ?_, named, rfl, begins.step occurrence⟩
    simp_all
  case h_8 =>
    cases stepped
    obtain ⟨word, label, equal, value, shaped, rfl, rfl, linkage, stands, rfl⟩ := has
    rw [Advance.Holds, List.append_assoc]
    refine .constant stands ?_
    simp_all
  case h_10 =>
    cases stepped
    obtain ⟨word, label, shaped, named, begins⟩ := has
    refine ⟨word, label, occurrence, [], ?_, named, rfl, begins.step occurrence⟩
    simp_all
  case h_11 =>
    obtain ⟨inner, innerStepped, rfl⟩ := Option.map_eq_some_iff.mp stepped
    obtain ⟨word, label, equal, list, shaped, rfl, hasBody, begins⟩ := has
    refine (hasBody.step isTerminal innerStepped).within (fun _ hasMore => ?_) fun body ended => ?_
    · refine ⟨word, label, equal, _, shaped, rfl, hasMore, ?_⟩
      rw [← List.append_assoc]
      exact begins.step occurrence
    · obtain ⟨rfl, standsBody⟩ := ended
      obtain ⟨linkage, stands, rfl⟩ := begins
      exact .type stands shaped standsBody isTerminal
  case h_12 => cases stepped

/-! ## Modules -/

/-- The heading of a module has been read, and items that are kept last first. -/
def HeadingAndItems (position : Position) (name : String) (done : List WrittenItem)
    (read : List Occurrence) : Prop :=
  WrittenModule.Stands ⟨position, name, done.reverse⟩ read

theorem HeadingAndItems.snoc {position : Position} {name : String} {done : List WrittenItem}
    {item : WrittenItem} {own : List Occurrence} (before : HeadingAndItems position name done read)
    (stands : item.Stands own) : HeadingAndItems position name (item :: done) (read ++ own) := by
  cases before with
  | module shaped items =>
    rw [HeadingAndItems, List.reverse_cons, List.append_assoc]
    exact .module shaped (items.snoc stands)

def ModuleState.Has : ModuleState → List Occurrence → Prop
  | .start, read => read = []
  | .heading position, read =>
    ∃ word, word.terminal = .module ∧ position = word.position ∧ read = [word]
  | .named position name, read =>
    ∃ word label, word.terminal = .module ∧ label.terminal = .name ∧ position = word.position ∧
      name = label.word ∧ read = [word, label]
  | .items position name done, read => HeadingAndItems position name done read
  | .item position name done current, read =>
    ∃ before own, HeadingAndItems position name done before ∧ current.Has own ∧ read = before ++ own

theorem ModuleState.Has.step {state : ModuleState} {next : Token → ModuleState}
    (has : state.Has read) (isTerminal : occurrence.terminal = terminal)
    (stepped : state.step terminal = some next) :
    (next occurrence.token).Has (read ++ [occurrence]) := by
  unfold ModuleState.step at stepped
  split at stepped
  case h_1 =>
    cases stepped
    cases has
    exact ⟨occurrence, isTerminal, rfl, rfl⟩
  case h_2 =>
    cases stepped
    obtain ⟨word, isWord, placed, rfl⟩ := has
    exact ⟨word, occurrence, isWord, isTerminal, placed, rfl, rfl⟩
  case h_3 =>
    cases stepped
    obtain ⟨word, label, isWord, isLabel, rfl, rfl, rfl⟩ := has
    exact .module (by simp [isWord, isLabel, isTerminal]) .nil
  case h_4 =>
    obtain ⟨begin, begun, rfl⟩ := Option.map_eq_some_iff.mp stepped
    exact ⟨read, [occurrence], has, ItemState.has_first isTerminal begun, rfl⟩
  case h_5 =>
    obtain ⟨inner, innerStepped, rfl⟩ := Option.map_eq_some_iff.mp stepped
    obtain ⟨before, own, stands, hasOwn, rfl⟩ := has
    have led := hasOwn.step isTerminal innerStepped
    dsimp only
    rw [List.append_assoc]
    cases ended : inner occurrence.token with
    | more next =>
      rw [ended] at led
      exact ⟨before, _, stands, led, rfl⟩
    | done item =>
      rw [ended] at led
      exact stands.snoc led
  case h_6 => cases stepped

end Steps

theorem ModuleState.Has.reads {written : WrittenModule} {state : ModuleState}
    {past text : List Char} {occurrences read : List Occurrence} (has : state.Has read)
    (reads : WrittenModule.machine.Reads written state past text occurrences) :
    written.Stands (read ++ occurrences) := by
  induction reads generalizing read with
  | @finish state _ _ _ finished =>
    rw [List.append_nil]
    cases state with
    | items position name done =>
      cases finished
      exact has
    | _ => cases finished
  | @lexeme _ _ _ occurrence _ _ _ stepped _ ih =>
    rw [← List.singleton_append, ← List.append_assoc]
    exact ih (has.step rfl stepped)

/-- A module that is read stands on the lexemes of its text. -/
theorem WrittenModule.stands_of_reads {written : WrittenModule} {text : List Char}
    {occurrences : List Occurrence}
    (reads : machine.Reads written machine.start [] text occurrences) :
    written.Stands occurrences := by
  have nothing : ModuleState.start.Has [] := rfl
  exact nothing.reads reads

end WireModules
