import WireModules.Proofs.Standing

/-!
# The shape of accepted texts

A module stands on the lexemes of its text. What their terminals alone say of it is a shape: the
heading of the module, and then its items, with the bodies of types in outline.
-/

set_option autoImplicit false

namespace WireModules

/-- The terminals of a list in braces. -/
def InBraces (terminals : List Terminal) : Prop :=
  ∃ inner, terminals = .leftBrace :: (inner ++ [.rightBrace])

inductive WrittenBody.Shape : WrittenBody → List Terminal → Prop where
  | enum {list : List Terminal} (labels : List WrittenLabel) :
      InBraces list → Shape (.enum labels) (.enum :: list)
  | fields {list : List Terminal} (form : FieldsForm) (fields : List WrittenField) :
      InBraces list → Shape (.fields form fields) (form.terminal :: list)
  | alias (target : TypeRef) (inner : List Terminal) : Shape (.alias target) (.name :: inner)

inductive WrittenItem.Shape : WrittenItem → List Terminal → Prop where
  | imported (position : Position) (name : String) :
      Shape (.imported position name) [.importWord, .name, .semicolon]
  | constant {heading : Heading} {linkage : List Terminal} (name literal : String) :
      heading.linkage.Shape linkage →
      Shape (.constant heading name literal)
        (linkage ++ [.const, .name, .equal, .integer, .semicolon])
  | type {heading : Heading} {linkage inner : List Terminal} {body : WrittenBody} (name : String) :
      heading.linkage.Shape linkage → body.Shape inner →
      Shape (.type heading name body) (linkage ++ ([.type, .name, .equal] ++ inner) ++ [.semicolon])

/-- The terminals of a module: its heading, and then those of its items. -/
def WrittenModule.Shape (written : WrittenModule) (terminals : List Terminal) : Prop :=
  ∃ parts, List.Forall₂ WrittenItem.Shape written.items parts ∧
    terminals = [.module, .name, .semicolon] ++ parts.flatten

/-! ## What stands has a shape -/

theorem ScopedName.begins {name : String} {own : List Occurrence} (named : ScopedName name own) :
    ∃ first others, own = first :: others ∧ first.terminal = .name := by
  induction named with
  | @name part isName => exact ⟨part, [], rfl, isName⟩
  | joined _ _ _ ih =>
    obtain ⟨first, others, rfl, isName⟩ := ih
    exact ⟨first, _, rfl, isName⟩

theorem TypeRef.Stands.begins {ref : TypeRef} {own : List Occurrence} (stands : ref.Stands own) :
    ∃ first others, own = first :: others ∧ first.terminal = .name := by
  cases stands with
  | plain named => exact named.begins
  | applied named _ _ _ =>
    obtain ⟨first, others, rfl, isName⟩ := named.begins
    exact ⟨first, _, rfl, isName⟩

theorem Braced.inBraces {Inside : List Occurrence → Prop} {own : List Occurrence}
    (braced : Braced Inside own) : InBraces (own.map Occurrence.terminal) := by
  obtain ⟨left, inner, right, isLeft, isRight, _, rfl⟩ := braced
  exact ⟨inner.map Occurrence.terminal, by simp [isLeft, isRight]⟩

theorem WrittenBody.Stands.shape {body : WrittenBody} {own : List Occurrence}
    (stands : body.Stands own) : body.Shape (own.map Occurrence.terminal) := by
  cases stands with
  | enum isWord braced =>
    rw [List.map_cons, isWord]
    exact .enum _ braced.inBraces
  | fields isWord braced =>
    rw [List.map_cons, isWord]
    exact .fields _ _ braced.inBraces
  | «alias» standsTarget =>
    obtain ⟨first, others, rfl, isName⟩ := standsTarget.begins
    rw [List.map_cons, isName]
    exact .alias _ _

theorem WrittenItem.Stands.shape {item : WrittenItem} {own : List Occurrence}
    (stands : item.Stands own) : item.Shape (own.map Occurrence.terminal) := by
  cases stands with
  | imported shaped =>
    rw [shaped]
    exact .imported _ _
  | constant heading shaped =>
    rw [List.map_append, shaped]
    exact .constant _ _ heading.shaped
  | type heading shaped standsBody isSemicolon =>
    simp only [List.map_append, shaped, List.map_cons, List.map_nil, isSemicolon]
    exact .type _ heading.shaped standsBody.shape

theorem WrittenModule.Stands.shape {written : WrittenModule} {own : List Occurrence}
    (stands : written.Stands own) : written.Shape (own.map Occurrence.terminal) := by
  cases stands with
  | module shaped items =>
    obtain ⟨parts, all, rfl⟩ := items
    refine ⟨parts.map (List.map Occurrence.terminal), ?_, ?_⟩
    · exact List.forall₂_map_right_iff.mpr (all.imp fun _ _ standsItem => standsItem.shape)
    · rw [List.map_append, shaped, List.map_flatten]

/-- Every accepted text has the shape of a module. -/
theorem WrittenModule.shape_of_read {written : WrittenModule} {text : List Char}
    {occurrences : List Occurrence}
    (reads : machine.Reads written machine.start [] text occurrences) :
    written.Shape (occurrences.map Occurrence.terminal) :=
  (stands_of_reads reads).shape

end WireModules
