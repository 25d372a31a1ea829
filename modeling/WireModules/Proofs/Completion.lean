import WireModules.Proofs.ModuleReading

/-!
# Every state can be completed

From each state of the machine that reads modules some words lead to the end of a module, so no text
that has been read up to some place is beyond repair there.
-/

set_option autoImplicit false

namespace WireModules

open Word ModuleTree

/-! ## The words that complete a state -/

/-- What closes references that are still open. -/
def closers (outer : List OpenRef) : List Word :=
  outer.map fun _ => ofTerminal .moreThan

def RefState.completion : RefState → List Word
  | .wanted outer | .scoped outer _ => Word.name "x" :: closers outer
  | .named outer _ | .closed outer _ => closers outer

def LabelsState.completion : LabelsState → List Word
  | .opening => [ofTerminal .leftBrace, Word.name "x", ofTerminal .rightBrace]
  | .first => [Word.name "x", ofTerminal .rightBrace]
  | .valued _ _ => [Word.integer "0", ofTerminal .rightBrace]
  | .labelled _ _ | .between _ | .next _ => [ofTerminal .rightBrace]

def FieldsState.completion : FieldsState → List Word
  | .opening => [ofTerminal .leftBrace, ofTerminal .rightBrace]
  | .next _ => [ofTerminal .rightBrace]
  | .fieldNamed _ _ =>
    [ofTerminal .colon, Word.name "x", ofTerminal .semicolon, ofTerminal .rightBrace]
  | .typed _ _ ref => ref.completion ++ [ofTerminal .semicolon, ofTerminal .rightBrace]

def BodyState.completion : BodyState → List Word
  | .opening => [ofTerminal .unit, ofTerminal .leftBrace, ofTerminal .rightBrace, ofTerminal .semicolon]
  | .enum labels => labels.completion ++ [ofTerminal .semicolon]
  | .fields _ inner => inner.completion ++ [ofTerminal .semicolon]
  | .alias target => target.completion ++ [ofTerminal .semicolon]
  | .closing _ => [ofTerminal .semicolon]

namespace ItemState

/-- What completes a constant from its name on. -/
def constantWords : List Word :=
  [Word.name "x", ofTerminal .equal, Word.integer "0", ofTerminal .semicolon]

def completion : ItemState → List Word
  | .importing _ => [Word.name "x", ofTerminal .semicolon]
  | .imported _ _ => [ofTerminal .semicolon]
  | .linked _ => ofTerminal .const :: constantWords
  | .constant _ => constantWords
  | .constantNamed _ _ => constantWords.drop 1
  | .constantEqual _ _ => constantWords.drop 2
  | .constantValued _ _ _ => constantWords.drop 3
  | .type _ => Word.name "x" :: ofTerminal .equal :: BodyState.opening.completion
  | .typeNamed _ _ => ofTerminal .equal :: BodyState.opening.completion
  | .typeBody _ _ body => body.completion

end ItemState

def ModuleState.completion : ModuleState → List Word
  | .start => [ofTerminal .module, Word.name "x", ofTerminal .semicolon]
  | .heading _ => [Word.name "x", ofTerminal .semicolon]
  | .named _ _ => [ofTerminal .semicolon]
  | .items _ _ _ => []
  | .item _ _ _ current => current.completion

/-! ## Where they lead -/

namespace ModuleReading

variable {goal : ModuleState → Prop} {rest : List Word}

theorem isIdentifier_x : IsIdentifier "x" := rfl

theorem leads_closers {host : RefState → ModuleState} (hosts : Hosts host) {outer : List OpenRef}
    {ref : TypeRef} {ended : RefState} (ends : Ends outer ref ended)
    (later : ∀ ref ended, Ends [] ref ended → Leads goal (host ended) rest) :
    Leads goal (host ended) (closers outer ++ rest) := by
  induction outer generalizing ref ended with
  | nil => exact later ref ended ends
  | cons inner outer ih =>
    refine leads_fixed (by decide) (hosts.stepped ends.steps.2) fun _ => ?_
    exact ih (.closed _)

theorem leads_refCompletion {host : RefState → ModuleState} (hosts : Hosts host) (state : RefState)
    (later : ∀ ref ended, Ends [] ref ended → Leads goal (host ended) rest) :
    Leads goal (host state) (state.completion ++ rest) := by
  match state with
  | .wanted outer =>
    refine leads_name isIdentifier_x (hosts.stepped rfl) (hosts.freeWanted outer) fun token _ => ?_
    exact leads_closers hosts (.named token.text) later
  | .scoped outer scope =>
    refine leads_name isIdentifier_x (hosts.stepped rfl) (hosts.freeScoped outer scope) fun token _ => ?_
    exact leads_closers hosts (.named _) later
  | .named outer last => exact leads_closers hosts (.named last) later
  | .closed outer ref => exact leads_closers hosts (.closed ref) later

section Body

variable {position : Position} {name typeName : String} {done : List WrittenItem}
  {heading : Heading}

theorem leads_labelsCompletion (labels : LabelsState)
    (later : ∀ written, Leads goal
      (inBody position name done heading typeName (.closing (.enum written))) rest) :
    Leads goal (inBody position name done heading typeName (.enum labels))
      (labels.completion ++ rest) := by
  have closed : ∀ {labels : LabelsState} {written : List WrittenLabel},
      labels.step .rightBrace = some (fun _ => .done written) →
      Leads goal (inBody position name done heading typeName (.enum labels))
        (ofTerminal .rightBrace :: rest) := fun stepped =>
    leads_fixed (by decide) (step_inBody (step_closing stepped)) fun _ => later _
  have labelled : Leads goal (inBody position name done heading typeName (.enum .first))
      (Word.name "x" :: ofTerminal .rightBrace :: rest) :=
    leads_name isIdentifier_x (step_inBody (step_enum rfl)) rfl fun _ _ => closed rfl
  cases labels with
  | opening => exact leads_fixed (by decide) (step_inBody (step_enum rfl)) fun _ => labelled
  | first => exact labelled
  | valued read label =>
    exact leads_integer (by decide) (step_inBody (step_enum rfl)) fun _ _ => closed rfl
  | labelled read label => exact closed rfl
  | between read => exact closed rfl
  | next read => exact closed rfl

theorem leads_fieldsCompletion {form : FieldsForm} (fields : FieldsState)
    (later : ∀ written, Leads goal
      (inBody position name done heading typeName (.closing (.fields form written))) rest) :
    Leads goal (inBody position name done heading typeName (.fields form fields))
      (fields.completion ++ rest) := by
  have closed : ∀ read, Leads goal
      (inBody position name done heading typeName (.fields form (.next read)))
        (ofTerminal .rightBrace :: rest) := fun read =>
    leads_fixed (by decide) (step_inBody rfl) fun _ => later _
  have typed : ∀ {read : List WrittenField} {field : Token} {ref : TypeRef} {ended : RefState},
      Ends [] ref ended → Leads goal
        (inBody position name done heading typeName (.fields form (.typed read field ended)))
          (ofTerminal .semicolon :: ofTerminal .rightBrace :: rest) := fun ends =>
    leads_fixed (by decide) (step_inBody (step_field ends)) fun _ => closed _
  cases fields with
  | opening => exact leads_fixed (by decide) (step_inBody rfl) fun _ => closed []
  | next read => exact closed read
  | fieldNamed read field =>
    refine leads_colon (step_inBody rfl) rfl fun _ => ?_
    exact leads_name isIdentifier_x (hosts_field.stepped rfl) rfl fun token _ =>
      typed (.named token.text)
  | typed read field ref =>
    have whole : (FieldsState.typed read field ref).completion ++ rest =
        ref.completion ++ (ofTerminal .semicolon :: ofTerminal .rightBrace :: rest) := by
      simp [FieldsState.completion]
    rw [whole]
    exact leads_refCompletion hosts_field ref fun _ _ ends => typed ends

theorem leads_bodyCompletion (body : BodyState)
    (later : ∀ items, goal (.items position name items)) :
    Leads goal (inBody position name done heading typeName body) body.completion := by
  have closed : ∀ written, Leads goal
      (inBody position name done heading typeName (.closing written)) [ofTerminal .semicolon] :=
    fun written => leads_fixed (by decide) (step_done rfl) fun _ => later _
  cases body with
  | opening =>
    refine leads_fixed (by decide) (step_inBody rfl) fun _ => ?_
    exact leads_fieldsCompletion .opening fun _ => closed _
  | enum labels => exact leads_labelsCompletion labels fun _ => closed _
  | fields form fields => exact leads_fieldsCompletion fields fun _ => closed _
  | «alias» target =>
    refine leads_refCompletion hosts_alias target fun _ _ ends => ?_
    exact leads_fixed (by decide) (step_done (step_alias ends)) fun _ => later _
  | closing written => exact closed written

end Body

section Item

variable {position : Position} {name : String} {done : List WrittenItem}

theorem leads_itemCompletion (current : ItemState) (later : ∀ items, goal (.items position name items)) :
    Leads goal (.item position name done current) current.completion := by
  have imported : ∀ begin imported,
      Leads goal (.item position name done (.imported begin imported)) [ofTerminal .semicolon] :=
    fun _ _ => leads_fixed (by decide) rfl fun _ => later _
  have valued : ∀ heading constant literal,
      Leads goal (.item position name done (.constantValued heading constant literal))
        (ItemState.constantWords.drop 3) :=
    fun _ _ _ => leads_fixed (by decide) rfl fun _ => later _
  have equal : ∀ heading constant,
      Leads goal (.item position name done (.constantEqual heading constant))
        (ItemState.constantWords.drop 2) :=
    fun _ _ => leads_integer (by decide) (step_item rfl) fun _ _ => valued _ _ _
  have named : ∀ heading constant,
      Leads goal (.item position name done (.constantNamed heading constant))
        (ItemState.constantWords.drop 1) :=
    fun _ _ => leads_fixed (by decide) (step_item rfl) fun _ => equal _ _
  have constant : ∀ heading,
      Leads goal (.item position name done (.constant heading)) ItemState.constantWords :=
    fun _ => leads_name isIdentifier_x (step_item rfl) rfl fun _ _ => named _ _
  have typeNamed : ∀ heading typeName,
      Leads goal (.item position name done (.typeNamed heading typeName))
        (ofTerminal .equal :: BodyState.opening.completion) :=
    fun _ _ => leads_fixed (by decide) (step_item rfl) fun _ => leads_bodyCompletion .opening later
  cases current with
  | importing begin => exact leads_name isIdentifier_x (step_item rfl) rfl fun _ _ => imported _ _
  | imported begin importedName => exact imported _ _
  | linked heading => exact leads_fixed (by decide) (step_item rfl) fun _ => constant _
  | constant heading => exact constant heading
  | constantNamed heading constantName => exact named _ _
  | constantEqual heading constantName => exact equal _ _
  | constantValued heading constantName literal => exact valued _ _ _
  | type heading => exact leads_name isIdentifier_x (step_item rfl) rfl fun _ _ => typeNamed _ _
  | typeNamed heading typeName => exact typeNamed _ _
  | typeBody heading typeName body => exact leads_bodyCompletion body later

end Item

/-- From every state its completion leads to the end of a module. -/
theorem leads_completion (state : ModuleState) :
    Leads (fun last => (last.finish?).isSome = true) state state.completion := by
  have ended : ∀ position name items,
      ((ModuleState.items position name items).finish?).isSome = true := fun _ _ _ => rfl
  have named : ∀ position name, Leads (fun last => (last.finish?).isSome = true)
      (.named position name) [ofTerminal .semicolon] :=
    fun _ _ => leads_fixed (by decide) rfl fun _ => ended _ _ _
  have heading : ∀ position, Leads (fun last => (last.finish?).isSome = true)
      (.heading position) [Word.name "x", ofTerminal .semicolon] :=
    fun _ => leads_name isIdentifier_x rfl rfl fun _ _ => named _ _
  cases state with
  | start => exact leads_fixed (by decide) rfl fun _ => heading _
  | heading position => exact heading position
  | named position name => exact named position name
  | items position name items => exact ended _ _ _
  | item position name done current => exact leads_itemCompletion current fun _ => ended _ _ _

end ModuleReading

end WireModules
