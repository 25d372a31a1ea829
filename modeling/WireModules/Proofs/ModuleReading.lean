import WireModules.Proofs.MachineRun
import WireModules.Proofs.ModuleTree

/-!
# Reading a module from its words

The machine that reads modules takes the words of a tree one after the other, and what it has read
in the end is what the tree says.
-/

set_option autoImplicit false

namespace WireModules

open Word ModuleTree

namespace ModuleReading

abbrev Leads (goal : ModuleState → Prop) : ModuleState → List Word → Prop :=
  WrittenModule.machine.Leads goal

abbrev scansKeyword (state : ModuleState) : Bool :=
  WrittenModule.machine.scansKeyword state

variable {goal : ModuleState → Prop} {state : ModuleState} {next : Token → ModuleState}
  {rest : List Word}

/-! ## Single words -/

/-- The terminals of modules that are spelled and do not begin another terminal. -/
def isFixed (terminal : Terminal) : Bool :=
  WrittenModule.alphabet.contains terminal && terminal ∉ [.name, .integer, .colon]

theorem leads_fixed {terminal : Terminal} (fixed : isFixed terminal = true)
    (stepped : state.step terminal = some next) (later : ∀ token, Leads goal (next token) rest) :
    Leads goal state (ofTerminal terminal :: rest) := by
  have known : terminal ∈ WrittenModule.alphabet := by
    cases terminal <;> first | decide | cases fixed
  have spelled : terminal.isFixed = true := by
    cases terminal <;> first | rfl | cases fixed
  exact Machine.leads_fixed known spelled stepped later

theorem leads_colon (stepped : state.step .colon = some next)
    (unscoped : (WrittenModule.machine.scanned state).contains .scope = false)
    (later : ∀ token, Leads goal (next token) rest) :
    Leads goal state (ofTerminal .colon :: rest) :=
  Machine.leads_colon (by decide) stepped unscoped later

theorem leads_clearName {name : String} (named : IsIdentifier name)
    (stepped : state.step .name = some next)
    (clear : Terminal.name.Clear (WrittenModule.machine.scanned state) name.toList)
    (later : ∀ token : Token, token.text = name → Leads goal (next token) rest) :
    Leads goal state (Word.name name :: rest) :=
  Machine.leads_name (by decide) named stepped clear later

theorem leads_name {name : String} (named : IsIdentifier name)
    (stepped : state.step .name = some next) (free : scansKeyword state = false)
    (later : ∀ token : Token, token.text = name → Leads goal (next token) rest) :
    Leads goal state (Word.name name :: rest) :=
  leads_clearName named stepped (Machine.clear_of_not_scansKeyword free) later

theorem leads_integer {literal : String} (isInteger : Scan.isInteger literal.toList = true)
    (stepped : state.step .integer = some next)
    (later : ∀ token : Token, token.text = literal → Leads goal (next token) rest) :
    Leads goal state (Word.integer literal :: rest) := by
  have known : .integer ∈ WrittenModule.alphabet := by decide
  refine ⟨next, ⟨stepped, Machine.mem_scanned_of_step known stepped, isInteger, trivial⟩, ?_⟩
  intro token same
  exact later token (same.trans String.ofList_toList)

/-! ## References -/

/-- A part of the machine in which a reference is read. -/
structure Hosts (host : RefState → ModuleState) : Prop where
  stepped : ∀ {ref : RefState} {terminal : Terminal} {next : Token → RefState},
    ref.step terminal = some next →
      (host ref).step terminal = some fun token => host (next token)
  freeWanted : ∀ outer, scansKeyword (host (.wanted outer)) = false
  freeScoped : ∀ outer name, scansKeyword (host (.scoped outer name)) = false

/-- A reference has been read to its end, though more of its name might have come. -/
inductive Ends (outer : List OpenRef) : TypeRef → RefState → Prop where
  | named (name : String) : Ends outer { name } (.named outer name)
  | closed (ref : TypeRef) : Ends outer ref (.closed outer ref)

variable {host : RefState → ModuleState} {outer : List OpenRef}

theorem leads_scoped (hosts : Hosts host) {parts : List String} {name : String}
    (identifiers : ∀ part ∈ parts, IsIdentifier part)
    (later : Leads goal (host (.named outer (parts.foldl extendName name))) rest) :
    Leads goal (host (.named outer name)) (scopedWords parts ++ rest) := by
  induction parts generalizing name with
  | nil => exact later
  | cons part others ih =>
    refine leads_fixed (by decide) (hosts.stepped rfl) fun _ => ?_
    refine leads_name (identifiers part (.head _)) (hosts.stepped rfl) (hosts.freeScoped _ _) ?_
    intro token same
    rw [same]
    exact ih (fun other member => identifiers other (.tail _ member)) later

/-- What can follow an argument that has come to its end. -/
theorem Ends.steps {ref : TypeRef} {ended : RefState} {inner : OpenRef}
    (ends : Ends (inner :: outer) ref ended) :
    ended.step .comma = some (fun _ => .wanted (⟨inner.name, ref :: inner.args⟩ :: outer)) ∧
      ended.step .moreThan =
        some (fun _ => .closed outer { name := inner.name, args := (ref :: inner.args).reverse }) := by
  cases ends <;> exact ⟨rfl, rfl⟩

theorem Ends.finished {ref : TypeRef} {ended : RefState} (ends : Ends [] ref ended) :
    ended.finished? = some ref := by
  cases ends <;> rfl

mutual

/-- A reference of which the first part has come is read to its end. -/
theorem leads_ref (hosts : Hosts host) {ref : TypeRef} {first : String} {tail : List Word}
    (words : RefWords ref first tail) {outer : List OpenRef} {rest : List Word}
    (later : ∀ ended, Ends outer ref ended → Leads goal (host ended) rest) :
    Leads goal (host (.named outer first)) (tail ++ rest) :=
  match words with
  | .plain _ identifiers => leads_scoped hosts identifiers (later _ (.named _))
  | .generic _ identifiers argWords => by
    rw [List.append_assoc, List.append_assoc]
    refine leads_scoped hosts identifiers ?_
    refine leads_fixed (by decide) (hosts.stepped rfl) fun _ => ?_
    exact leads_args hosts argWords [] (later _ (.closed _))

/-- Arguments are read to the sign that closes them; `done` are those before, last first. -/
theorem leads_args (hosts : Hosts host) {args : List TypeRef} {words : List Word}
    (argWords : ArgWords args words) (done : List TypeRef) {name : String} {outer : List OpenRef}
    {rest : List Word}
    (later : Leads goal (host (.closed outer { name, args := done.reverse ++ args })) rest) :
    Leads goal (host (.wanted (⟨name, done⟩ :: outer)))
      (words ++ ofTerminal .moreThan :: rest) :=
  match argWords with
  | .last refWords => by
    refine leads_name refWords.isIdentifier (hosts.stepped rfl) (hosts.freeWanted _) ?_
    intro token same
    rw [same]
    refine leads_ref hosts refWords fun ended ends => ?_
    refine leads_fixed (by decide) (hosts.stepped ends.steps.2) fun _ => ?_
    rw [List.reverse_cons]
    exact later
  | .more refWords moreWords => by
    rw [List.append_assoc]
    refine leads_name refWords.isIdentifier (hosts.stepped rfl) (hosts.freeWanted _) ?_
    intro token same
    rw [same]
    refine leads_ref hosts refWords fun ended ends => ?_
    refine leads_fixed (by decide) (hosts.stepped ends.steps.1) fun _ => ?_
    refine leads_args hosts moreWords _ ?_
    rw [List.reverse_cons, List.append_assoc]
    exact later

end

/-! ## Bodies -/

/-- The part of a module in which the right side of a type declaration is read. -/
def inBody (position : Position) (name : String) (done : List WrittenItem) (heading : Heading)
    (typeName : String) (body : BodyState) : ModuleState :=
  .item position name done (.typeBody heading typeName body)

section Body

variable {position : Position} {name typeName : String} {done : List WrittenItem}
  {heading : Heading}

theorem step_semicolon_ref (ref : RefState) : ref.step .semicolon = none := by
  cases ref <;> rfl

theorem step_inBody {body : BodyState} {terminal : Terminal} {next : Token → BodyState}
    (stepped : body.step terminal = some fun token => .more (next token)) :
    (inBody position name done heading typeName body).step terminal =
      some fun token => inBody position name done heading typeName (next token) := by
  simp only [inBody, ModuleState.step, ItemState.step, stepped, Option.map_some, Advance.within]

theorem hosts_alias :
    Hosts fun ref => inBody position name done heading typeName (.alias ref) where
  stepped := by
    intro ref terminal next stepped
    have inAlias : (BodyState.alias ref).step terminal =
        some fun token => .more (.alias (next token)) := by
      cases terminal with
      | semicolon =>
        rw [step_semicolon_ref] at stepped
        cases stepped
      | _ => simp only [BodyState.step, stepped, Option.map_some]
    exact step_inBody inAlias
  freeWanted _ := rfl
  freeScoped _ _ := rfl

theorem hosts_field {form : FieldsForm} {fields : List WrittenField} {field : Token} :
    Hosts fun ref => inBody position name done heading typeName
      (.fields form (.typed fields field ref)) where
  stepped := by
    intro ref terminal next stepped
    have inField : (BodyState.fields form (.typed fields field ref)).step terminal =
        some fun token => .more (.fields form (.typed fields field (next token))) := by
      cases terminal with
      | semicolon =>
        rw [step_semicolon_ref] at stepped
        cases stepped
      | _ =>
        simp only [BodyState.step, FieldsState.step, stepped, Option.map_some, Advance.within]
    exact step_inBody inField
  freeWanted _ := rfl
  freeScoped _ _ := rfl

theorem step_enum {labels : LabelsState} {terminal : Terminal} {next : Token → LabelsState}
    (stepped : labels.step terminal = some fun token => .more (next token)) :
    (BodyState.enum labels).step terminal = some fun token => .more (.enum (next token)) := by
  simp only [BodyState.step, stepped, Option.map_some, Advance.within]

theorem step_closing {labels : LabelsState} {terminal : Terminal} {written : List WrittenLabel}
    (stepped : labels.step terminal = some fun _ => .done written) :
    (BodyState.enum labels).step terminal = some fun _ => .more (.closing (.enum written)) := by
  simp only [BodyState.step, stepped, Option.map_some, Advance.within]

/-- A label is read up to what may follow it. -/
theorem leads_label {count : Int} {label : EnumLabel} {words : List Word}
    (labelWords : LabelWords count label words) {before : LabelsState} {read : List WrittenLabel}
    (begins : before.step .name = some fun token => .more (.labelled read token))
    (free : scansKeyword (inBody position name done heading typeName (.enum before)) = false)
    (later : ∀ written after, LabelSays count written label →
      LabelsState.step after .comma = some (fun _ => .more (.next (written :: read))) →
      LabelsState.step after .rightBrace = some (fun _ => .done (written :: read).reverse) →
        Leads goal (inBody position name done heading typeName (.enum after)) rest) :
    Leads goal (inBody position name done heading typeName (.enum before)) (words ++ rest) := by
  cases labelWords with
  | counted named =>
    refine leads_name named (step_inBody (step_enum begins)) free ?_
    intro token same
    exact later (LabelsState.plain token) _ ⟨same, rfl⟩ rfl rfl
  | valued named isLiteral =>
    refine leads_name named (step_inBody (step_enum begins)) free ?_
    intro token same
    refine leads_fixed (by decide) (step_inBody (step_enum rfl)) fun _ => ?_
    refine leads_integer isLiteral.1 (step_inBody (step_enum rfl)) ?_
    intro value sameValue
    refine later (LabelsState.explicit token value) _ ⟨same, ?_⟩ rfl rfl
    rw [LabelsState.explicit, sameValue]
    exact isLiteral

theorem leads_labels {count : Int} {labels : List EnumLabel} {words : List Word}
    (labelsWords : LabelsWords count labels words) {before : LabelsState}
    {read : List WrittenLabel}
    (begins : before.step .name = some fun token => .more (.labelled read token))
    (free : scansKeyword (inBody position name done heading typeName (.enum before)) = false)
    (later : ∀ written, LabelsSay count written labels → Leads goal
      (inBody position name done heading typeName (.closing (.enum (read.reverse ++ written))))
        rest) :
    Leads goal (inBody position name done heading typeName (.enum before))
      (words ++ ofTerminal .rightBrace :: rest) := by
  -- What is read so far grows along the derivation, and the count goes on from label to label.
  induction labelsWords generalizing before read with
  | last labelWords =>
    refine leads_label labelWords begins free fun written after labelSaid comma close => ?_
    refine leads_fixed (by decide) (step_inBody (step_closing close)) fun _ => ?_
    rw [List.reverse_cons]
    exact later [written] (.cons labelSaid .nil)
  | ended labelWords =>
    rw [List.append_assoc]
    refine leads_label labelWords begins free fun written after labelSaid comma close => ?_
    refine leads_fixed (by decide) (step_inBody (step_enum comma)) fun _ => ?_
    refine leads_fixed (by decide) (step_inBody (step_closing rfl)) fun _ => ?_
    rw [List.reverse_cons]
    exact later [written] (.cons labelSaid .nil)
  | more labelWords _ ih =>
    rw [List.append_assoc]
    refine leads_label labelWords begins free fun written after labelSaid comma close => ?_
    refine leads_fixed (by decide) (step_inBody (step_enum comma)) fun _ => ?_
    refine ih rfl rfl fun others othersSaid => ?_
    rw [List.reverse_cons, List.append_assoc]
    exact later (written :: others) (.cons labelSaid othersSaid)

theorem step_field {form : FieldsForm} {read : List WrittenField} {field : Token}
    {ref : TypeRef} {ended : RefState} (ends : Ends [] ref ended) :
    (BodyState.fields form (.typed read field ended)).step .semicolon = some fun _ =>
      .more (.fields form (.next (⟨field.text, field.position, ref⟩ :: read))) := by
  simp only [BodyState.step, FieldsState.step, ends.finished, Option.map_some, Advance.within]

theorem leads_fields {form : FieldsForm} {fields : List TypedField} {words : List Word}
    (fieldsWords : FieldsWords fields words) {read : List WrittenField}
    (later : ∀ written : List WrittenField, written.map fieldSaid = fields → Leads goal
      (inBody position name done heading typeName (.closing (.fields form (read.reverse ++ written))))
        rest) :
    Leads goal (inBody position name done heading typeName (.fields form (.next read)))
      (words ++ ofTerminal .rightBrace :: rest) := by
  induction fieldsWords generalizing read with
  | nil =>
    refine leads_fixed (by decide) (step_inBody rfl) fun _ => ?_
    have ended := later [] rfl
    rw [List.append_nil] at ended
    exact ended
  | cons named refWords _ ih =>
    rw [List.cons_append, List.cons_append, List.append_assoc]
    refine leads_name named (step_inBody rfl) rfl fun field same => ?_
    refine leads_colon (step_inBody rfl) rfl fun _ => ?_
    refine leads_name refWords.isIdentifier (hosts_field.stepped rfl) rfl fun token sameFirst => ?_
    rw [sameFirst]
    refine leads_ref hosts_field refWords fun ended ends => ?_
    refine leads_fixed (by decide) (step_inBody (step_field ends)) fun _ => ?_
    refine ih fun others othersSaid => ?_
    rw [List.reverse_cons, List.append_assoc]
    refine later (⟨field.text, field.position, _⟩ :: others) ?_
    rw [List.map_cons, othersSaid, fieldSaid, same]

theorem step_done {body : BodyState} {written : WrittenBody}
    (stepped : body.step .semicolon = some fun _ => .done written) :
    (inBody position name done heading typeName body).step .semicolon =
      some fun _ => .items position name (.type heading typeName written :: done) := by
  simp only [inBody, ModuleState.step, ItemState.step, stepped, Option.map_some, Advance.within]

theorem step_alias {target : TypeRef} {ended : RefState} (ends : Ends [] target ended) :
    (BodyState.alias ended).step .semicolon = some fun _ => .done (.alias target) := by
  simp only [BodyState.step, ends.finished, Option.map_some]

theorem clear_opening {first : String} (other : first ∉ bodyKeywords) :
    Terminal.name.Clear
      (WrittenModule.machine.scanned (inBody position name done heading typeName .opening))
      first.toList := by
  have scanned : WrittenModule.machine.scanned
      (inBody position name done heading typeName .opening) = [.name, .enum, .struct, .unit] := rfl
  rw [scanned]
  simp only [bodyKeywords, List.mem_cons, List.not_mem_nil, or_false, not_or] at other
  intro terminal member spelled
  rw [String.ofList_toList] at spelled
  simp only [List.mem_cons, List.not_mem_nil, or_false] at member
  rcases member with rfl | rfl | rfl | rfl
  · cases spelled
  · exact other.1 (Option.some.inj spelled).symm
  · exact other.2.2 (Option.some.inj spelled).symm
  · exact other.2.1 (Option.some.inj spelled).symm

/-- The right side of a type declaration is read up to the end of the declaration. -/
theorem leads_body {body : Body} {words : List Word} (bodyWords : BodyWords body words)
    (later : ∀ written, BodySays written body →
      Leads goal (.items position name (.type heading typeName written :: done)) rest) :
    Leads goal (inBody position name done heading typeName .opening)
      (words ++ ofTerminal .semicolon :: rest) := by
  cases bodyWords with
  | enum labelsWords =>
    rw [List.append_assoc]
    refine leads_fixed (by decide) (step_inBody rfl) fun _ => ?_
    refine leads_fixed (by decide) (step_inBody (step_enum rfl)) fun _ => ?_
    refine leads_labels labelsWords rfl rfl fun written labelsSaid => ?_
    refine leads_fixed (by decide) (step_done rfl) fun _ => ?_
    exact later _ (.enum labelsSaid)
  | @fields form fields words fieldsWords =>
    rw [List.append_assoc]
    have opens : Leads goal (inBody position name done heading typeName (.fields form .opening))
        (ofTerminal .leftBrace :: (words ++ ofTerminal .rightBrace :: ofTerminal .semicolon :: rest)) := by
      refine leads_fixed (by decide) (step_inBody rfl) fun _ => ?_
      refine leads_fields fieldsWords fun written fieldsSaid => ?_
      refine leads_fixed (by decide) (step_done rfl) fun _ => ?_
      exact later _ (fieldsSaid ▸ .fields form written)
    cases form with
    | unit => exact leads_fixed (by decide) (step_inBody rfl) fun _ => opens
    | struct => exact leads_fixed (by decide) (step_inBody rfl) fun _ => opens
  | «alias» refWords other =>
    rw [List.cons_append]
    refine leads_clearName refWords.isIdentifier (step_inBody rfl) (clear_opening other) ?_
    intro token same
    rw [same]
    refine leads_ref hosts_alias refWords fun ended ends => ?_
    refine leads_fixed (by decide) (step_done (step_alias ends)) fun _ => ?_
    exact later _ (.alias _)

end Body

/-! ## Items -/

section Item

variable {position : Position} {name : String} {done : List WrittenItem}

theorem step_first {terminal : Terminal} {begin : Token → ItemState}
    (first : ItemState.first terminal = some begin) :
    (ModuleState.items position name done).step terminal =
      some fun token => .item position name done (begin token) := by
  simp only [ModuleState.step, first, Option.map_some]

theorem step_item {current : ItemState} {terminal : Terminal} {next : Token → ItemState}
    (stepped : current.step terminal = some fun token => .more (next token)) :
    (ModuleState.item position name done current).step terminal =
      some fun token => .item position name done (next token) := by
  simp only [ModuleState.step, stepped, Option.map_some]

/-- A declaration is read up to what it declares. -/
theorem leads_linkage {linkage : Linkage} {words : List Word}
    (linkageWords : LinkageWords linkage words) {terminal : Terminal} {begin : Heading → ItemState}
    (fixed : isFixed terminal = true)
    (first : ItemState.first terminal = some fun token => begin ⟨token.position, .internal⟩)
    (linked : ∀ heading, (ItemState.linked heading).step terminal =
      some fun _ => .more (begin heading))
    (later : ∀ heading, heading.linkage = linkage →
      Leads goal (.item position name done (begin heading)) rest) :
    Leads goal (.items position name done) (words ++ ofTerminal terminal :: rest) := by
  cases linkageWords with
  | unsaid => exact leads_fixed fixed (step_first first) fun token => later _ rfl
  | internal =>
    refine leads_fixed (by decide) (step_first rfl) fun token => ?_
    exact leads_fixed fixed (step_item (linked _)) fun _ => later _ rfl
  | external =>
    refine leads_fixed (by decide) (step_first rfl) fun token => ?_
    exact leads_fixed fixed (step_item (linked _)) fun _ => later _ rfl

/-- A constant is read whatever its digits; how many are allowed is not for the grammar to say. -/
theorem leads_constant {linkage : Linkage} {words : List Word}
    (linkageWords : LinkageWords linkage words) {constant literal : String}
    (named : IsIdentifier constant) (isInteger : Scan.isInteger literal.toList = true)
    (later : ∀ heading : Heading, heading.linkage = linkage →
      Leads goal (.items position name (.constant heading constant literal :: done)) rest) :
    Leads goal (.items position name done)
      (words ++ ofTerminal .const :: Word.name constant :: ofTerminal .equal ::
        Word.integer literal :: ofTerminal .semicolon :: rest) := by
  refine leads_linkage linkageWords (by decide) rfl (fun _ => rfl) fun heading linked => ?_
  refine leads_name named (step_item rfl) rfl fun token same => ?_
  refine leads_fixed (by decide) (step_item rfl) fun _ => ?_
  refine leads_integer isInteger (step_item rfl) fun value sameValue => ?_
  refine leads_fixed (by decide) rfl fun _ => ?_
  rw [same, sameValue]
  exact later heading linked

theorem leads_item {item : Item} {words : List Word} (itemWords : ItemWords item words)
    (later : ∀ written, ItemSays written item →
      Leads goal (.items position name (written :: done)) rest) :
    Leads goal (.items position name done) (words ++ rest) := by
  cases itemWords with
  | imported named =>
    refine leads_fixed (by decide) (step_first rfl) fun begin => ?_
    refine leads_name named (step_item rfl) rfl fun token same => ?_
    refine leads_fixed (by decide) rfl fun _ => ?_
    rw [same]
    exact later _ (.imported _ _)
  | constant linkageWords named isLiteral =>
    rw [List.append_assoc]
    exact leads_constant linkageWords named isLiteral.1 fun heading linked =>
      later _ (linked ▸ .constant isLiteral)
  | type linkageWords named bodyWords =>
    rw [List.append_assoc, List.append_assoc]
    refine leads_linkage linkageWords (by decide) rfl (fun _ => rfl) fun heading linked => ?_
    refine leads_name named (step_item rfl) rfl fun token same => ?_
    refine leads_fixed (by decide) (step_item rfl) fun _ => ?_
    rw [same]
    exact leads_body bodyWords fun written bodySaid => later _ (linked ▸ .type bodySaid)

theorem leads_items {items : List Item} {words : List Word} (itemsWords : ItemsWords items words)
    (later : ∀ written, List.Forall₂ ItemSays written items →
      goal (.items position name (written.reverse ++ done))) :
    Leads goal (.items position name done) words := by
  induction itemsWords generalizing done with
  | nil => exact later [] .nil
  | cons itemWords _ ih =>
    refine leads_item itemWords fun written itemSaid => ?_
    refine ih fun others othersSaid => ?_
    have reached := later (written :: others) (.cons itemSaid othersSaid)
    rw [List.reverse_cons, List.append_assoc] at reached
    exact reached

theorem leads_opening (named : IsIdentifier name)
    (later : ∀ position, Leads goal (.items position name []) rest) :
    Leads goal .start
      (ofTerminal .module :: Word.name name :: ofTerminal .semicolon :: rest) := by
  refine leads_fixed (by decide) rfl fun begin => ?_
  refine leads_name named rfl rfl fun token same => ?_
  refine leads_fixed (by decide) rfl fun _ => ?_
  rw [same]
  exact later _

end Item

/-- The words of a tree lead to a module as written that says what the tree says. -/
theorem leads_module {tree : ModuleTree} {words : List Word} (moduleWords : tree.Words words) :
    Leads (fun last => ∃ written, last.finish? = some written ∧ Says written tree) .start words := by
  cases moduleWords with
  | module named itemsWords =>
    refine leads_opening named fun position => leads_items itemsWords fun written itemsSaid => ?_
    refine ⟨_, rfl, rfl, ?_⟩
    rw [List.append_nil, List.reverse_reverse]
    exact itemsSaid

end ModuleReading

/-- A text of a tree is read as a module that says what the tree says. -/
theorem ModuleTree.IsText.read {tree : ModuleTree} {text : List Char} (isText : tree.IsText text) :
    ∃ written, WrittenModule.read text = .ok written ∧ Says written tree := by
  obtain ⟨words, moduleWords, spaced⟩ := isText
  obtain ⟨last, ⟨written, finished, saysTree⟩, ran⟩ :=
    Machine.runFrom_of_leads (ModuleReading.leads_module moduleWords) spaced
  exact ⟨written, ran written finished, saysTree⟩

end WireModules
