import WireModules.Proofs.DecimalLiterals
import WireModules.Proofs.Duplicates
import WireModules.Proofs.ModuleRoundTrip

/-!
# Values of enum labels

The values of an enum are counted: a label without a literal has the value after that of the label
before it. So its value is told by the nearest literal before it and by how far away that is. An enum
in which each label says the value that it has by counting is the same enum.
-/

set_option autoImplicit false

namespace WireModules

open Word ModuleTree

/-! ## What is written of labels -/

/-- What a text says of a label: its name, and the literal of its value if there is one. -/
structure LabelText where
  name : String
  literal : Option String

namespace LabelText

/-- The name is an identifier, and the literal is one that can be read. -/
structure IsSound (label : LabelText) : Prop where
  name : IsIdentifier label.name
  literal : ∀ literal ∈ label.literal, ∃ value, IsLiteral literal value

def words (label : LabelText) : List Word :=
  match label.literal with
  | none => [Word.name label.name]
  | some literal => [Word.name label.name, ofTerminal .equal, Word.integer literal]

/-- The words of labels, of which there is at least one; they may end with a comma. -/
inductive ListWords : List LabelText → List Word → Prop where
  | last (label : LabelText) : ListWords [label] label.words
  | ended (label : LabelText) : ListWords [label] (label.words ++ [ofTerminal .comma])
  | more {labels : List LabelText} {later : List Word} (label : LabelText) :
      ListWords labels later → ListWords (label :: labels) (label.words ++ ofTerminal .comma :: later)

/-- The value of a label where the count stands at an integer. -/
def value (count : Int) (label : LabelText) : Int :=
  label.literal.elim count fun literal => Text.Decimal.value literal.toList

/-- The labels with their values; the count goes on from the value of each label. -/
def counted (count : Int) : List LabelText → List EnumLabel
  | [] => []
  | label :: rest => ⟨label.name, label.value count⟩ :: counted (label.value count + 1) rest

/-- The literal at a position of some labels. -/
def literalAt (labels : List LabelText) (position : Nat) : Option String :=
  labels[position]?.bind literal

/-- The value at a position is that of the nearest literal at or before it, and one more for each
step from there. Without such a literal it is the position. -/
inductive CountsTo (labels : List LabelText) (position : Nat) : Int → Prop where
  | fromLiteral {nearest : Nat} {literal : String} : nearest ≤ position →
      literalAt labels nearest = some literal →
      (∀ between, nearest < between → between ≤ position → literalAt labels between = none) →
      CountsTo labels position (Text.Decimal.value literal.toList + (position - nearest : Nat))
  | fromStart : (∀ earlier ≤ position, literalAt labels earlier = none) →
      CountsTo labels position position

/-! ## Counting -/

variable {labels : List LabelText} {label : LabelText} {count : Int} {position : Nat}

@[simp]
theorem map_name_counted (labels : List LabelText) (count : Int) :
    (counted count labels).map EnumLabel.name = labels.map LabelText.name := by
  induction labels generalizing count with
  | nil => rfl
  | cons label rest ih => simp [counted, ih]

theorem getElem?_counted_zero :
    (counted count labels)[0]? = labels[0]?.map fun label => ⟨label.name, label.value count⟩ := by
  cases labels <;> rfl

theorem getElem?_counted_succ :
    (counted count labels)[position + 1]? = (counted count labels)[position]?.bind fun before =>
      labels[position + 1]?.map fun label => ⟨label.name, label.value (before.value + 1)⟩ := by
  induction labels generalizing count position with
  | nil => rfl
  | cons first rest ih =>
    cases position with
    | zero => exact getElem?_counted_zero
    | succ position => exact ih

theorem CountsTo.own {literal : String} (said : literalAt labels position = some literal) :
    CountsTo labels position (Text.Decimal.value literal.toList) := by
  have counts := CountsTo.fromLiteral (Nat.le_refl position) said (by omega)
  simpa using counts

theorem CountsTo.next {value : Int} (counts : CountsTo labels position value)
    (unsaid : literalAt labels (position + 1) = none) :
    CountsTo labels (position + 1) (value + 1) := by
  cases counts with
  | @fromLiteral nearest literal before said silent =>
    have further : Text.Decimal.value literal.toList + (position - nearest : Nat) + 1 =
        Text.Decimal.value literal.toList + (position + 1 - nearest : Nat) := by
      omega
    rw [further]
    refine .fromLiteral (by omega) said fun between after upTo => ?_
    rcases Nat.le_succ_iff.mp upTo with earlier | rfl
    · exact silent between after earlier
    · exact unsaid
  | fromStart silent =>
    refine .fromStart fun earlier upTo => ?_
    rcases Nat.le_succ_iff.mp upTo with before | rfl
    · exact silent earlier before
    · exact unsaid

theorem CountsTo.unique {first second : Int} (counts : CountsTo labels position first)
    (countsToo : CountsTo labels position second) : first = second := by
  cases counts with
  | @fromLiteral nearest literal upTo said silent =>
    cases countsToo with
    | @fromLiteral other otherLiteral upToOther saidOther silentOther =>
      rcases Nat.lt_trichotomy nearest other with before | rfl | after
      · cases (silent other before upToOther).symm.trans saidOther
      · cases said.symm.trans saidOther
        rfl
      · cases (silentOther nearest after upTo).symm.trans said
    | fromStart silentAll => cases (silentAll nearest upTo).symm.trans said
  | fromStart silent =>
    cases countsToo with
    | fromLiteral upTo said _ => cases (silent _ upTo).symm.trans said
    | fromStart _ => rfl

/-- A label is counted unless it has a literal. -/
theorem countsTo_value {count : Int} (stands : labels[position]? = some label)
    (unsaid : literalAt labels position = none → CountsTo labels position count) :
    CountsTo labels position (label.value count) := by
  have said : literalAt labels position = label.literal := by
    rw [literalAt, stands, Option.bind_some]
  rw [said] at unsaid
  rw [LabelText.value]
  cases told : label.literal with
  | none => exact unsaid told
  | some literal => exact .own (said.trans told)

/-- Counting from zero gives each position the value that the literals before it tell. -/
theorem countsTo_of_counted {entry : EnumLabel}
    (found : (counted 0 labels)[position]? = some entry) : CountsTo labels position entry.value := by
  -- At each position the count stands one past the value before it, which the hypothesis tells.
  induction position generalizing entry with
  | zero =>
    rw [getElem?_counted_zero] at found
    obtain ⟨label, stands, rfl⟩ := Option.map_eq_some_iff.mp found
    refine countsTo_value stands fun unsaid => .fromStart fun earlier upTo => ?_
    rw [Nat.le_zero.mp upTo, unsaid]
  | succ position ih =>
    rw [getElem?_counted_succ] at found
    obtain ⟨before, foundBefore, follows⟩ := Option.bind_eq_some_iff.mp found
    obtain ⟨label, stands, rfl⟩ := Option.map_eq_some_iff.mp follows
    exact countsTo_value stands (ih foundBefore).next

theorem IsSound.labelWords (sound : label.IsSound) (count : Int) :
    LabelWords count ⟨label.name, label.value count⟩ label.words := by
  obtain ⟨name, literal⟩ := label
  cases literal with
  | none => exact .counted sound.name
  | some literal =>
    obtain ⟨value, isLiteral⟩ := sound.literal literal rfl
    exact .valued sound.name ⟨isLiteral.1, isLiteral.2.1, rfl⟩

/-- The words of labels are words of the labels with the values that counting gives them. -/
theorem ListWords.labelsWords {words : List Word} (listWords : ListWords labels words)
    (sound : ∀ label ∈ labels, label.IsSound) (count : Int) :
    LabelsWords count (counted count labels) words := by
  induction listWords generalizing count with
  | last label => exact .last ((sound label (.head _)).labelWords count)
  | ended label => exact .ended ((sound label (.head _)).labelWords count)
  | more label _ ih =>
    obtain ⟨own, others⟩ := List.forall_mem_cons.mp sound
    exact .more (own.labelWords count) (ih others _)

/-! ## Labels that say their values -/

/-- A text says the value that a label has. -/
structure Tells (entry : EnumLabel) (label : LabelText) : Prop where
  name : label.name = entry.name
  literal : ∃ literal, label.literal = some literal ∧ IsLiteral literal entry.value

theorem Tells.eq_entry {entry : EnumLabel} (tells : Tells entry label) (count : Int) :
    (⟨label.name, label.value count⟩ : EnumLabel) = entry := by
  obtain ⟨literal, said, isLiteral⟩ := tells.literal
  rw [LabelText.value, said, Option.elim_some, isLiteral.2.2, tells.name]

/-- Labels that say their values need not be counted. -/
theorem counted_of_tells {entries : List EnumLabel} (all : List.Forall₂ Tells entries labels)
    (count : Int) : counted count labels = entries := by
  induction all generalizing count with
  | nil => rfl
  | cons tells _ ih => rw [counted, tells.eq_entry, ih]

theorem names_of_tells {entries : List EnumLabel} (all : List.Forall₂ Tells entries labels) :
    labels.map LabelText.name = entries.map EnumLabel.name := by
  induction all with
  | nil => rfl
  | cons tells _ ih => rw [List.map_cons, List.map_cons, tells.name, ih]

/-- Labels that tell values are sound if they have the names of labels that are. -/
theorem isSound_of_tells {entries : List EnumLabel} {others : List LabelText}
    (all : List.Forall₂ Tells entries labels)
    (same : labels.map LabelText.name = others.map LabelText.name)
    (sound : ∀ label ∈ others, label.IsSound) : ∀ label ∈ labels, label.IsSound := by
  intro label member
  have named : label.name ∈ others.map LabelText.name := same ▸ List.mem_map_of_mem member
  obtain ⟨other, inside, sameName⟩ := List.mem_map.mp named
  obtain ⟨entry, _, tells⟩ := exists_of_forall₂ all.flip member
  obtain ⟨literal, told, isLiteral⟩ := tells.literal
  refine ⟨sameName ▸ (sound other inside).name, fun own isOwn => ?_⟩
  cases told.symm.trans isOwn
  exact ⟨entry.value, isLiteral⟩

/-- A label can tell its value exactly if the value has at most as many digits as are read. -/
theorem exists_tells_iff {entries : List EnumLabel} :
    (∃ labels, List.Forall₂ Tells entries labels) ↔
      ∀ entry ∈ entries, Text.Decimal.digitsOf entry.value ≤ Text.Decimal.digitLimit := by
  constructor
  · rintro ⟨labels, all⟩ entry member
    obtain ⟨label, _, tells⟩ := exists_of_forall₂ all member
    obtain ⟨literal, _, isLiteral⟩ := tells.literal
    exact isLiteral.digitsOf_le
  · intro short
    refine ⟨entries.map fun entry => ⟨entry.name, some (toString entry.value)⟩, ?_⟩
    rw [List.forall₂_map_right_iff, List.forall₂_same]
    exact fun entry member => ⟨rfl, _, rfl, isLiteral_toString (short entry member)⟩

end LabelText

/-! ## An enum in a module -/

/-- A module with an enum, all but the labels of the enum. -/
structure AroundEnum where
  module : String
  earlier : List Item
  linkage : Linkage
  type : String
  later : List Item

namespace AroundEnum

open LabelText (counted CountsTo ListWords Tells)

def tree (around : AroundEnum) (entries : List EnumLabel) : ModuleTree :=
  ⟨around.module,
    around.earlier ++ .type around.linkage around.type (.enum entries) :: around.later⟩

/-- The words before the labels and those after them. -/
inductive Words : AroundEnum → List Word → List Word → Prop where
  | mk {module type : String} {earlier later : List Item} {linkage : Linkage}
      {earlierWords linkageWords laterWords : List Word} :
      IsIdentifier module → ItemsWords earlier earlierWords → LinkageWords linkage linkageWords →
      IsIdentifier type → ItemsWords later laterWords →
      Words ⟨module, earlier, linkage, type, later⟩
        (ofTerminal .module :: Word.name module :: ofTerminal .semicolon :: earlierWords ++
          linkageWords ++ [ofTerminal .type, Word.name type, ofTerminal .equal, ofTerminal .enum,
            ofTerminal .leftBrace])
        (ofTerminal .rightBrace :: ofTerminal .semicolon :: laterWords)

/-- A text of the module in which the enum has some labels. -/
def IsText (around : AroundEnum) (labels : List LabelText) (text : List Char) : Prop :=
  ∃ front inner back, around.Words front back ∧ ListWords labels inner ∧
    Spaced false (front ++ inner ++ back) text

/-- A text is read as a module, and the definition of the enum in it has some labels. -/
def Defines (around : AroundEnum) (text : List Char) (file : Option String)
    (entries : List EnumLabel) : Prop :=
  ∃ module decl, Module.parse text file = .ok (.ok module) ∧ .type decl ∈ module.decls ∧
    decl.name = around.type ∧
    decl.definition =
      { kind := .enum, name := qualify around.module around.type, labels := entries }

variable {around : AroundEnum} {labels : List LabelText} {text : List Char}

theorem Words.fill {front inner back : List Word} {entries : List EnumLabel}
    (words : around.Words front back) (labelsWords : LabelsWords 0 entries inner) :
    (around.tree entries).Words (front ++ inner ++ back) := by
  cases words with
  | mk isModule earlier linkage isType later =>
    have item := ItemWords.type linkage isType (.enum labelsWords)
    simpa [tree] using ModuleTree.Words.module isModule (earlier.append (.cons item later))

/-- Whether anything around an enum is a duplicate has nothing to do with its labels. -/
theorem distinct_tree {entries : List EnumLabel} (apart : (around.tree []).Distinct)
    (distinct : (entries.map EnumLabel.name).Nodup) : (around.tree entries).Distinct where
  decls := by simpa [tree, Item.declaredName?] using apart.decls
  items := by
    have others := apart.items
    simp only [tree, List.forall_mem_append, List.forall_mem_cons] at others ⊢
    exact ⟨others.1, distinct, others.2.2⟩

theorem IsText.defines (isText : around.IsText labels text)
    (sound : ∀ label ∈ labels, label.IsSound) (apart : (around.tree []).Distinct)
    (distinct : (labels.map LabelText.name).Nodup) (file : Option String) :
    around.Defines text file (counted 0 labels) := by
  obtain ⟨front, inner, back, words, listWords, spaced⟩ := isText
  have treeText : (around.tree (counted 0 labels)).IsText text :=
    ⟨_, words.fill (listWords.labelsWords sound 0), spaced⟩
  have treeDistinct : (around.tree (counted 0 labels)).Distinct :=
    distinct_tree apart (by rwa [LabelText.map_name_counted])
  obtain ⟨written, wasRead, said⟩ := treeText.read
  obtain ⟨module, built, same⟩ := said.build treeDistinct
  have member : .type around.linkage around.type (.enum (counted 0 labels)) ∈
      (around.tree (counted 0 labels)).items := by
    simp [tree]
  obtain ⟨decl, inside, named, defined⟩ := exists_type_of_unplaced same member
  exact ⟨module, decl, Module.parse_of_build wasRead built, inside, named, defined⟩

/-- A label has the value of the nearest literal at or before it and one more for each step from there,
or else its position, however the enum and the module around it are written. Any text in which each
label says outright the value that it has in this way gives the same definition; there are literals for
that exactly if no value has more digits than are read. -/
theorem labels_counted (sound : ∀ label ∈ labels, label.IsSound)
    (apart : (around.tree []).Distinct) (distinct : (labels.map LabelText.name).Nodup)
    (isText : around.IsText labels text) (file : Option String) :
    around.Defines text file (counted 0 labels) ∧
      (counted 0 labels).map EnumLabel.name = labels.map LabelText.name ∧
      (∀ position entry, (counted 0 labels)[position]? = some entry →
        ∀ value, CountsTo labels position value ↔ value = entry.value) ∧
      (∀ explicit again, List.Forall₂ Tells (counted 0 labels) explicit →
        around.IsText explicit again → around.Defines again file (counted 0 labels)) ∧
      ((∃ explicit, List.Forall₂ Tells (counted 0 labels) explicit) ↔
        ∀ entry ∈ counted 0 labels,
          Text.Decimal.digitsOf entry.value ≤ Text.Decimal.digitLimit) := by
  have names : (counted 0 labels).map EnumLabel.name = labels.map LabelText.name :=
    LabelText.map_name_counted labels 0
  refine ⟨isText.defines sound apart distinct file, names, ?_, ?_, LabelText.exists_tells_iff⟩
  · intro position entry found value
    have counts := LabelText.countsTo_of_counted found
    exact ⟨fun countsToo => countsToo.unique counts, fun same => same ▸ counts⟩
  · intro explicit again all isAgain
    have sameNames := (LabelText.names_of_tells all).trans names
    have soundAgain := LabelText.isSound_of_tells all sameNames sound
    have defines := isAgain.defines soundAgain apart (sameNames ▸ distinct) file
    rwa [LabelText.counted_of_tells all] at defines

/-! ## An enum with negative and repeated values -/

def signedEnum : AroundEnum :=
  ⟨"enum", [], .external, "type", [.imported "unit"]⟩

def signedLabels : List LabelText :=
  [⟨"public", none⟩, ⟨"unit", some "-02"⟩, ⟨"const", none⟩, ⟨"x", none⟩, ⟨"struct", some "0"⟩]

def signedText : List Char :=
  "module enum;\npublic type type=enum\x7bpublic,unit=-02, #\nconst,x,struct = 0,\x7d;import unit;".toList

def signedEntries : List EnumLabel :=
  [⟨"public", 0⟩, ⟨"unit", -2⟩, ⟨"const", -1⟩, ⟨"x", 0⟩, ⟨"struct", 0⟩]

/-- The same labels, each with its value. -/
def toldLabels : List LabelText :=
  [⟨"public", some "0"⟩, ⟨"unit", some "-2"⟩, ⟨"const", some "-1"⟩, ⟨"x", some "00"⟩,
    ⟨"struct", some "-0"⟩]

def toldText : List Char :=
  "module enum;public type type=enum\x7bpublic=0,unit=-2,const=-1,x=00,struct=-0\x7d;import unit;".toList

theorem signedText_isText : signedEnum.IsText signedLabels signedText := by
  have listWords : ListWords signedLabels _ := .more _ (.more _ (.more _ (.more _ (.ended _))))
  refine ⟨_, _, _, .mk (by rfl) .nil .external (by rfl) (.cons (.imported (by rfl)) .nil),
    listWords, ?_⟩
  unfold signedText
  simp only [String.reduceToList]
  have comment : Gap [' ', '#', '\n'] := .blank rfl (@Gap.comment [] [] (by decide) .nil)
  refine .word .nil (by decide) (.word (.blank rfl .nil) (by decide) (.word .nil (by decide) ?_))
  iterate 3 refine .word (.blank rfl .nil) (by decide) ?_
  iterate 9 refine .word .nil (by decide) ?_
  refine .word comment (by decide) ?_
  iterate 4 refine .word .nil (by decide) ?_
  iterate 2 refine .word (.blank rfl .nil) (by decide) ?_
  iterate 4 refine .word .nil (by decide) ?_
  exact .word (.blank rfl .nil) (by decide) (.word .nil (by decide) (.done .nil))

theorem toldText_isText : signedEnum.IsText toldLabels toldText := by
  have listWords : ListWords toldLabels _ := .more _ (.more _ (.more _ (.more _ (.last _))))
  refine ⟨_, _, _, .mk (by rfl) .nil .external (by rfl) (.cons (.imported (by rfl)) .nil),
    listWords, ?_⟩
  unfold toldText
  simp only [String.reduceToList]
  refine .word .nil (by decide) (.word (.blank rfl .nil) (by decide) ?_)
  iterate 2 refine .word .nil (by decide) ?_
  iterate 2 refine .word (.blank rfl .nil) (by decide) ?_
  iterate 25 refine .word .nil (by decide) ?_
  exact .word (.blank rfl .nil) (by decide) (.word .nil (by decide) (.done .nil))

theorem signedLabels_isSound : ∀ label ∈ signedLabels, label.IsSound := by
  have plain : ∀ {name}, IsIdentifier name → (⟨name, none⟩ : LabelText).IsSound :=
    fun named => ⟨named, nofun⟩
  have valued : ∀ {name literal value}, IsIdentifier name → IsLiteral literal value →
      (⟨name, some literal⟩ : LabelText).IsSound := by
    intro name literal value named isLiteral
    refine ⟨named, fun own isOwn => ?_⟩
    cases isOwn
    exact ⟨value, isLiteral⟩
  intro label member
  simp only [signedLabels, List.mem_cons, List.not_mem_nil, or_false] at member
  rcases member with rfl | rfl | rfl | rfl | rfl
  · exact plain (by rfl)
  · exact valued (by rfl) ⟨by rfl, by decide, rfl⟩
  · exact plain (by rfl)
  · exact plain (by rfl)
  · exact valued (by rfl) ⟨by rfl, by decide, rfl⟩

theorem toldLabels_tells : List.Forall₂ Tells signedEntries toldLabels := by
  have tells : ∀ {name literal value}, IsLiteral literal value →
      Tells ⟨name, value⟩ ⟨name, some literal⟩ :=
    fun isLiteral => ⟨rfl, _, rfl, isLiteral⟩
  refine .cons (tells ?_) (.cons (tells ?_) (.cons (tells ?_) (.cons (tells ?_)
    (.cons (tells ?_) .nil)))) <;> exact ⟨by rfl, by decide, by rfl⟩

theorem labels_counted_signed :
    (∀ label ∈ signedLabels, label.IsSound) ∧ (signedEnum.tree []).Distinct ∧
      (signedLabels.map LabelText.name).Nodup ∧ signedEnum.IsText signedLabels signedText ∧
        List.Forall₂ Tells signedEntries toldLabels ∧ signedEnum.IsText toldLabels toldText ∧
          signedEnum.Defines signedText none signedEntries ∧
            CountsTo signedLabels 3 0 ∧ signedEnum.Defines toldText none signedEntries := by
  have apart : (signedEnum.tree []).Distinct := by
    refine ⟨by decide, ?_⟩
    intro item member
    simp only [signedEnum, tree, List.nil_append, List.mem_cons, List.not_mem_nil, or_false]
      at member
    rcases member with rfl | rfl
    · exact .nil
    · trivial
  have distinct : (signedLabels.map LabelText.name).Nodup := by decide
  have entries : counted 0 signedLabels = signedEntries := by decide
  obtain ⟨defines, _, counts, again, _⟩ :=
    labels_counted signedLabels_isSound apart distinct signedText_isText none
  rw [entries] at defines counts again
  exact ⟨signedLabels_isSound, apart, distinct, signedText_isText, toldLabels_tells,
    toldText_isText, defines, (counts 3 ⟨"x", 0⟩ rfl 0).mpr rfl,
    again toldLabels toldText toldLabels_tells toldText_isText⟩

end AroundEnum

end WireModules
