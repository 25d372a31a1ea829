import Mathlib.Tactic.Convert
import WireModules.Proofs.DirectiveTexts
import WireModules.Proofs.MachineRun

/-!
# Reading glue files

Whatever layout a glue file has, it is read as the exports and analyzers of which it is a text, each
with the span of its own text. Only the words that can come next are looked for, so the keywords of
glue files may be names everywhere.
-/

set_option autoImplicit false

namespace WireModules

open Word ModuleTree GlueText

namespace DirectiveReading

abbrev Leads (goal : GlueState → Prop) : GlueState → List Word → Prop :=
  WrittenDirective.machine.Leads goal

abbrev scansKeyword (state : GlueState) : Bool :=
  WrittenDirective.machine.scansKeyword state

variable {goal : GlueState → Prop} {state : GlueState} {next : Token → GlueState}
  {rest words : List Word} {done : List WrittenDirective}

/-! ## Single words -/

theorem leads_fixed {terminal : Terminal}
    (known : (WrittenDirective.alphabet.contains terminal && terminal.isFixed) = true)
    (stepped : state.step terminal = some next) (later : ∀ token, Leads goal (next token) rest) :
    Leads goal state (ofTerminal terminal :: rest) := by
  obtain ⟨listed, fixed⟩ := Bool.and_eq_true_iff.mp known
  exact Machine.leads_fixed (List.contains_iff_mem.mp listed) fixed stepped later

theorem leads_name {name : String} (named : IsIdentifier name)
    (stepped : state.step .name = some next) (free : scansKeyword state = false)
    (later : ∀ token : Token, token.text = name → Leads goal (next token) rest) :
    Leads goal state (Word.name name :: rest) :=
  Machine.leads_name (by decide) named stepped (Machine.clear_of_not_scansKeyword free) later

theorem leads_colon (stepped : state.step .colon = some next)
    (unscoped : (WrittenDirective.machine.scanned state).contains .scope = false)
    (later : ∀ token, Leads goal (next token) rest) :
    Leads goal state (ofTerminal .colon :: rest) :=
  Machine.leads_colon (by decide) stepped unscoped later

theorem mem_scanned {terminal : Terminal} (known : terminal ∈ WrittenDirective.alphabet)
    (stepped : state.step terminal = some next) : terminal ∈ WrittenDirective.machine.scanned state :=
  Machine.mem_scanned_of_step known stepped

/-- No integers with a sign are looked for. -/
theorem leads_natural {literal : String} (natural : Scan.isNatural literal.toList = true)
    (stepped : state.step .natural = some next)
    (later : ∀ token : Token, token.text = literal → Leads goal (next token) rest) :
    Leads goal state (⟨.natural, literal.toList⟩ :: rest) := by
  have clear : .integer ∉ WrittenDirective.machine.scanned state := fun member =>
    absurd (List.mem_of_mem_filter member) (by decide)
  have looked : .natural ∈ WrittenDirective.machine.scanned state := mem_scanned (by decide) stepped
  refine ⟨next, ⟨stepped, looked, natural, clear⟩, fun token same => ?_⟩
  exact later token (same.trans String.ofList_toList)

theorem leads_transport {transport : String} (known : transport ∈ ["TCP", "UDP"])
    (stepped : state.step .transport = some next)
    (unnamed : (WrittenDirective.machine.scanned state).contains .name = false)
    (later : ∀ token : Token, token.text = transport → Leads goal (next token) rest) :
    Leads goal state (⟨.transport, transport.toList⟩ :: rest) := by
  have spelled : transport.toList ∈ Terminal.transport.spellings := List.mem_map_of_mem known
  have clear : .name ∉ WrittenDirective.machine.scanned state := by
    intro member
    rw [List.contains_iff_mem.mpr member] at unnamed
    cases unnamed
  have looked : .transport ∈ WrittenDirective.machine.scanned state := mem_scanned (by decide) stepped
  refine ⟨next, ⟨stepped, looked, spelled, clear⟩, fun token same => ?_⟩
  exact later token (same.trans String.ofList_toList)

/-- A step inside a directive. -/
theorem step_directive {current : DirectiveState} {terminal : Terminal}
    {next : Token → DirectiveState}
    (stepped : current.step terminal = some fun token => .more (next token)) :
    (GlueState.directive done current).step terminal =
      some fun token => .directive done (next token) := by
  simp only [GlueState.step, stepped, Option.map_some]

/-! ## Scoped names -/

/-- A part of a directive in which a scoped name is read. -/
structure Hosts (host : NameState → DirectiveState) : Prop where
  stepped : ∀ {name : NameState} {terminal : Terminal} {next : Token → NameState},
    name.step terminal = some next →
      (host name).step terminal = some fun token => .more (host (next token))
  freeWanted : ∀ done, scansKeyword (.directive done (host .wanted)) = false
  freeScoped : ∀ done name, scansKeyword (.directive done (host (.scoped name))) = false

variable {host : NameState → DirectiveState}

theorem leads_scoped (hosts : Hosts host) {parts : List String} {name : String}
    (identifiers : ∀ part ∈ parts, IsIdentifier part)
    (later : Leads goal (.directive done (host (.named (parts.foldl extendName name)))) rest) :
    Leads goal (.directive done (host (.named name))) (scopedWords parts ++ rest) := by
  induction parts generalizing name with
  | nil => exact later
  | cons part others ih =>
    refine leads_fixed (by decide) (step_directive (hosts.stepped rfl)) fun _ => ?_
    refine leads_name (identifiers part (.head _)) (step_directive (hosts.stepped rfl))
      (hosts.freeScoped _ _) fun token same => ?_
    rw [same]
    exact ih (fun other member => identifiers other (.tail _ member)) later

theorem leads_scopedName (hosts : Hosts host) {name : String} (nameWords : NameWords name words)
    (later : Leads goal (.directive done (host (.named name))) rest) :
    Leads goal (.directive done (host .wanted)) (words ++ rest) := by
  cases nameWords with
  | joined isFirst areOthers =>
    rw [intercalate_eq_foldl] at later
    refine leads_name isFirst (step_directive (hosts.stepped rfl)) (hosts.freeWanted _) ?_
    intro token same
    rw [same]
    exact leads_scoped hosts areOthers later

theorem terminal_of_step {name : NameState} {terminal : Terminal} {next : Token → NameState}
    (stepped : name.step terminal = some next) : terminal = .name ∨ terminal = .scope := by
  unfold NameState.step at stepped
  split at stepped
  · exact .inl rfl
  · exact .inl rfl
  · exact .inr rfl
  · cases stepped

theorem hosts_source (first : Position) : Hosts (.source first) where
  stepped stepped := by
    rcases terminal_of_step stepped with rfl | rfl <;>
      simp only [DirectiveState.step, stepped, Option.map_some]
  freeWanted _ := rfl
  freeScoped _ _ := rfl

theorem hosts_host (first : Position) (source : String) : Hosts (.host first source) where
  stepped stepped := by
    rcases terminal_of_step stepped with rfl | rfl <;>
      simp only [DirectiveState.step, stepped, Option.map_some]
  freeWanted _ := rfl
  freeScoped _ _ := rfl

theorem hosts_unit (heading : AnalyzerHeading) : Hosts (.unit heading) where
  stepped stepped := by
    rcases terminal_of_step stepped with rfl | rfl <;>
      simp only [DirectiveState.step, stepped, Option.map_some]
  freeWanted _ := rfl
  freeScoped _ _ := rfl

/-! ## Directives -/

/-- With a semicolon a directive is complete, which denotes what it should wherever it ends. -/
def Closes (file : Option String) (done : List WrittenDirective) (denoted : Position → Directive)
    (last : GlueState) : Prop :=
  ∃ written : Position → WrittenDirective,
    (∀ past, (written past).build file = .ok (denoted past)) ∧
    last.step .semicolon = some fun token => .directives (written token.past :: done)

variable {file : Option String} {first : Position}

theorem leads_export {source target : String} (exportWords : ExportWords source target words) :
    Leads (Closes file done fun past => .exported ⟨source, target, .between first past file⟩)
      (.directive done (.source first .wanted)) words := by
  cases exportWords with
  | plain nameWords =>
    rw [← List.append_nil words]
    refine leads_scopedName (hosts_source first) nameWords ?_
    exact ⟨fun past => .exported source none ⟨first, past⟩, fun _ => rfl, rfl⟩
  | @renamed _ _ more sourceWords targetWords =>
    refine leads_scopedName (hosts_source first) sourceWords ?_
    refine leads_fixed (by decide) (step_directive rfl) fun _ => ?_
    rw [← List.append_nil more]
    refine leads_scopedName (hosts_host first source) targetWords ?_
    exact ⟨fun past => .exported source (some target) ⟨first, past⟩, fun _ => rfl, rfl⟩

theorem readPorts_append {literals : List String} {ports : List Int} {literal : String} {port : Int}
    (isRead : WrittenDirective.readPorts literals = .ok ports) (isPort : IsPort literal port) :
    WrittenDirective.readPorts (literals ++ [literal]) = .ok (ports ++ [port]) := by
  induction literals generalizing ports with
  | nil =>
    cases isRead
    have own : Text.Decimal.read literal = .ok port := by
      rw [Text.Decimal.read, if_pos isPort.2.1, isPort.2.2]
    rw [List.nil_append, WrittenDirective.readPorts, own]
    rfl
  | cons first others ih =>
    rw [WrittenDirective.readPorts] at isRead
    cases firstRead : Text.Decimal.read first with
    | error refusal => simp [firstRead, bind, Except.bind] at isRead
    | ok value =>
      cases othersRead : WrittenDirective.readPorts others with
      | error refusal => simp [firstRead, othersRead, bind, Except.bind] at isRead
      | ok values =>
        simp only [firstRead, othersRead, bind, Except.bind] at isRead
        cases isRead
        rw [List.cons_append, WrittenDirective.readPorts, firstRead, ih othersRead]
        rfl

/-- What can follow the unit of an analyzer, or one of its ports; the literals before are kept last
first. -/
structure AtPort (heading : AnalyzerHeading) (unit : String) (literals : List String)
    (current : DirectiveState) : Prop where
  comma : current.step .comma = some fun _ => .more (.port heading unit literals)
  semicolon : current.step .semicolon = some fun token =>
    .done (.analyzer heading.name heading.transport unit literals.reverse ⟨heading.first, token.past⟩)

theorem leads_ports {heading : AnalyzerHeading} {unit : String} {before ports : List Int}
    (portsWords : PortsWords ports words) {literals : List String} {current : DirectiveState}
    (areRead : WrittenDirective.readPorts literals.reverse = .ok before)
    (atPort : AtPort heading unit literals current) :
    Leads (Closes file done fun past => .analyzer
        ⟨heading.name, heading.transport, unit, before ++ ports, .between heading.first past file⟩)
      (.directive done current) words := by
  induction portsWords generalizing before literals current with
  | nil =>
    refine ⟨fun past => .analyzer heading.name heading.transport unit literals.reverse
      ⟨heading.first, past⟩, fun past => ?_, ?_⟩
    · rw [WrittenDirective.build, areRead, List.append_nil]
      rfl
    · simp only [GlueState.step, atPort.semicolon, Option.map_some]
  | @cons literal port ports words isPort _ ih =>
    refine leads_fixed (by decide) (step_directive atPort.comma) fun _ => ?_
    refine leads_fixed (by decide) (step_directive rfl) fun _ => ?_
    refine leads_natural isPort.1 (step_directive rfl) fun token same => ?_
    rw [same, List.append_cons before port ports]
    refine ih ?_ ⟨rfl, rfl⟩
    rw [List.reverse_cons]
    exact readPorts_append areRead isPort

theorem leads_analyzer {name transport unit : String} {ports : List Int}
    (analyzerWords : AnalyzerWords name transport unit ports words) :
    Leads (Closes file done fun past => .analyzer
        ⟨name, transport, unit, ports, .between first past file⟩)
      (.directive done (.analyzer first)) words := by
  cases analyzerWords with
  | analyzer named known unitWords portsWords =>
    refine leads_name named (step_directive rfl) rfl fun token same => ?_
    refine leads_fixed (by decide) (step_directive rfl) fun _ => ?_
    refine leads_transport known (step_directive rfl) rfl fun token sameTransport => ?_
    refine leads_colon (step_directive rfl) rfl fun _ => ?_
    refine leads_fixed (by decide) (step_directive rfl) fun _ => ?_
    refine leads_fixed (by decide) (step_directive rfl) fun _ => ?_
    rw [same, sameTransport]
    refine leads_scopedName (hosts_unit _) unitWords ?_
    have none : WrittenDirective.readPorts [].reverse = .ok [] := rfl
    have atPort : AtPort ⟨first, name, transport⟩ unit []
        (.unit ⟨first, name, transport⟩ (.named unit)) := ⟨rfl, rfl⟩
    exact leads_ports portsWords none atPort

theorem stops_semicolon (rest : List Char) : Scan.Stops ((ofTerminal .semicolon).text ++ rest) :=
  stops_of_sign (fits_ofTerminal (by decide)) rfl

/-- A directive that stands behind some text is read from its keyword to its semicolon, and what it
denotes knows both places. -/
theorem runFrom_of_directive {before gap inner : List Char} {keyword : Terminal}
    {begin : Token → DirectiveState} {denoted : Position → Position → Directive}
    (begins : DirectiveState.first keyword = some begin)
    (known : (WrittenDirective.alphabet.contains keyword && keyword.isFixed) = true)
    (leads : ∀ token : Token,
      Leads (Closes file done (denoted token.position)) (.directive done (begin token)) words)
    (isGap : Gap gap) (spaced : Spaced true words inner) (whole rest : List Char)
    (previous : Option Token) :
    ∃ written token,
      written.build file = .ok (denoted (Position.start.advance (before ++ gap))
        (Position.start.advance (before ++ gap ++ directive keyword inner))) ∧
      WrittenDirective.machine.runFrom whole (.directives done) previous
          (Position.start.advance before) (gap ++ directive keyword inner ++ rest) =
        WrittenDirective.machine.runFrom whole (.directives (written :: done)) (some token)
          (Position.start.advance (before ++ gap ++ directive keyword inner)) rest := by
  obtain ⟨listed, fixed⟩ := Bool.and_eq_true_iff.mp known
  have stepped : WrittenDirective.machine.step (.directives done) keyword =
      some fun token => .directive done (begin token) := by
    change (DirectiveState.first keyword).map _ = _
    rw [begins, Option.map_some]
  have takesKeyword := Machine.takes_fixed (List.contains_iff_mem.mp listed) fixed stepped
  have fits := (leads ⟨keyword, "", .start, .start⟩).fits
  have stops : Scan.Stops (inner ++ ((ofTerminal .semicolon).text ++ rest)) :=
    (Spaced.stops spaced fits).append (stops_semicolon rest)
  obtain ⟨token, _, here, past, opens⟩ := Machine.runFrom_of_takes isGap takesKeyword
    (fun _ => stops) whole previous (Position.start.advance before)
  -- The words between lead to a state in which only the place of the semicolon is missing.
  obtain ⟨last, seen, between, left, ⟨written, builds, closing⟩, isLeft, ends, goesOn⟩ :=
    Machine.runFrom_of_leads_append (leads token) spaced (stops_semicolon rest) whole (some token)
      token.past
  have takesSemicolon : WrittenDirective.machine.Takes last (ofTerminal .semicolon) _ :=
    Machine.takes_fixed (by decide) (by decide) closing
  have apart : Terminal.semicolon.isWord = true → Scan.Stops rest := nofun
  obtain ⟨semicolon, _, _, ended, closes⟩ :=
    Machine.runFrom_of_takes isLeft takesSemicolon apart whole seen between
  have isHere : token.position = Position.start.advance (before ++ gap) := by
    rw [here, Position.advance_append]
  have isPast : semicolon.past =
      Position.start.advance (before ++ gap ++ directive keyword inner) := by
    rw [ended, Position.advance_append, ends, past]
    simp only [directive, Position.advance_append]
  refine ⟨written semicolon.past, semicolon, ?_, ?_⟩
  · rw [builds, isHere, isPast]
  · have split : gap ++ directive keyword inner ++ rest =
        gap ++ (ofTerminal keyword).text ++ (inner ++ ((ofTerminal .semicolon).text ++ rest)) := by
      simp only [directive, List.append_assoc]
    rw [split, opens, goesOn, ← isPast, ← closes, List.append_assoc]

/-! ## Glue files -/

def Denotes (file : Option String) (written : List WrittenDirective)
    (exports : List ExportDirective) (analyzers : List AnalyzerDirective) : Prop :=
  ∃ directives, WrittenDirective.buildAll file written = .ok directives ∧
    GlueFile.exports ⟨directives⟩ = exports ∧ GlueFile.analyzers ⟨directives⟩ = analyzers

variable {written : WrittenDirective} {others : List WrittenDirective}
  {exports : List ExportDirective} {analyzers : List AnalyzerDirective}

theorem buildAll_cons {directive : Directive} {directives : List Directive}
    (built : written.build file = .ok directive)
    (builtOthers : WrittenDirective.buildAll file others = .ok directives) :
    WrittenDirective.buildAll file (written :: others) = .ok (directive :: directives) := by
  rw [WrittenDirective.buildAll, built, builtOthers]
  rfl

theorem Denotes.exported {directive : ExportDirective} (denotes : Denotes file others exports analyzers)
    (built : written.build file = .ok (.exported directive)) :
    Denotes file (written :: others) (directive :: exports) analyzers := by
  obtain ⟨directives, builtOthers, rfl, rfl⟩ := denotes
  exact ⟨_, buildAll_cons built builtOthers, rfl, rfl⟩

theorem Denotes.analyzer {directive : AnalyzerDirective}
    (denotes : Denotes file others exports analyzers)
    (built : written.build file = .ok (.analyzer directive)) :
    Denotes file (written :: others) exports (directive :: analyzers) := by
  obtain ⟨directives, builtOthers, rfl, rfl⟩ := denotes
  exact ⟨_, buildAll_cons built builtOthers, rfl, rfl⟩

/-- What is laid out is read from any place on; `done` are the directives before, last first. -/
theorem runFrom_of_laysOut {before text : List Char} (lays : LaysOut file before exports analyzers text)
    (whole : List Char) (previous : Option Token) (done : List WrittenDirective) :
    ∃ written, Denotes file written exports analyzers ∧
      WrittenDirective.machine.runFrom whole (.directives done) previous (Position.start.advance before)
        text = .ok (done.reverse ++ written) := by
  induction lays generalizing previous done with
  | ended isGap =>
    refine ⟨[], ⟨[], rfl, rfl, rfl⟩, Machine.runFrom_of_gap isGap ?_⟩
    rw [List.append_nil]
    rfl
  | @exported before gap inner rest source host words _ _ isGap exportWords spaced _ ih =>
    let denoted (first past : Position) : Directive :=
      .exported ⟨source, host, .between first past file⟩
    obtain ⟨own, token, built, ran⟩ := @runFrom_of_directive words done file before _ _ .exportWord
      _ denoted rfl (by decide) (fun _ => leads_export exportWords) isGap spaced whole rest previous
    obtain ⟨others, denotes, goesOn⟩ := ih (some token) (own :: done)
    refine ⟨own :: others, denotes.exported built, ?_⟩
    rw [ran, goesOn, List.reverse_cons, List.append_assoc, List.singleton_append]
  | @analyzer before gap inner rest name transport unit ports words _ _ isGap analyzerWords spaced _ ih =>
    let denoted (first past : Position) : Directive :=
      .analyzer ⟨name, transport, unit, ports, .between first past file⟩
    obtain ⟨own, token, built, ran⟩ := @runFrom_of_directive words done file before _ _ .analyzer
      _ denoted rfl (by decide) (fun _ => leads_analyzer analyzerWords) isGap spaced whole rest previous
    obtain ⟨others, denotes, goesOn⟩ := ih (some token) (own :: done)
    refine ⟨own :: others, denotes.analyzer built, ?_⟩
    rw [ran, goesOn, List.reverse_cons, List.append_assoc, List.singleton_append]

end DirectiveReading

namespace GlueFile

/-- Every text of some exports and some analyzers is read as these exports and these analyzers, each
list in the order of the text. -/
theorem ofText_of_laysOut {file : Option String} {exports : List ExportDirective}
    {analyzers : List AnalyzerDirective} {text : List Char}
    (lays : LaysOut file [] exports analyzers text) :
    ∃ glue, ofText text file = .ok glue ∧ glue.exports = exports ∧ glue.analyzers = analyzers := by
  obtain ⟨written, ⟨directives, built, isExports, isAnalyzers⟩, ran⟩ :=
    DirectiveReading.runFrom_of_laysOut lays text none []
  have wasRead : WrittenDirective.read text = .ok written := ran
  refine ⟨⟨directives⟩, ?_, isExports, isAnalyzers⟩
  simp only [ofText, wasRead, built]

/-! ## A file whose names are keywords -/

def keywordText : List Char :=
  ("export as;\nanalyzer over over TCP:parse with port::analyzer, port 080 , port 8;# end\n" ++
    "export with::as#\nas as::export;").toList

def keywordExports : List ExportDirective :=
  [⟨"as", "as", .between ⟨1, 1⟩ ⟨1, 11⟩ none⟩,
    ⟨"with::as", "as::export", .between ⟨3, 1⟩ ⟨4, 15⟩ none⟩]

def keywordAnalyzers : List AnalyzerDirective :=
  [⟨"over", "TCP", "port::analyzer", [80, 8], .between ⟨2, 1⟩ ⟨2, 69⟩ none⟩]

theorem nameWords_single {name : String} (named : IsIdentifier name) :
    NameWords name [Word.name name] :=
  @NameWords.joined name [] named (by simp)

theorem nameWords_pair {first second name : String} (isFirst : IsIdentifier first)
    (isSecond : IsIdentifier second) (joined : name = first ++ "::" ++ second) :
    NameWords name [Word.name first, ofTerminal .scope, Word.name second] :=
  joined ▸ @NameWords.joined first [second] isFirst (by simpa using isSecond)

theorem spaced_analyzer : Spaced true
    ([Word.name "over", ofTerminal .over, ⟨.transport, "TCP".toList⟩, ofTerminal .colon,
      ofTerminal .parse, ofTerminal .withWord, Word.name "port", ofTerminal .scope,
      Word.name "analyzer", ofTerminal .comma, ofTerminal .port, ⟨.natural, "080".toList⟩,
      ofTerminal .comma, ofTerminal .port, ⟨.natural, "8".toList⟩])
    " over over TCP:parse with port::analyzer, port 080 , port 8".toList := by
  simp only [String.reduceToList]
  have blank : Gap [' '] := .blank rfl .nil
  iterate 3 refine .word blank (by decide) ?_
  iterate 2 refine .word .nil (by decide) ?_
  iterate 2 refine .word blank (by decide) ?_
  iterate 3 refine .word .nil (by decide) ?_
  iterate 5 refine .word blank (by decide) ?_
  exact .done .nil

theorem spaced_renamed : Spaced true
    [Word.name "with", ofTerminal .scope, Word.name "as", ofTerminal .asWord, Word.name "as",
      ofTerminal .scope, Word.name "export"] " with::as#\nas as::export".toList := by
  simp only [String.reduceToList]
  have blank : Gap [' '] := .blank rfl .nil
  have comment : Gap ['#', '\n'] := @Gap.comment [] [] (by decide) .nil
  refine .word blank (by decide) (.word .nil (by decide) (.word .nil (by decide) ?_))
  refine .word comment (by decide) (.word blank (by decide) ?_)
  exact .word .nil (by decide) (.word .nil (by decide) (.done .nil))

theorem laysOut_keywordText : LaysOut none [] keywordExports keywordAnalyzers keywordText := by
  have blank : Gap [' '] := .blank rfl .nil
  have feed : Gap ['\n'] := .blank rfl .nil
  have comment : Gap "# end\n".toList := @Gap.comment " end".toList [] (by decide) .nil
  have plain : Spaced true [Word.name "as"] " as".toList := .word blank (by decide) (.done .nil)
  have http : IsPort "080" 80 := ⟨by rfl, by decide, by rfl⟩
  have other : IsPort "8" 8 := ⟨by rfl, by decide, by rfl⟩
  have unit : NameWords "port::analyzer" _ :=
    @nameWords_pair "port" "analyzer" _ (by rfl) (by rfl) (by decide)
  have source : NameWords "with::as" _ := @nameWords_pair "with" "as" _ (by rfl) (by rfl) (by decide)
  have host : NameWords "as::export" _ :=
    @nameWords_pair "as" "export" _ (by rfl) (by rfl) (by decide)
  have analyzer : AnalyzerWords "over" "TCP" "port::analyzer" [80, 8] _ :=
    .analyzer (by rfl) (by simp) unit (.cons http (.cons other .nil))
  have lays : LaysOut none [] _ _ _ := .exported .nil (.plain (nameWords_single (by rfl))) plain
    (.analyzer feed analyzer spaced_analyzer
      (.exported comment (.renamed source host) spaced_renamed (.ended .nil)))
  convert lays using 1 <;> decide +kernel

theorem ofText_of_laysOut_keywords : LaysOut none [] keywordExports keywordAnalyzers keywordText ∧
    ∃ glue, ofText keywordText none = .ok glue ∧ glue.exports = keywordExports ∧
      glue.analyzers = keywordAnalyzers :=
  ⟨laysOut_keywordText, ofText_of_laysOut laysOut_keywordText⟩

end GlueFile

end WireModules
