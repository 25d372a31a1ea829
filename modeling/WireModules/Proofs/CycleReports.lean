import WireModules.Proofs.Resolution

/-!
# Reports of cycles

Resolution reports names that it cannot bind, and then cycles of aliases. The two can be told apart
by what they say, and every cycle found has its report.
-/

set_option autoImplicit false

namespace WireModules

/-- How a report of a cycle begins. -/
def cycleOpening : String := "alias cycle through '"

def Diagnostic.reportsCycle (diagnostic : Diagnostic) : Bool :=
  cycleOpening.toList.isPrefixOf diagnostic.message.toList

theorem isPrefixOf_cycleOpening {opening : String}
    (differs : opening.toList.head?.any (· ≠ 'a') = true) (rest : List Char) :
    cycleOpening.toList.isPrefixOf (opening.toList ++ rest) = false := by
  have first : cycleOpening.toList.head? = some 'a' := by decide
  obtain ⟨chars, spelled⟩ := List.head?_eq_some_iff.mp first
  cases written : opening.toList with
  | nil => simp [written] at differs
  | cons char others =>
    simp only [written, List.head?_cons, Option.any_some, decide_eq_true_eq] at differs
    rw [spelled, List.cons_append, List.isPrefixOf_cons_cons]
    simp [Ne.symm differs]

namespace ResolveError

def isCycle : ResolveError → Bool
  | .aliasCycle _ => true
  | _ => false

theorem reportsCycle_diagnostic (error : ResolveError) (unit : ProgramUnit) (position : Position) :
    (error.diagnostic unit position).reportsCycle = error.isCycle := by
  change cycleOpening.toList.isPrefixOf error.message.toList = _
  delta message
  cases error with
  | aliasCycle id =>
    change cycleOpening.toList.isPrefixOf (cycleOpening ++ id ++ "'").toList = true
    simp only [String.toList_append, List.append_assoc]
    exact List.isPrefixOf_iff_prefix.mpr (List.prefix_append ..)
  | _ =>
    dsimp only
    simp only [String.toList_append, List.append_assoc]
    exact isPrefixOf_cycleOpening (by decide) _

end ResolveError

namespace Resolve

theorem not_isCycle_of_bindName {scope : Scope} {name : String} {error : ResolveError}
    (failed : bindName scope name = .error error) : error.isCycle = false := by
  rw [bindName] at failed
  split at failed
  · next refused =>
    cases failed
    rw [candidates] at refused
    split at refused
    · cases refused
    · split at refused
      · cases refused
      · cases refused
        rfl
  · split at failed
    · cases failed
      rfl
    · split at failed
      · cases failed
        rfl
      · cases failed

theorem not_isCycle_of_bindNode {scope : Scope} {name : String} {args : List TypeRef}
    {error : ResolveError} (member : error ∈ (bindNode scope name args).2) :
    error.isCycle = false := by
  rw [bindNode] at member
  split at member
  · split at member
    · cases member
    · cases List.mem_singleton.mp member
      rfl
  · split at member
    · cases List.mem_singleton.mp member
      rfl
    · split at member
      · cases member
      · split at member
        · cases member
        · next failed =>
          cases List.mem_singleton.mp member
          exact not_isCycle_of_bindName failed

theorem not_isCycle_of_bindRef {scope : Scope} {ref : TypeRef} {error : ResolveError}
    (member : error ∈ (bindRef scope ref).2) : error.isCycle = false := by
  induction ref using TypeRef.argsInduction with
  | node name args resolved kind ih =>
    rw [bindRef_mk] at member
    rcases List.mem_append.mp member with inner | own
    · obtain ⟨arg, inside, member⟩ := List.mem_flatMap.mp inner
      exact ih arg inside member
    · exact not_isCycle_of_bindNode own

variable {units : List ProgramUnit}

theorem not_reportsCycle_of_nameDiagnostics :
    ∀ diagnostic ∈ nameDiagnostics units, diagnostic.reportsCycle = false := by
  intro diagnostic member
  simp only [nameDiagnostics, bindErrors, List.mem_flatMap, List.mem_map, List.mem_append] at member
  obtain ⟨unit, _, decl, _, ⟨error, position⟩, found, rfl⟩ := member
  rw [ResolveError.reportsCycle_diagnostic]
  rcases found with ⟨field, _, _, inRef, same⟩ | ⟨target, _, _, inRef, same⟩
  · cases same
    exact not_isCycle_of_bindRef inRef
  · cases same
    exact not_isCycle_of_bindRef inRef

theorem reportsCycle_of_cycleDiagnostics :
    ∀ diagnostic ∈ cycleDiagnostics units, diagnostic.reportsCycle = true := by
  intro diagnostic member
  obtain ⟨id, _, reported⟩ := List.mem_filterMap.mp member
  obtain ⟨declared, _, rfl⟩ := Option.map_eq_some_iff.mp reported
  exact ResolveError.reportsCycle_diagnostic ..

theorem length_cycleDiagnostics :
    (cycleDiagnostics units).length =
      ((aliasGraph units).cycles (aliasGraph units).names (metIds units)).length := by
  apply List.filterMap_length_eq_length.mpr
  intro id closed
  have declared := AliasGraph.declared_of_mem_cycles closed
  obtain ⟨found, lookedUp, _⟩ := Option.map_eq_some_iff.mp declared
  simp [AliasGraph.cycleDiagnostic?, lookedUp]

theorem filter_not_reportsCycle :
    ((Resolution.ofUnits units).diagnostics.filter fun diagnostic => !diagnostic.reportsCycle) =
      nameDiagnostics units := by
  have kept : ∀ diagnostic ∈ nameDiagnostics units, (!diagnostic.reportsCycle) = true := by
    intro diagnostic member
    simp [not_reportsCycle_of_nameDiagnostics diagnostic member]
  have dropped : ∀ diagnostic ∈ cycleDiagnostics units, ¬(!diagnostic.reportsCycle) = true := by
    intro diagnostic member
    simp [reportsCycle_of_cycleDiagnostics diagnostic member]
  rw [Resolution.ofUnits, List.filter_append, List.filter_eq_self.mpr kept,
    List.filter_eq_nil_iff.mpr dropped, List.append_nil]

theorem countP_reportsCycle :
    (Resolution.ofUnits units).diagnostics.countP Diagnostic.reportsCycle =
      (cycleDiagnostics units).length := by
  have none : (nameDiagnostics units).countP Diagnostic.reportsCycle = 0 := by
    apply List.countP_eq_zero.mpr
    intro diagnostic member
    simp [not_reportsCycle_of_nameDiagnostics diagnostic member]
  have all : (cycleDiagnostics units).countP Diagnostic.reportsCycle =
      (cycleDiagnostics units).length :=
    List.countP_eq_length.mpr reportsCycle_of_cycleDiagnostics
  rw [Resolution.ofUnits, List.countP_append, none, all, Nat.zero_add]

end Resolve

end WireModules
