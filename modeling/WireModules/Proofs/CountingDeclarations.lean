import WireModules.Proofs.RecordedReferences

/-!
# Declarations that count

Of several declarations of one qualified name the last one counts, whichever unit it stands in. The
tables of resolution hold these declarations, and resolution changes neither which they are nor what
they are declared to be.
-/

set_option autoImplicit false

namespace WireModules.Resolve

variable {units : List ProgramUnit} {declared : Declared}

/-- No later declaration of a program has the same qualified name. -/
def Counts (units : List ProgramUnit) (declared : Declared) : Prop :=
  ∃ earlier later, declarations units = earlier ++ declared :: later ∧
    ∀ other ∈ later, other.id ≠ declared.id

theorem Counts.mem (counts : Counts units declared) : declared ∈ declarations units := by
  obtain ⟨earlier, later, split, _⟩ := counts
  rw [split]
  simp

/-- The table of declarations has those that count. -/
theorem counts_iff : Counts units declared ↔ (declTable units).lookup declared.id = some declared := by
  rw [declTable_eq, List.lookup_eq_some_iff]
  constructor
  · rintro ⟨earlier, later, split, last⟩
    refine ⟨later.reverse.map fun other => (other.id, other),
      earlier.reverse.map fun other => (other.id, other), ?_, ?_⟩
    · simp [split]
    · intro entry member
      obtain ⟨other, inside, rfl⟩ := List.mem_map.mp member
      simpa using (last other (List.mem_reverse.mp inside)).symm
  · rintro ⟨before, after, split, first⟩
    obtain ⟨later, rest, reversed, rfl, sameRest⟩ := List.map_eq_append_iff.mp split
    obtain ⟨own, earlier, rfl, sameOwn, rfl⟩ := List.map_eq_cons_iff.mp sameRest
    obtain rfl : own = declared := congrArg Prod.snd sameOwn
    refine ⟨earlier.reverse, later.reverse, ?_, ?_⟩
    · rw [← List.reverse_reverse (declarations units), reversed]
      simp
    · intro other member same
      have differs := first _ (List.mem_map_of_mem (List.mem_reverse.mp member))
      simp [same] at differs

theorem lookup_declTable_iff {id : String} :
    (declTable units).lookup id = some declared ↔ Counts units declared ∧ declared.id = id := by
  constructor
  · intro found
    have same := (lookup_declTable found).2
    exact ⟨counts_iff.mpr (same ▸ found), same⟩
  · rintro ⟨counts, rfl⟩
    exact counts_iff.mp counts

theorem Counts.unique {other : Declared} (first : Counts units declared)
    (second : Counts units other) (same : declared.id = other.id) : declared = other := by
  have found := counts_iff.mp first
  rw [same, counts_iff.mp second] at found
  exact (Option.some.inj found).symm

/-- Where all declarations are changed and keep their names, those count that counted before. -/
theorem counts_map_iff {others : List ProgramUnit} {change : Declared → Declared}
    (changed : declarations others = (declarations units).map change)
    (sameId : ∀ source, (change source).id = source.id) :
    Counts others declared ↔ ∃ source, Counts units source ∧ declared = change source := by
  constructor
  · rintro ⟨earlier, later, split, last⟩
    rw [changed] at split
    obtain ⟨before, rest, sameSplit, _, sameRest⟩ := List.map_eq_append_iff.mp split
    obtain ⟨source, after, rfl, rfl, rfl⟩ := List.map_eq_cons_iff.mp sameRest
    refine ⟨source, ⟨before, after, sameSplit, fun other member => ?_⟩, rfl⟩
    have differs := last _ (List.mem_map_of_mem member)
    rw [sameId, sameId] at differs
    exact differs
  · rintro ⟨source, ⟨before, after, split, last⟩, rfl⟩
    refine ⟨before.map change, after.map change, ?_, ?_⟩
    · rw [changed, split, List.map_append, List.map_cons]
    · intro other member
      obtain ⟨own, inside, rfl⟩ := List.mem_map.mp member
      rw [sameId, sameId]
      exact last own inside

/-! ## The resolved program -/

/-- A declaration as it stands in the resolved program. -/
def resolvedDeclared (units : List ProgramUnit) (declared : Declared) : Declared where
  decl := resolvedType (scopeOf units declared.unit) (aliasGraph units) declared.decl
  unit := resolveUnit (scopeOf units declared.unit) (aliasGraph units) declared.unit

theorem declarations_resolution :
    declarations (Resolution.ofUnits units).units =
      (declarations units).map (resolvedDeclared units) := by
  simp only [Resolution.ofUnits, declarations, List.flatMap_map, List.map_flatMap,
    declaredTypes_resolveUnit, List.map_map]
  rfl

theorem counts_resolution_iff :
    Counts (Resolution.ofUnits units).units declared ↔
      ∃ source, Counts units source ∧ declared = resolvedDeclared units source :=
  counts_map_iff declarations_resolution fun _ => rfl

end WireModules.Resolve
