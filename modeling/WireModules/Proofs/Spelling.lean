import WireModules.Proofs.Binding

/-!
# Spellings of references

A bound reference can be spelled by what it is bound to, which is also how it is shown. What
resolution has added to a reference can be erased, which leaves the reference as a module spells it;
what a reference means is left when its spelling is.
-/

set_option autoImplicit false

namespace WireModules

namespace TypeRef

mutual

/-- A reference with every node spelled anew, by how it is spelled and what it is bound to. -/
def respelled (spell : String → Option String → String) : TypeRef → TypeRef
  | ⟨name, args, resolved, kind⟩ => ⟨spell name resolved, respelledAll spell args, resolved, kind⟩

def respelledAll (spell : String → Option String → String) : List TypeRef → List TypeRef
  | [] => []
  | ref :: rest => ref.respelled spell :: respelledAll spell rest

end

mutual

/-- A reference as spelled, without what resolution adds. -/
def erased : TypeRef → TypeRef
  | ⟨name, args, _, _⟩ => { name, args := erasedAll args }

def erasedAll : List TypeRef → List TypeRef
  | [] => []
  | ref :: rest => ref.erased :: erasedAll rest

end

/-- A reference with every name spelled as it is shown. -/
def spelledOut (ref : TypeRef) : TypeRef :=
  ref.respelled fun name resolved => shownName { name, resolved }

/-- What a reference and its arguments are bound to and of which kinds, however they are spelled. -/
def meaning (ref : TypeRef) : TypeRef :=
  ref.respelled fun _ _ => ""

variable (spell : String → Option String → String)

theorem respelledAll_eq_map (refs : List TypeRef) :
    respelledAll spell refs = refs.map (respelled spell) := by
  induction refs with
  | nil => rfl
  | cons ref rest ih => rw [respelledAll, ih, List.map_cons]

theorem respelled_mk (name : String) (args : List TypeRef) (resolved : Option String)
    (kind : Option TypeKind) :
    respelled spell ⟨name, args, resolved, kind⟩ =
      ⟨spell name resolved, args.map (respelled spell), resolved, kind⟩ := by
  rw [respelled, respelledAll_eq_map]

theorem spelledOut_mk (name : String) (args : List TypeRef) (resolved : Option String)
    (kind : Option TypeKind) :
    spelledOut ⟨name, args, resolved, kind⟩ =
      ⟨shownName { name, resolved }, args.map spelledOut, resolved, kind⟩ :=
  respelled_mk ..

theorem erasedAll_eq_map (refs : List TypeRef) : erasedAll refs = refs.map erased := by
  induction refs with
  | nil => rfl
  | cons ref rest ih => rw [erasedAll, ih, List.map_cons]

theorem erased_mk (name : String) (args : List TypeRef) (resolved : Option String)
    (kind : Option TypeKind) :
    erased ⟨name, args, resolved, kind⟩ = { name, args := args.map erased } := by
  rw [erased, erasedAll_eq_map]

@[simp] theorem resolved_spelledOut (ref : TypeRef) : ref.spelledOut.resolved = ref.resolved := by
  cases ref
  rw [spelledOut_mk]

theorem respelled_respelled (later : String → Option String → String) (ref : TypeRef) :
    (ref.respelled spell).respelled later =
      ref.respelled fun name resolved => later (spell name resolved) resolved := by
  induction ref using argsInduction with
  | node name args resolved kind ih =>
    rw [respelled_mk, respelled_mk, respelled_mk, List.map_map]
    congr 1
    exact List.map_congr_left ih

/-- Spelling a reference out leaves its meaning. -/
theorem meaning_spelledOut (ref : TypeRef) : ref.spelledOut.meaning = ref.meaning :=
  respelled_respelled ..

theorem boundIds_spelledOut (ref : TypeRef) :
    Resolve.boundIds ref.spelledOut = Resolve.boundIds ref := by
  induction ref using argsInduction with
  | node name args resolved kind ih =>
    rw [spelledOut_mk, Resolve.boundIds_mk, Resolve.boundIds_mk, List.flatMap_map,
      List.flatMap_congr ih]

theorem renderAll_eq_map (refs : List TypeRef) : renderAll refs = refs.map render := by
  induction refs with
  | nil => rfl
  | cons ref rest ih => rw [renderAll, ih, List.map_cons]

/-- A reference is spelled out as it is shown. -/
theorem render_erased_spelledOut (ref : TypeRef) : ref.spelledOut.erased.render = ref.render := by
  induction ref using argsInduction with
  | node name args resolved kind ih =>
    rw [spelledOut_mk, erased_mk, List.map_map]
    cases args with
    | nil => rfl
    | cons first rest =>
      have firstShown := ih first (.head _)
      have restShown : (rest.map (erased ∘ spelledOut)).map render = rest.map render := by
        rw [List.map_map]
        exact List.map_congr_left fun ref member => ih ref (.tail _ member)
      simp only [List.map_cons, Function.comp_apply, render, renderAll_eq_map, firstShown, restShown]
      rfl

end TypeRef

namespace Resolve

theorem annotate_spelledOut (graph : AliasGraph) (ref : TypeRef) :
    annotate graph ref.spelledOut = (annotate graph ref).spelledOut := by
  induction ref using TypeRef.argsInduction with
  | node name args resolved kind ih =>
    have inner : (args.map TypeRef.spelledOut).map (annotate graph) =
        (args.map (annotate graph)).map TypeRef.spelledOut := by
      rw [List.map_map, List.map_map]
      exact List.map_congr_left ih
    rw [TypeRef.spelledOut_mk, annotate_mk, annotate_mk, TypeRef.spelledOut_mk, inner]

theorem erased_annotate (graph : AliasGraph) (ref : TypeRef) :
    (annotate graph ref).erased = ref.erased := by
  induction ref using TypeRef.argsInduction with
  | node name args resolved kind ih =>
    rw [annotate_mk, TypeRef.erased_mk, TypeRef.erased_mk, List.map_map]
    congr 1
    exact List.map_congr_left ih

end Resolve

namespace TypeDef

theorem replaceRefs_replaceRefs (first second : TypeRef → TypeRef) (definition : TypeDef) :
    (definition.replaceRefs first).replaceRefs second =
      definition.replaceRefs fun ref => second (first ref) := by
  simp [replaceRefs, Function.comp_def]

theorem replaceRefs_congr {first second : TypeRef → TypeRef} {definition : TypeDef}
    (same : ∀ ref ∈ definition.refs, first ref = second ref) :
    definition.replaceRefs first = definition.replaceRefs second := by
  simp only [refs, List.mem_append, List.mem_map, Option.mem_toList] at same
  have fields : ∀ field ∈ definition.fields, first field.ref = second field.ref :=
    fun field member => same _ (.inl ⟨field, member, rfl⟩)
  have target : definition.target.map first = definition.target.map second := by
    cases found : definition.target with
    | none => rfl
    | some ref => simp [same ref (.inr found)]
  rw [replaceRefs, replaceRefs, target]
  congr 1
  exact List.map_congr_left fun field member => by rw [fields field member]

end TypeDef

end WireModules
