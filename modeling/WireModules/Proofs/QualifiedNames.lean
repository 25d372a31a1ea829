import WireModules.Proofs.Lexing
import WireModules.Types.Name

/-!
# Parts of qualified names

A name of the language has no colon in it. So the module and the type can be told from a qualified
name, whether it is read from its beginning or cut at its last separator.
-/

set_option autoImplicit false

namespace WireModules

theorem toList_qualify (module name : String) :
    (qualify module name).toList = module.toList ++ ':' :: ':' :: name.toList := by
  simp [qualify, scopeSeparator]

theorem qualify_inj {module other name own : String} (named : Scan.isName module.toList = true)
    (otherNamed : Scan.isName other.toList = true) :
    qualify module name = qualify other own ↔ module = other ∧ name = own := by
  constructor
  · intro same
    have chars := congrArg String.toList same
    rw [toList_qualify, toList_qualify] at chars
    -- The first colon ends the module's name.
    have before : ∀ (word : String) (rest : List Char), Scan.isName word.toList = true →
        (word.toList ++ ':' :: rest).takeWhile (· ≠ ':') = word.toList := by
      intro word rest isName
      have noColon : ':' ∉ word.toList := Scan.not_mem_of_isName isName (by decide)
      refine (Scan.takeWhile_append_of_stops ?_ (by simp)).1
      simp only [List.all_eq_true, decide_eq_true_eq]
      rintro char member rfl
      exact noColon member
    have sameModule : module = other := by
      apply String.toList_inj.mp
      rw [← before module (':' :: name.toList) named, chars, before other _ otherNamed]
    subst sameModule
    simp only [List.append_cancel_left_eq, List.cons.injEq, true_and] at chars
    exact ⟨rfl, String.toList_inj.mp chars⟩
  · rintro ⟨rfl, rfl⟩
    rfl

theorem cutAtScope?_append {after before : List Char} (noColon : ':' ∉ after) :
    cutAtScope? (after ++ ':' :: ':' :: before) = some (after, before) := by
  induction after with
  | nil => rfl
  | cons char rest ih =>
    obtain ⟨differs, later⟩ := not_or.mp (mt List.mem_cons.mpr noColon)
    rw [List.cons_append, cutAtScope?]
    · simp [ih later]
    · rintro tail rfl
      exact absurd rfl differs

theorem splitAtScope_qualify {name : String} (module : String)
    (named : Scan.isName name.toList = true) :
    splitAtScope (qualify module name) = (some module, name) := by
  have noColon : ':' ∉ name.toList.reverse := by
    rw [List.mem_reverse]
    exact Scan.not_mem_of_isName named (by decide)
  have cut : cutAtScope? (qualify module name).toList.reverse =
      some (name.toList.reverse, module.toList.reverse) := by
    rw [toList_qualify]
    simp [cutAtScope?_append noColon]
  simp [splitAtScope, cut]

theorem eq_append_of_cutAtScope? {chars after before : List Char}
    (cut : cutAtScope? chars = some (after, before)) : chars = after ++ ':' :: ':' :: before := by
  induction chars using cutAtScope?.induct generalizing after with
  | case1 => cases cut
  | case2 rest =>
    cases cut
    rfl
  | case3 char rest other ih =>
    rw [cutAtScope?] at cut
    · obtain ⟨⟨inner, outer⟩, found, same⟩ := Option.map_eq_some_iff.mp cut
      cases same
      rw [ih found]
      rfl
    · exact other

/-- A name that has a module part is made of its parts. -/
theorem qualify_of_splitAtScope {name module own : String}
    (split : splitAtScope name = (some module, own)) : qualify module own = name := by
  rw [splitAtScope] at split
  split at split
  · cases split
  · next after before cut =>
    cases split
    have chars := congrArg List.reverse (eq_append_of_cutAtScope? cut)
    rw [List.reverse_reverse] at chars
    apply String.toList_inj.mp
    rw [toList_qualify, chars]
    simp

end WireModules
