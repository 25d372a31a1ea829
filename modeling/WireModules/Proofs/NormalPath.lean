import WireModules.Path
import WireModules.Text.Segments

/-!
# Paths in normal form

Collapsing goes over the components with a stack. A path in normal form is one whose components the
stack takes as they are; a plain component goes on any stack.
-/

set_option autoImplicit false

namespace WireModules

theorem Text.segments_of_not_mem {separator : Char} {text : List Char}
    (absent : separator ∉ text) : Text.segments separator text = [text] := by
  induction text with
  | nil => rfl
  | cons char rest ih =>
    obtain ⟨other, later⟩ := not_or.mp (mt List.mem_cons.mpr absent)
    rw [segments, if_neg (Ne.symm other), ih later]

namespace Path

/-- A component that stands for itself. -/
def IsPlain (component : String) : Prop :=
  isBlank component = false ∧ component ≠ up

theorem ofString_of_isPlain {component : String} (plain : IsPlain component)
    (whole : '/' ∉ component.toList) : ofString component = ⟨.relative, [component]⟩ := by
  have relative : anchorOf component.toList = .relative := by
    unfold anchorOf
    split <;> simp_all
  rw [ofString, relative, Text.segments_of_not_mem whole]
  simp [plain.1]

/-- What is called so in a directory. -/
def child (directory : Path) (component : String) : Path :=
  ⟨directory.anchor, directory.components ++ [component]⟩

@[simp] theorem name_child (directory : Path) (component : String) :
    (directory.child component).name = component := by
  simp [child, name]

@[simp] theorem parent_child (directory : Path) (component : String) :
    (directory.child component).parent = directory := by
  simp [child, parent]

theorem div_eq_child (directory : Path) (component : String) :
    directory / (⟨.relative, [component]⟩ : Path) = directory.child component := rfl

theorem collapseOnto_of_isPlain {component : String} (plain : IsPlain component) (anchor : Anchor)
    (stack : List String) : collapseOnto anchor stack component = component :: stack := by
  simp [collapseOnto, plain.1, plain.2]

theorem normalize_child {component : String} (plain : IsPlain component) (directory : Path) :
    (directory.child component).normalize = directory.normalize.child component := by
  simp [normalize, child, collapseOnto_of_isPlain plain]

/-- Stacks that collapsing leads to: plain components above `..`, which only a relative path
keeps. -/
inductive Collapsed (anchor : Anchor) : List String → Prop where
  | nil : Collapsed anchor []
  | plain {component : String} {stack : List String} : IsPlain component →
      Collapsed anchor stack → Collapsed anchor (component :: stack)
  | up {stack : List String} : anchor = .relative → (∀ last ∈ stack.head?, last = Path.up) →
      Collapsed anchor stack → Collapsed anchor (Path.up :: stack)

theorem Collapsed.collapseOnto {anchor : Anchor} {stack : List String}
    (collapsed : Collapsed anchor stack) (component : String) :
    Collapsed anchor (Path.collapseOnto anchor stack component) := by
  unfold Path.collapseOnto
  split
  · exact collapsed
  · next filled =>
    split
    · next other => exact .plain ⟨by simpa using filled, other⟩ collapsed
    · cases collapsed with
      | nil =>
        dsimp only
        split
        · next relative => exact .up relative (by simp) .nil
        · exact .nil
      | plain isPlain below =>
        dsimp only
        rw [if_neg isPlain.2]
        exact below
      | up relative topmost below =>
        dsimp only
        rw [if_pos rfl]
        exact .up relative (by simp) (.up relative topmost below)

theorem collapsed_normalize (path : Path) :
    Collapsed path.anchor path.normalize.components.reverse := by
  rw [normalize, List.reverse_reverse]
  have onto : ∀ (components stack : List String), Collapsed path.anchor stack →
      Collapsed path.anchor (components.foldl (collapseOnto path.anchor) stack) := by
    intro components
    induction components with
    | nil => exact fun _ collapsed => collapsed
    | cons component rest ih => exact fun _ collapsed => ih _ (collapsed.collapseOnto component)
  exact onto _ _ .nil

/-- Collapsing takes the components of a collapsed stack as they are. -/
theorem Collapsed.foldl_reverse {anchor : Anchor} {stack : List String}
    (collapsed : Collapsed anchor stack) :
    stack.reverse.foldl (Path.collapseOnto anchor) [] = stack := by
  induction collapsed with
  | nil => rfl
  | plain isPlain _ ih =>
    rw [List.reverse_cons, List.foldl_append, ih]
    exact collapseOnto_of_isPlain isPlain ..
  | @up stack relative topmost _ ih =>
    rw [List.reverse_cons, List.foldl_append, ih]
    cases stack with
    | nil => simp [Path.collapseOnto, relative, isBlank, Path.up]
    | cons last before =>
      obtain rfl := topmost last rfl
      simp [Path.collapseOnto, isBlank, Path.up]

theorem normalize_normalize (path : Path) : path.normalize.normalize = path.normalize := by
  have same := (collapsed_normalize path).foldl_reverse
  rw [List.reverse_reverse] at same
  change (⟨path.anchor, (path.normalize.components.foldl (collapseOnto path.anchor) []).reverse⟩ :
    Path) = path.normalize
  rw [same, List.reverse_reverse]
  rfl

end Path

end WireModules
