import Mathlib.Data.List.Induction
import WireModules.Proofs.DirectoryEntries
import WireModules.Proofs.Outcome

/-!
# Where paths lead

There are no links in a file tree, so that the components of a path tell where it leads, if it leads
anywhere. A path that leads somewhere and its normal form lead to the same place.
-/

set_option autoImplicit false

namespace WireModules

namespace Path

/-- No component is blank; so it is with every path that was read from a text. -/
def IsClean (path : Path) : Prop :=
  ∀ component ∈ path.components, isBlank component = false

theorem isClean_ofString (text : String) : (ofString text).IsClean := by
  intro component member
  simpa using (List.mem_filter.mp member).2

theorem IsClean.div {base path : Path} (cleanBase : base.IsClean) (clean : path.IsClean) :
    (base / path).IsClean := by
  change (base.join path).IsClean
  rw [join]
  split
  · exact clean
  · exact List.forall_mem_append.mpr ⟨cleanBase, clean⟩

/-- A path without components, a path that ends in `..`, or something plain in a directory. -/
theorem IsClean.cases {path : Path} (clean : path.IsClean) :
    path.components = [] ∨ (∃ directory, path = child directory up) ∨
      ∃ directory component, IsPlain component ∧ path = child directory component := by
  rcases List.eq_nil_or_concat path.components with empty | ⟨before, component, split⟩
  · exact .inl empty
  rw [List.concat_eq_append] at split
  have whole : path = child ⟨path.anchor, before⟩ component := by
    rw [child, ← split]
  by_cases isUp : component = up
  · exact .inr (.inl ⟨_, isUp ▸ whole⟩)
  · have filled : isBlank component = false := clean component (by rw [split]; simp)
    exact .inr (.inr ⟨_, component, ⟨filled, isUp⟩, whole⟩)

end Path

namespace FileSystem

variable {files : FileSystem} {path : Path} {start between last : Location}

/-- Where a path leads, if it leads anywhere. -/
def destination (files : FileSystem) (path : Path) : Location :=
  path.components.foldl onward (files.origin path)

theorem eq_destination (located : files.locate path = .ok last) : last = files.destination path :=
  eq_of_follow located

/-- Where `..` leads, there is a directory. -/
theorem find?_of_follow_up (followed : files.follow between [Path.up] = .ok last) :
    ∃ entries, files.root.find? last = some (.directory entries) := by
  have isLast : last = between.dropLast := eq_of_follow followed
  obtain ⟨⟨entries, found⟩, _, _⟩ := follow_cons followed
  rcases List.eq_nil_or_concat between with rfl | ⟨before, name, rfl⟩
  · exact ⟨entries, isLast ▸ found⟩
  · rw [List.concat_eq_append, List.dropLast_concat] at isLast
    rw [List.concat_eq_append, FileTree.find?_append] at found
    rw [isLast]
    cases above : files.root.find? before with
    | none =>
      rw [above] at found
      cases found
    | some tree =>
      cases tree with
      | directory others => exact ⟨others, rfl⟩
      | file content =>
        -- A plain file has no entries.
        rw [above] at found
        cases found

theorem follow_collapseOnto {anchor : Anchor} {stack : List String} {component : String}
    (atRoot : anchor ≠ .relative → start = []) (filled : Path.isBlank component = false)
    (led : files.follow start stack.reverse = .ok between)
    (followed : files.follow between [component] = .ok last) :
    files.follow start (Path.collapseOnto anchor stack component).reverse = .ok last := by
  have onTop : files.follow start (component :: stack).reverse = .ok last := by
    rw [List.reverse_cons, follow_append led]
    exact followed
  unfold Path.collapseOnto
  rw [if_neg (by simp [filled])]
  split
  · exact onTop
  next isUp =>
  rw [ne_eq, Decidable.not_not] at isUp
  subst isUp
  obtain ⟨entries, present⟩ := find?_of_follow_up followed
  have isLast : last = between.dropLast := eq_of_follow followed
  split
  · split
    · exact onTop
    · next absolute =>
      -- Above the root there is the root.
      have atTop : between = [] := (eq_of_follow led).trans (atRoot absolute)
      have back : last = between := by rw [isLast, atTop, List.dropLast_nil]
      rw [back]
      exact led
  · next top before =>
    split
    · exact onTop
    · next down =>
      rw [List.reverse_cons] at led
      obtain ⟨above, ledAbove, descended⟩ := exists_of_follow_append led
      have descends : between = above ++ [top] := by
        rw [eq_of_follow descended, List.foldl_cons, onward, if_neg down, List.foldl_nil]
      rw [isLast, descends, List.dropLast_concat]
      exact ledAbove

/-- Collapsed components lead where the components lead. -/
theorem follow_collapsed {anchor : Anchor} {components : List String}
    (atRoot : anchor ≠ .relative → start = [])
    (clean : ∀ component ∈ components, Path.isBlank component = false)
    (followed : files.follow start components = .ok last) :
    files.follow start (components.foldl (Path.collapseOnto anchor) []).reverse = .ok last := by
  induction components using List.reverseRecOn generalizing last with
  | nil => exact followed
  | append_singleton before component ih =>
    obtain ⟨cleanBefore, own⟩ := List.forall_mem_append.mp clean
    obtain ⟨between, led, further⟩ := exists_of_follow_append followed
    rw [List.foldl_append]
    exact follow_collapseOnto atRoot (own component (.head _)) (ih cleanBefore led) further

theorem locate_normalize (clean : path.IsClean) (located : files.locate path = .ok last) :
    files.locate path.normalize = .ok last := by
  have atRoot : path.anchor ≠ .relative → files.origin path = [] := by
    intro absolute
    simp [origin, Path.isAbsolute, absolute]
  exact follow_collapsed atRoot clean located

/-- The normal form of a path that is found is found, and leads to the same place. -/
theorem lookUp_normalize (clean : path.IsClean) (found : files.lookUp path = .ok last) :
    files.lookUp path.normalize = .ok last := by
  obtain ⟨unnull, short, located⟩ := lookUp_eq_ok_iff.mp found
  exact lookUp_eq_ok_iff.mpr
    ⟨Path.hasNull_normalize unnull, Path.isTooLong_normalize short, locate_normalize clean located⟩

/-- A plain file keeps its name in normal form. -/
theorem name_normalize (clean : path.IsClean) (present : files.contains path = .ok true)
    (isFile : files.isFile path.normalize = .ok true) : path.normalize.name = path.name := by
  rcases clean.cases with empty | ⟨directory, rfl⟩ | ⟨directory, component, plain, rfl⟩
  · simp [Path.normalize, Path.name, empty]
  · obtain ⟨location, found⟩ := contains_eq_true_iff.mp present
    obtain ⟨_, _, upward⟩ := exists_of_follow_append (lookUp_eq_ok_iff.mp found).2.2
    obtain ⟨_, isDirectory⟩ := find?_of_follow_up upward
    obtain ⟨own, content, foundOwn, there⟩ := exists_of_isFile isFile
    cases (lookUp_normalize clean found).symm.trans foundOwn
    cases isDirectory.symm.trans there
  · rw [Path.normalize_child plain, Path.name_child, Path.name_child]

end FileSystem

end WireModules
