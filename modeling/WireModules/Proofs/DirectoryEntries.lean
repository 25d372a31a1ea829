import WireModules.Proofs.Lookups

/-!
# Entries of directories

A file that is located by a plain last component is an entry of the directory that is located by the
components before. No directory has more entries than the whole tree has files and directories.
-/

set_option autoImplicit false

namespace WireModules

namespace FileTree

theorem length_le_sizeOfEntries (entries : List (String × FileTree)) :
    entries.length ≤ sizeOfEntries entries := by
  induction entries with
  | nil => exact Nat.le_refl 0
  | cons entry rest ih =>
    have counted : 1 ≤ entry.2.size := by
      cases entry.2 with
      | file content => exact Nat.le_refl 1
      | directory inner => exact Nat.le_add_left ..
    change rest.length + 1 ≤ entry.2.size + sizeOfEntries rest
    omega

theorem length_entries_le_size (tree : FileTree) : tree.entries.length ≤ tree.size := by
  cases tree with
  | file content => exact Nat.zero_le _
  | directory entries =>
    have counted := length_le_sizeOfEntries entries
    change entries.length ≤ sizeOfEntries entries + 1
    omega

theorem size_le_sizeOfEntries {entries : List (String × FileTree)} {name : String}
    {child : FileTree} (found : entries.lookup name = some child) :
    child.size ≤ sizeOfEntries entries := by
  induction entries with
  | nil => cases found
  | cons entry rest ih =>
    obtain ⟨own, tree⟩ := entry
    change child.size ≤ tree.size + sizeOfEntries rest
    rw [List.lookup_cons] at found
    split at found
    · cases found
      exact Nat.le_add_right ..
    · have counted := ih found
      omega

theorem size_le_of_find? {tree sub : FileTree} {location : Location}
    (found : tree.find? location = some sub) : sub.size ≤ tree.size := by
  induction location generalizing tree with
  | nil =>
    cases found
    exact Nat.le_refl _
  | cons name rest ih =>
    rw [find?] at found
    split at found
    · next child inside =>
      have below := ih found
      cases tree with
      | file content => cases inside
      | directory entries =>
        have counted : child.size ≤ sizeOfEntries entries := size_le_sizeOfEntries inside
        change sub.size ≤ sizeOfEntries entries + 1
        omega
    · cases found

theorem find?_append (tree : FileTree) (first second : Location) :
    tree.find? (first ++ second) = (tree.find? first).bind fun sub => sub.find? second := by
  induction first generalizing tree with
  | nil => rfl
  | cons name rest ih =>
    rw [List.cons_append, find?, find?]
    split
    · exact ih _
    · rfl

end FileTree

namespace FileSystem

variable {files : FileSystem}

/-- The names of what stands in a directory. -/
def entryNames (files : FileSystem) (directory : Path) : List String :=
  match files.locate directory with
  | .ok location => ((files.root.find? location).elim [] FileTree.entries).map Prod.fst
  | .error _ => []

theorem length_entryNames_le (files : FileSystem) (directory : Path) :
    (files.entryNames directory).length ≤ files.root.size := by
  rw [entryNames]
  split
  · next location _ =>
    rw [List.length_map]
    cases found : files.root.find? location with
    | none => exact Nat.zero_le _
    | some tree =>
      exact Nat.le_trans tree.length_entries_le_size (FileTree.size_le_of_find? found)
  · exact Nat.zero_le _

theorem mem_entryNames_of_locate {directory : Path} {component : String} {location : Location}
    (plain : Path.IsPlain component)
    (located : files.locate (directory.child component) = .ok location) :
    component ∈ files.entryNames directory := by
  obtain ⟨between, inDirectory, inChild⟩ := exists_of_follow_append located
  have here : files.locate directory = .ok between := inDirectory
  obtain ⟨⟨entries, found⟩, _, onto⟩ := follow_cons inChild
  rw [onward, if_neg plain.2] at onto
  obtain ⟨tree, below⟩ := find?_of_follow onto
  rw [FileTree.find?_append, found] at below
  change (FileTree.directory entries).find? [component] = some tree at below
  rw [FileTree.find?] at below
  split at below
  · next child listed =>
    obtain ⟨before, after, split, _⟩ := List.lookup_eq_some_iff.mp listed
    change entries = before ++ (component, child) :: after at split
    simp [entryNames, here, found, FileTree.entries, split]
  · cases below

end FileSystem

end WireModules
