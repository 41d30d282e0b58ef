import Avro.Proofs.FileTree.CleanPaths
import Avro.Proofs.FileTree.Overwriting

/-!
# Directories that are made again

Once the directories of a path are made they stand. Whether a file can be written depends on the
directories alone, and writing files does not change these.
-/

set_option autoImplicit false

open List

namespace Avro.FileTree

variable {tree middle after : FileTree} {path other content : Text} {place : List Text}
  {touched : List Text → Prop}

def Stands (tree : FileTree) (path : Text) : Prop :=
  refusal? path = none ∧
    ∃ place, follow tree.root (tree.origin path) (Text.splitOn '/' path) = .ok place ∧
      tree.occupant? place = some .directory

theorem find_eq_directory : (∃ entries, tree.find path = .ok (.directory entries)) ↔
    tree.Stands path := by
  unfold find Stands
  constructor
  · rintro ⟨entries, found⟩
    split at found
    · cases found
    · rename_i accepted
      split at found
      · cases found
      · rename_i place followed
        split at found
        · rename_i there
          cases found
          exact ⟨accepted, place, followed, occupant?_eq_directory.mpr ⟨entries, there⟩⟩
        · cases found
  · rintro ⟨accepted, place, followed, stands⟩
    obtain ⟨entries, there⟩ := occupant?_eq_directory.mp stands
    refine ⟨entries, ?_⟩
    rw [accepted]
    dsimp only
    rw [followed]
    dsimp only
    rw [there]

theorem Evolves.stands (evolves : tree.Evolves touched after) (stands : tree.Stands path) :
    after.Stands path := by
  obtain ⟨accepted, place, followed, occupied⟩ := stands
  refine ⟨accepted, place, ?_, evolves.directories place occupied⟩
  rw [origin, evolves.working]
  exact evolves.follow followed

theorem content?_eq_some : tree.content? place = some content ↔
    tree.root.at? place = some (.file content) := by
  rw [content?, occupant?, FileNode.occupant?]
  cases tree.root.at? place with
  | none => simp
  | some node => cases node <;> simp [FileNode.occupant, Occupant.content?]

theorem Evolves.readsAt (evolves : tree.Evolves touched after) (reads : tree.ReadsAt path place content)
    (spared : ¬touched place) : after.ReadsAt path place content where
  accepted := reads.accepted
  followed := by
    rw [origin, evolves.working]
    exact evolves.follow reads.followed
  there := by
    rw [← content?_eq_some, evolves.files place spared]
    exact content?_eq_some.mpr reads.there

private theorem follow_empty {parts : List Text} (occupied : tree.occupant? place = some .directory)
    (empty : ∀ part ∈ parts, part = []) : follow tree.root place parts = .ok place := by
  induction parts with
  | nil => rfl
  | cons _ _ ih =>
    obtain ⟨rfl, later⟩ := forall_mem_cons.mp empty
    obtain ⟨entries, there⟩ := occupant?_eq_directory.mp occupied
    rw [follow, there]
    exact ih later

private theorem splitOn_eq_trimmedParts_append (path : Text) :
    ∃ empty, Text.splitOn '/' path = trimmedParts path ++ empty ∧ ∀ part ∈ empty, part = [] := by
  refine ⟨((Text.splitOn '/' path).reverse.takeWhile List.isEmpty).reverse, ?_, ?_⟩
  · rw [trimmedParts, ← reverse_append, takeWhile_append_dropWhile, reverse_reverse]
  · intro part member
    have empty := all_eq_true.mp all_takeWhile part (mem_reverse.mp member)
    exact List.isEmpty_iff.mp empty

theorem isEmpty_of_trimmedParts {name : Text} (last : (trimmedParts path).getLast? = some name) :
    name.isEmpty = false := by
  rw [trimmedParts, getLast?_reverse] at last
  have kept := head?_dropWhile_not List.isEmpty (Text.splitOn '/' path).reverse
  rw [last] at kept
  exact kept

theorem Locates.stands (leads : tree.Locates path place)
    (occupied : tree.occupant? place = some .directory) : tree.Stands path := by
  obtain ⟨above, name, found, rfl⟩ := leads
  obtain ⟨accepted, last, followed, stands, plain, short⟩ := target_ok_iff.mp found
  obtain ⟨empty, split, allEmpty⟩ := splitOn_eq_trimmedParts_append path
  have named := isEmpty_of_trimmedParts last
  obtain ⟨front, whole⟩ := getLast?_eq_some_iff.mp last
  rw [whole, dropLast_concat] at followed
  obtain ⟨entries, there⟩ := occupant?_eq_directory.mp stands
  refine ⟨accepted, above ++ [name], ?_, occupied⟩
  rw [split, whole, append_assoc, follow_append, followed, ok_bind, follow_append, follow, there]
  simp only [named, short, Bool.false_or, decide_eq_true_eq, if_false, not_or.mp plain]
  exact follow_empty occupied allEmpty

theorem stands_of_isDirectory (directory : tree.isDirectory path = true) : tree.Stands path := by
  unfold isDirectory at directory
  split at directory
  · rename_i node found
    cases node with
    | file => cases directory
    | directory entries => exact find_eq_directory.mp ⟨entries, found⟩
  · cases directory

private theorem stands_of_ensureDirectory (ensured : tree.ensureDirectory path = .ok after) :
    after.Stands path := by
  unfold ensureDirectory at ensured
  split at ensured
  · rename_i entries found
    cases ensured
    exact find_eq_directory.mp ⟨entries, found⟩
  · cases ensured
  · split at ensured
    · rename_i made
      cases ensured
      obtain ⟨_, place, leads, _, changes⟩ := makeDirectory_ok made
      refine ((evolves_of_makeDirectory made).locates leads).stands ?_
      rw [changes, if_pos rfl]
    · split at ensured
      · rename_i directory
        cases ensured
        exact stands_of_isDirectory directory
      · cases ensured

theorem stands_of_foldlM {paths : List Text} (made : paths.foldlM ensureDirectory tree = .ok after) :
    ∀ path ∈ paths, after.Stands path := by
  induction paths generalizing tree with
  | nil => exact forall_mem_nil _
  | cons _ _ ih =>
    obtain ⟨middle, ensured, later⟩ := bind_ok.mp made
    refine forall_mem_cons.mpr ⟨?_, ih later⟩
    have evolves : middle.Evolves (fun _ => False) after := by
      refine foldlM_keeps ?_ later ?_
      · exact .refl _ _
      · intro part _ before next evolves ensured
        exact evolves.trans (evolves_of_ensureDirectory ensured)
    exact evolves.stands (stands_of_ensureDirectory ensured)

private theorem foldlM_of_stands {paths : List Text} (standing : ∀ path ∈ paths, tree.Stands path) :
    paths.foldlM ensureDirectory tree = .ok tree := by
  induction paths with
  | nil => rfl
  | cons first _ ih =>
    obtain ⟨stands, later⟩ := forall_mem_cons.mp standing
    obtain ⟨entries, found⟩ := find_eq_directory.mpr stands
    have ensured : tree.ensureDirectory first = .ok tree := by
      unfold ensureDirectory
      rw [found]
    rw [foldlM_cons, ensured, ok_bind]
    exact ih later

theorem makeDirectories_again (made : tree.makeDirectories path = .ok middle)
    (evolves : middle.Evolves touched after) : after.makeDirectories path = .ok after :=
  foldlM_of_stands fun part member => evolves.stands (stands_of_foldlM made part member)

theorem write_ok_iff : (∃ after, tree.write path content = .ok after) ↔
    ∃ place, tree.Locates path place ∧ tree.occupant? place ≠ some .directory := by
  constructor
  · rintro ⟨after, written⟩
    obtain ⟨place, leads, _, bare, _⟩ := write_ok written
    exact ⟨place, leads, bare⟩
  · rintro ⟨_, ⟨above, name, found, rfl⟩, bare⟩
    unfold write
    rw [found]
    dsimp only
    split
    · rename_i entries there
      exact absurd (occupant?_eq_directory.mpr ⟨entries, there⟩) bare
    · exact ⟨_, rfl⟩

/-- Whether a file can be written does not depend on the files that have been written. -/
theorem write_ok_iff_of_write {text later : Text} (written : tree.write other text = .ok after) :
    (∃ last, after.write path content = .ok last) ↔ ∃ last, tree.write path later = .ok last := by
  obtain ⟨place, _, evolves, _⟩ := evolves_of_write written
  obtain ⟨_, _, stays, bare, changes⟩ := write_ok written
  have back : after.Evolves (fun _ => True) tree := by
    refine ⟨stays.symm, ?_, fun place touched => absurd trivial touched⟩
    intro place stands
    rw [changes] at stands
    split at stands
    · cases stands
    · exact stands
  rw [write_ok_iff, write_ok_iff]
  constructor
  · rintro ⟨place, leads, bare⟩
    exact ⟨place, back.locates leads, fun stands => bare (evolves.directories place stands)⟩
  · rintro ⟨place, leads, bare⟩
    exact ⟨place, evolves.locates leads, fun stands => bare (back.directories place stands)⟩

end Avro.FileTree
