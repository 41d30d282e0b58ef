import Avro.FileTree
import Avro.Proofs.Outcome

/-!
# What writing changes

Writing a file changes what stands at one place, and making a directory fills a place that was
empty. So what a path leads to stays where it is.
-/

set_option autoImplicit false

open List

namespace Avro

inductive Occupant where
  | file (content : Text)
  | directory
deriving DecidableEq, Repr

namespace Occupant

def content? : Occupant → Option Text
  | .file content => some content
  | .directory => none

end Occupant

namespace FileNode

def occupant : FileNode → Occupant
  | .file content => .file content
  | .directory _ => .directory

def occupant? (node : FileNode) (place : List Text) : Option Occupant :=
  (node.at? place).map occupant

private theorem at?_append (node : FileNode) (place below : List Text) :
    node.at? (place ++ below) = (node.at? place).bind fun inner => inner.at? below := by
  induction place generalizing node with
  | nil => rfl
  | cons name _ ih =>
    rw [cons_append, at?, at?]
    cases node.entry? name with
    | none => rfl
    | some entry => exact ih entry

theorem occupant?_cons (node : FileNode) (name : Text) (rest : List Text) :
    node.occupant? (name :: rest) = (node.entry? name).bind fun entry => entry.occupant? rest := by
  rw [occupant?, at?]
  cases node.entry? name <;> rfl

theorem occupant?_below {node : FileNode} {place below : List Text}
    (bare : node.occupant? place ≠ some .directory) (deeper : below ≠ []) :
    node.occupant? (place ++ below) = none := by
  rw [occupant?] at bare ⊢
  rw [at?_append]
  obtain ⟨name, rest, rfl⟩ := exists_cons_of_ne_nil deeper
  cases found : node.at? place with
  | none => rfl
  | some inner =>
    cases inner with
    | file => rfl
    | directory =>
      rw [found] at bare
      exact absurd rfl bare

theorem lookup_cons_if (other name : Text) (node : FileNode) (rest : List (Text × FileNode)) :
    List.lookup other ((name, node) :: rest) =
      if other = name then some node else rest.lookup other := by
  by_cases hit : other = name
  · rw [hit, lookup_cons_self, if_pos rfl]
  · rw [lookup_cons, beq_eq_false_iff_ne.mpr hit, if_neg hit]

theorem lookup_setEntry (name : Text) (node : FileNode) (entries : List (Text × FileNode))
    (other : Text) :
    (setEntry name node entries).lookup other =
      if other = name then some node else entries.lookup other := by
  induction entries with
  | nil => exact lookup_cons_if other name node []
  | cons entry _ ih =>
    obtain ⟨first, old⟩ := entry
    rw [setEntry]
    split
    · rename_i same
      subst same
      rw [lookup_cons_if, lookup_cons_if]
      by_cases hit : other = first <;> simp [hit]
    · rename_i differs
      split
      · rw [lookup_cons_if]
      · rw [lookup_cons_if, ih, lookup_cons_if]
        by_cases hit : other = first
        · simp [hit, differs]
        · simp [hit]

/-- Putting something that has nothing below it at a place that has nothing below it changes what
stands there and nowhere else. -/
theorem occupant?_put {node new : FileNode} {above name}
    (stands : node.occupant? above = some .directory)
    (bare : ∀ below, below ≠ [] → node.occupant? (above ++ name :: below) = none)
    (bareNew : ∀ below, below ≠ [] → new.occupant? below = none) (place : List Text) :
    (node.put (above ++ [name]) new).occupant? place =
      if place = above ++ [name] then some new.occupant else node.occupant? place := by
  induction above generalizing node place with
  | nil =>
    cases node with
    | file => cases stands
    | directory =>
      rw [nil_append, put]
      cases place with
      | nil => rfl
      | cons first rest =>
        rw [occupant?_cons, entry?, lookup_setEntry, occupant?_cons]
        by_cases hit : first = name
        · subst hit
          rw [if_pos rfl]
          cases rest with
          | nil =>
            rw [if_pos rfl]
            rfl
          | cons next more =>
            have nothing := bare (next :: more) (cons_ne_nil _ _)
            rw [nil_append, occupant?_cons] at nothing
            rw [if_neg (by simp), nothing]
            exact bareNew _ (cons_ne_nil _ _)
        · rw [if_neg hit, if_neg (by simp [hit])]
          rfl
  | cons part above ih =>
    cases node with
    | file => cases stands
    | directory entries =>
      rw [occupant?_cons, entry?] at stands
      cases found : entries.lookup part with
      | none =>
        rw [found] at stands
        cases stands
      | some entry =>
        rw [found] at stands
        have bareEntry : ∀ below, below ≠ [] → entry.occupant? (above ++ name :: below) = none := by
          intro below deeper
          have nothing := bare below deeper
          rw [cons_append, occupant?_cons, entry?, found] at nothing
          exact nothing
        rw [cons_append, put, found]
        cases place with
        | nil => rfl
        | cons first rest =>
          rw [occupant?_cons, entry?, lookup_setEntry, occupant?_cons, entry?]
          by_cases hit : first = part
          · subst hit
            rw [if_pos rfl, found]
            simpa using ih stands bareEntry rest
          · rw [if_neg hit, if_neg (by simp [hit])]

end FileNode

namespace FileTree

variable {tree middle after : FileTree} {path content : Text} {place : List Text}

def occupant? (tree : FileTree) (place : List Text) : Option Occupant := tree.root.occupant? place

def content? (tree : FileTree) (place : List Text) : Option Text :=
  (tree.occupant? place).bind Occupant.content?

theorem occupant?_eq_directory :
    tree.occupant? place = some .directory ↔
      ∃ entries, tree.root.at? place = some (.directory entries) := by
  rw [occupant?, FileNode.occupant?, Option.map_eq_some_iff]
  constructor
  · rintro ⟨node, there, same⟩
    cases node with
    | file => cases same
    | directory entries => exact ⟨entries, there⟩
  · rintro ⟨entries, there⟩
    exact ⟨_, there, rfl⟩

def trimmedParts (path : Text) : List Text :=
  ((Text.splitOn '/' path).reverse.dropWhile List.isEmpty).reverse

theorem target_ok_iff {above name} :
    tree.target path = .ok (above, some name) ↔
      refusal? path = none ∧ (trimmedParts path).getLast? = some name ∧
      follow tree.root (tree.origin path) (trimmedParts path).dropLast = .ok above ∧
      tree.occupant? above = some .directory ∧ ¬(name = "." ∨ name = "..") ∧
      ¬longestName < Text.byteLength name := by
  rw [occupant?_eq_directory]
  constructor
  · intro found
    unfold target at found
    dsimp only at found
    split at found
    · cases found
    · cases found
    · rename_i accepted ended
      split at found
      · cases found
      · rename_i followed
        split at found
        · cases found
        · cases found
        · rename_i entries there
          split at found
          · cases found
          · rename_i plain
            split at found
            · cases found
            · rename_i short
              cases found
              exact ⟨accepted, ended, followed, ⟨entries, there⟩, by simpa using plain, short⟩
  · rintro ⟨accepted, ended, followed, ⟨entries, there⟩, plain, short⟩
    unfold target
    rw [← trimmedParts]
    dsimp only
    rw [accepted, ended]
    dsimp only
    rw [followed]
    dsimp only
    rw [there]
    dsimp only
    rw [if_neg (by simpa using plain), if_neg short]

/-- A path leads to a place, where something may stand or not, in a directory that is there. -/
def Locates (tree : FileTree) (path : Text) (place : List Text) : Prop :=
  ∃ above name, tree.target path = .ok (above, some name) ∧ place = above ++ [name]

theorem write_ok (written : tree.write path content = .ok after) :
    ∃ place, tree.Locates path place ∧ after.working = tree.working ∧
      tree.occupant? place ≠ some .directory ∧
      ∀ other, after.occupant? other =
        if other = place then some (.file content) else tree.occupant? other := by
  unfold write at written
  split at written
  · cases written
  · cases written
  · rename_i above name found
    split at written
    · cases written
    · rename_i free
      cases written
      have bare : tree.root.occupant? (above ++ [name]) ≠ some .directory := by
        intro stands
        obtain ⟨node, there, same⟩ := Option.map_eq_some_iff.mp stands
        cases node with
        | file => cases same
        | directory entries => exact free entries there
      refine ⟨above ++ [name], ⟨above, name, found, rfl⟩, rfl, bare, ?_⟩
      apply FileNode.occupant?_put (target_ok_iff.mp found).2.2.2.1
      · intro below deeper
        rw [← singleton_append, ← append_assoc]
        exact FileNode.occupant?_below bare deeper
      · intro below deeper
        exact @FileNode.occupant?_below (.file content) [] below nofun deeper

theorem makeDirectory_ok (made : tree.makeDirectory path = .ok after) :
    after.working = tree.working ∧ ∃ place, tree.Locates path place ∧
      tree.occupant? place = none ∧
      ∀ other, after.occupant? other =
        if other = place then some .directory else tree.occupant? other := by
  unfold makeDirectory at made
  split at made
  · cases made
  · cases made
  · rename_i above name found
    split at made
    · cases made
    · rename_i free
      cases made
      have bare : tree.root.occupant? (above ++ [name]) = none := by
        rw [FileNode.occupant?, free]
        rfl
      refine ⟨rfl, above ++ [name], ⟨above, name, found, rfl⟩, bare, ?_⟩
      apply FileNode.occupant?_put (target_ok_iff.mp found).2.2.2.1
      · intro below deeper
        rw [← singleton_append, ← append_assoc]
        exact FileNode.occupant?_below (by simp [bare]) deeper
      · intro below deeper
        obtain ⟨first, rest, rfl⟩ := exists_cons_of_ne_nil deeper
        rfl

/-- One tree comes from another by making directories and writing files at places of a kind. -/
structure Evolves (touched : List Text → Prop) (before after : FileTree) : Prop where
  working : after.working = before.working
  directories : ∀ place, before.occupant? place = some .directory →
    after.occupant? place = some .directory
  files : ∀ place, ¬touched place → after.content? place = before.content? place

namespace Evolves

variable {touched more : List Text → Prop}

theorem refl (touched : List Text → Prop) (tree : FileTree) : tree.Evolves touched tree :=
  ⟨rfl, fun _ stands => stands, fun _ _ => rfl⟩

theorem trans (first : Evolves touched tree middle) (second : Evolves touched middle after) :
    Evolves touched tree after where
  working := second.working.trans first.working
  directories place stands := second.directories place (first.directories place stands)
  files place spared := (second.files place spared).trans (first.files place spared)

theorem mono (evolves : Evolves touched tree after) (within : ∀ place, touched place → more place) :
    Evolves more tree after where
  working := evolves.working
  directories := evolves.directories
  files place spared := evolves.files place fun among => spared (within place among)

theorem follow (evolves : Evolves touched tree after) {parts start : List Text}
    (followed : FileTree.follow tree.root start parts = .ok place) :
    FileTree.follow after.root start parts = .ok place := by
  induction parts generalizing start with
  | nil => exact followed
  | cons _ _ ih =>
    rw [FileTree.follow] at followed ⊢
    split at followed
    · cases followed
    · cases followed
    · rename_i entries there
      have stands := occupant?_eq_directory.mpr ⟨entries, there⟩
      obtain ⟨others, present⟩ := occupant?_eq_directory.mp (evolves.directories _ stands)
      rw [present]
      dsimp only
      split at followed
      · rw [if_pos ‹_›]
        exact ih followed
      · rw [if_neg ‹_›]
        split at followed
        · rw [if_pos ‹_›]
          exact ih followed
        · rw [if_neg ‹_›]
          split at followed
          · cases followed
          · rw [if_neg ‹_›]
            exact ih followed

theorem locates (evolves : Evolves touched tree after) (leads : tree.Locates path place) :
    after.Locates path place := by
  obtain ⟨above, name, found, rfl⟩ := leads
  obtain ⟨accepted, ended, followed, stands, rest⟩ := target_ok_iff.mp found
  have same : after.origin path = tree.origin path := by rw [origin, origin, evolves.working]
  refine ⟨above, name, target_ok_iff.mpr ?_, rfl⟩
  refine ⟨accepted, ended, ?_, evolves.directories _ stands, rest⟩
  rw [same]
  exact evolves.follow followed

end Evolves

theorem evolves_of_occupant? {new : Occupant} (stays : after.working = tree.working)
    (bare : tree.occupant? place ≠ some .directory)
    (changes : ∀ other, after.occupant? other =
      if other = place then some new else tree.occupant? other) :
    tree.Evolves (· = place) after where
  working := stays
  directories other stands := by
    rw [changes, if_neg]
    · exact stands
    · rintro rfl
      exact bare stands
  files other spared := by rw [content?, content?, changes, if_neg spared]

theorem evolves_of_write (written : tree.write path content = .ok after) :
    ∃ place, tree.Locates path place ∧ tree.Evolves (· = place) after ∧
      after.content? place = some content := by
  obtain ⟨place, leads, stays, bare, changes⟩ := write_ok written
  refine ⟨place, leads, evolves_of_occupant? stays bare changes, ?_⟩
  rw [content?, changes, if_pos rfl]
  rfl

theorem evolves_of_makeDirectory (made : tree.makeDirectory path = .ok after) :
    tree.Evolves (fun _ => False) after := by
  obtain ⟨stays, place, _, free, changes⟩ := makeDirectory_ok made
  have evolves := evolves_of_occupant? stays (by simp [free]) changes
  refine { evolves with files := ?_ }
  intro other _
  by_cases here : other = place
  · rw [content?, content?, changes, if_pos here, here, free]
    rfl
  · exact evolves.files other here

theorem evolves_of_ensureDirectory (ensured : tree.ensureDirectory path = .ok after) :
    tree.Evolves (fun _ => False) after := by
  unfold ensureDirectory at ensured
  split at ensured
  · cases ensured
    exact .refl _ _
  · cases ensured
  · split at ensured
    · rename_i made
      cases ensured
      exact evolves_of_makeDirectory made
    · split at ensured
      · cases ensured
        exact .refl _ _
      · cases ensured

theorem evolves_of_makeDirectories (made : tree.makeDirectories path = .ok after) :
    tree.Evolves (fun _ => False) after := by
  refine foldlM_keeps ?_ made ?_
  · exact .refl _ _
  · intro part _ before next evolves ensured
    exact evolves.trans (evolves_of_ensureDirectory ensured)

end FileTree

end Avro
