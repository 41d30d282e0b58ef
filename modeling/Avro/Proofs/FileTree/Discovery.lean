import Avro.Discovery
import Mathlib.Data.List.Basic

/-!
# What is found

A walk visits the files below its root in the order of the names that lead to them. Of the files
found from several roots, each counts where it is found first.
-/

set_option autoImplicit false

open List

namespace Avro

/-- Every directory lists its entries in ascending order. -/
inductive FileNode.Ordered : FileNode → Prop
  | file {content} : Ordered (.file content)
  | directory {entries : List (Text × FileNode)}
      (ascending : (entries.map Prod.fst).Pairwise (Text.before · ·))
      (each : ∀ entry ∈ entries, Ordered entry.2) : Ordered (.directory entries)

theorem FileNode.Ordered.at? {root node : FileNode} {place : List Text} (ordered : root.Ordered)
    (found : root.at? place = some node) : node.Ordered := by
  induction place generalizing root with
  | nil =>
    cases found
    exact ordered
  | cons _ _ ih =>
    obtain ⟨entry, looked, below⟩ := Option.bind_eq_some_iff.mp found
    cases ordered with
    | file => cases looked
    | directory _ each =>
      obtain ⟨_, _, rfl, _⟩ := lookup_eq_some_iff.mp looked
      exact ih (each _ (mem_append_right _ (mem_cons_self ..))) below

namespace Discovery

/-- The names that lead from a node to a file, with no directory between them that the options leave
out. -/
inductive Reaches (options : WalkOptions) : FileNode → List Text → Prop
  | file {content} : Reaches options (.file content) []
  | entry {entries name node names} (listed : (name, node) ∈ entries)
      (entered : node.isDirectory → ¬options.topLevelOnly ∧
        ¬(options.skipHidden ∧ Text.startsWith name ".") ∧ name ∉ options.excluded)
      (below : Reaches options node names) : Reaches options (.directory entries) (name :: names)

def pathOf (root : Text) (names : List Text) : Text :=
  names.foldl (fun path name => Path.join [path, name]) root

/-- A document at a place: the index of a root, and the names that lead on from it. -/
def Finds (files : FileTree) (options : WalkOptions) (roots : List Text) (place : Nat × List Text)
    (document : Document) : Prop :=
  ∃ root node, roots[place.1]? = some root ∧ files.find root = .ok node ∧
    Reaches options node place.2 ∧ ∃ kind, DocumentKind.ofPath? (pathOf root place.2) = some kind ∧
      (options.kinds = [] ∨ kind ∈ options.kinds) ∧
      document = ⟨kind, pathOf root place.2, none⟩

/-- The order of walks: by the root, and then name by name. -/
def Earlier (first second : Nat × List Text) : Prop :=
  first.1 < second.1 ∨ first.1 = second.1 ∧ List.Lex (Text.before · ·) first.2 second.2

variable (options : WalkOptions)

mutual

def visited : FileNode → List (List Text)
  | .file _ => [[]]
  | .directory entries => visitedBelow entries

def visitedBelow : List (Text × FileNode) → List (List Text)
  | [] => []
  | (name, node) :: rest =>
    (if node.isDirectory && !enters options name then [] else (visited node).map (name :: ·)) ++
      visitedBelow rest

end

mutual

theorem documentsIn_eq : ∀ (node : FileNode) (path : Text), documentsIn options path node =
    (visited options node).flatMap fun names => documentAt options (pathOf path names)
  | .file _, _ => (flatMap_singleton ..).symm
  | .directory entries, path => documentsBelow_eq entries path

theorem documentsBelow_eq : ∀ (entries : List (Text × FileNode)) (path : Text),
    documentsBelow options path entries =
      (visitedBelow options entries).flatMap fun names => documentAt options (pathOf path names)
  | [], _ => rfl
  | (name, node) :: rest, path => by
    rw [documentsBelow, visitedBelow, flatMap_append, documentsBelow_eq rest path]
    split
    · rfl
    · rw [documentsIn_eq node, flatMap_map]
      rfl

end

theorem visitedBelow_eq (entries : List (Text × FileNode)) :
    visitedBelow options entries = entries.flatMap fun entry =>
      if entry.2.isDirectory && !enters options entry.1 then []
      else (visited options entry.2).map (entry.1 :: ·) := by
  induction entries with
  | nil => rfl
  | cons _ _ ih =>
    rw [visitedBelow, ih]
    rfl

variable {options}

theorem mem_visit {entry : Text × FileNode} {names : List Text} :
    (names ∈ if entry.2.isDirectory && !enters options entry.1 then []
      else (visited options entry.2).map (entry.1 :: ·)) ↔
    (entry.2.isDirectory → ¬options.topLevelOnly ∧
      ¬(options.skipHidden ∧ Text.startsWith entry.1 ".") ∧ entry.1 ∉ options.excluded) ∧
    ∃ below ∈ visited options entry.2, entry.1 :: below = names := by
  have entered : (entry.2.isDirectory && !enters options entry.1) = false ↔
      (entry.2.isDirectory → ¬options.topLevelOnly ∧
        ¬(options.skipHidden ∧ Text.startsWith entry.1 ".") ∧ entry.1 ∉ options.excluded) := by
    simp [enters, and_assoc]
  rw [← entered]
  split
  · simp [*]
  · simp [*]

theorem mem_visited {names node} : names ∈ visited options node ↔ Reaches options node names := by
  induction names generalizing node with
  | nil =>
    cases node with
    | file => exact ⟨fun _ => .file, fun _ => mem_singleton_self _⟩
    | directory =>
      rw [visited, visitedBelow_eq, mem_flatMap]
      simp only [mem_visit]
      constructor
      · rintro ⟨_, _, _, _, _, ⟨⟩⟩
      · rintro ⟨⟩
  | cons name names ih =>
    cases node with
    | file =>
      rw [visited, mem_singleton]
      exact ⟨(nomatch ·), (nomatch ·)⟩
    | directory =>
      rw [visited, visitedBelow_eq, mem_flatMap]
      simp only [mem_visit]
      constructor
      · rintro ⟨_, listed, entered, _, below, ⟨⟩⟩
        exact .entry listed entered (ih.mp below)
      · rintro (_ | ⟨listed, entered, below⟩)
        exact ⟨_, listed, entered, names, ih.mpr below, rfl⟩

private theorem visited_ascending {node : FileNode} (ordered : node.Ordered) :
    (visited options node).Pairwise (List.Lex (Text.before · ·)) := by
  induction ordered with
  | file => exact pairwise_singleton ..
  | directory ascending _ ih =>
    rw [visited, visitedBelow_eq, pairwise_flatMap]
    constructor
    · intro entry listed
      split
      · exact .nil
      · exact pairwise_map.mpr ((ih entry listed).imp .cons)
    · refine (pairwise_map.mp ascending).imp fun before => ?_
      simp only [mem_visit]
      rintro _ ⟨_, _, _, rfl⟩ _ ⟨_, _, _, rfl⟩
      exact .rel before

/-! ## Several roots -/

variable {files : FileTree}

/-- What a walk from a root finds, with the places. -/
def placed (files : FileTree) (options : WalkOptions) (root : Text) (index : Nat) :
    List ((Nat × List Text) × Document) :=
  match files.find root with
  | .error _ => []
  | .ok node => (visited options node).flatMap fun names =>
    (documentAt options (pathOf root names)).map (((index, names), ·))

private theorem walk_eq {root : Text} (index : Nat)
    (there : (∃ node, files.find root = .ok node) ∨ files.find root = .error .missing) :
    walk files options root = .ok ((placed files options root index).map Prod.snd) := by
  unfold walk placed
  obtain ⟨node, found⟩ | missing := there
  · rw [found]
    dsimp only
    rw [documentsIn_eq, map_flatMap]
    simp only [map_map, Function.comp_def, map_id']
  · rw [missing]
    rfl

private theorem mapM_walk {roots : List Text} (start : Nat)
    (there : ∀ root ∈ roots, (∃ node, files.find root = .ok node) ∨
      files.find root = .error .missing) :
    roots.mapM (walk files options) = .ok ((roots.zipIdx start).map fun entry =>
      (placed files options entry.1 entry.2).map Prod.snd) := by
  induction roots generalizing start with
  | nil => rfl
  | cons root rest ih =>
    obtain ⟨here, later⟩ := forall_mem_cons.mp there
    rw [mapM_cons, walk_eq start here, ih (start + 1) later]
    rfl

theorem mem_documentAt {path document} :
    document ∈ documentAt options path ↔ ∃ kind, DocumentKind.ofPath? path = some kind ∧
      (options.kinds = [] ∨ kind ∈ options.kinds) ∧ document = ⟨kind, path, none⟩ := by
  unfold documentAt
  cases DocumentKind.ofPath? path with
  | none => simp
  | some kind => by_cases allowed : options.kinds = [] ∨ kind ∈ options.kinds <;> simp [allowed]

theorem mem_placed {root index entry} :
    entry ∈ placed files options root index ↔ entry.1.1 = index ∧ ∃ node,
      files.find root = .ok node ∧ entry.1.2 ∈ visited options node ∧
        entry.2 ∈ documentAt options (pathOf root entry.1.2) := by
  obtain ⟨⟨number, names⟩, document⟩ := entry
  unfold placed
  cases files.find root with
  | error => simp
  | ok node => simp [eq_comm, and_left_comm]

theorem finds_iff {roots : List Text} {entry} :
    (entry ∈ roots.zipIdx.flatMap fun numbered => placed files options numbered.1 numbered.2) ↔
      Finds files options roots entry.1 entry.2 := by
  rw [mem_flatMap, Finds]
  constructor
  · rintro ⟨⟨root, _⟩, isRoot, member⟩
    obtain ⟨rfl, node, found, visits, held⟩ := mem_placed.mp member
    exact ⟨root, node, mem_zipIdx_iff_getElem?.mp isRoot, found, mem_visited.mp visits,
      mem_documentAt.mp held⟩
  · rintro ⟨root, node, isRoot, found, reaches, held⟩
    exact ⟨(root, _), mem_zipIdx_iff_getElem?.mpr isRoot, mem_placed.mpr
      ⟨rfl, node, found, mem_visited.mpr reaches, mem_documentAt.mpr held⟩⟩

private theorem ordered_of_find {path node} (ordered : files.root.Ordered)
    (found : files.find path = .ok node) : node.Ordered := by
  unfold FileTree.find at found
  split at found
  · cases found
  split at found
  · cases found
  split at found
  · next held =>
    cases found
    exact ordered.at? held
  · cases found

private theorem placed_ascending (ordered : files.root.Ordered) (roots : List Text) :
    (roots.zipIdx.flatMap fun numbered => placed files options numbered.1 numbered.2).Pairwise
      fun first second => Earlier first.1 second.1 := by
  rw [pairwise_flatMap]
  constructor
  · intro numbered _
    unfold placed
    split
    · exact .nil
    · next node found =>
      rw [pairwise_flatMap]
      constructor
      · intro names _
        unfold documentAt
        split
        · exact .nil
        · split
          · exact pairwise_singleton ..
          · exact .nil
      · refine (visited_ascending (ordered_of_find ordered found)).imp fun before => ?_
        simp only [mem_map]
        rintro _ ⟨_, _, rfl⟩ _ ⟨_, _, rfl⟩
        exact .inr ⟨rfl, before⟩
  · have numbers : (roots.zipIdx.map Prod.snd).Pairwise (· < ·) := by
      rw [zipIdx_map_snd]
      exact pairwise_lt_range' ..
    refine (pairwise_map.mp numbers).imp fun lower first member second memberToo => ?_
    rw [← (mem_placed.mp member).1, ← (mem_placed.mp memberToo).1] at lower
    exact .inl lower

private theorem distinct_spec {α : Type} (seen : List Text) (found : List (α × Document)) :
    ∃ kept, kept <+ found ∧ distinct seen (found.map Prod.snd) = kept.map Prod.snd ∧
      (kept.map fun entry => Path.clean entry.2.path).Nodup ∧
      (∀ entry ∈ kept, Path.clean entry.2.path ∉ seen) ∧
      ∀ entry ∈ found, Path.clean entry.2.path ∈ seen ∨
        ∃ first ∈ kept, Path.clean first.2.path = Path.clean entry.2.path ∧
          (first = entry ∨ [first, entry] <+ found) := by
  induction found generalizing seen with
  | nil => exact ⟨[], .slnil, rfl, .nil, nofun, nofun⟩
  | cons head rest ih =>
    rw [map_cons, distinct]
    split
    · next known =>
      obtain ⟨kept, inside, same, apart, fresh, all⟩ := ih seen
      refine ⟨kept, inside.cons _, same, apart, fresh, forall_mem_cons.mpr ⟨.inl known, ?_⟩⟩
      intro entry member
      refine (all entry member).imp_right fun ⟨first, isKept, twin, order⟩ => ?_
      exact ⟨first, isKept, twin, order.imp_right (.cons _)⟩
    · next unknown =>
      obtain ⟨kept, inside, same, apart, fresh, all⟩ := ih (Path.clean head.2.path :: seen)
      refine ⟨head :: kept, inside.cons_cons _, by rw [same]; rfl, ?_, ?_, ?_⟩
      · rw [map_cons, nodup_cons]
        refine ⟨fun member => ?_, apart⟩
        obtain ⟨entry, isKept, twin⟩ := mem_map.mp member
        exact fresh entry isKept (twin ▸ mem_cons_self ..)
      · refine forall_mem_cons.mpr ⟨unknown, fun entry isKept known => ?_⟩
        exact fresh entry isKept (mem_cons_of_mem _ known)
      · refine forall_mem_cons.mpr ⟨.inr ⟨head, mem_cons_self .., rfl, .inl rfl⟩, ?_⟩
        intro entry member
        obtain known | ⟨first, isKept, twin, order⟩ := all entry member
        · obtain twin | known := mem_cons.mp known
          · exact .inr ⟨head, mem_cons_self .., twin.symm,
              .inr (.cons_cons _ (singleton_sublist.mpr member))⟩
          · exact .inl known
        · exact .inr ⟨first, mem_cons_of_mem _ isKept, twin, order.imp_right (.cons _)⟩

/-- The documents found from some roots: those at the places that the options allow, each path once,
where it is found first, and in the order of the places. -/
theorem collect_finds (files : FileTree) (options : WalkOptions) (roots : List Text)
    (ordered : files.root.Ordered)
    (there : ∀ root ∈ roots, (∃ node, files.find root = .ok node) ∨
      files.find root = .error .missing) :
    ∃ found : List ((Nat × List Text) × Document),
      collect files options roots = .ok (found.map Prod.snd) ∧
      (∀ entry ∈ found, Finds files options roots entry.1 entry.2) ∧
      (∀ place document, Finds files options roots place document →
        ∃ entry ∈ found, Path.clean entry.2.path = Path.clean document.path ∧
          (entry.1 = place ∨ Earlier entry.1 place)) ∧
      (found.map fun entry => Path.clean entry.2.path).Nodup ∧
      found.Pairwise fun first second => Earlier first.1 second.1 := by
  have ascending := @placed_ascending options files ordered roots
  obtain ⟨found, inside, same, apart, _, all⟩ :=
    distinct_spec [] (roots.zipIdx.flatMap fun numbered => placed files options numbered.1 numbered.2)
  refine ⟨found, ?_, fun entry member => finds_iff.mp (inside.subset member), ?_, apart,
    ascending.sublist inside⟩
  · rw [collect, mapM_walk 0 there, ← same, map_flatMap, flatMap_def]
  · intro place document finds
    obtain known | ⟨first, isKept, twin, order⟩ := all (place, document) (finds_iff.mpr finds)
    · cases known
    · refine ⟨first, isKept, twin, order.imp (congrArg Prod.fst) fun two => ?_⟩
      exact rel_of_pairwise_cons (ascending.sublist two) (mem_singleton_self _)

/-- A directory that is not entered on the way from one root is walked from another. -/
theorem collect_nested :
    let files : FileTree := ⟨.directory [("a", .directory [(".b", .directory [("x.avsc", .file "")]),
      ("y.avdl", .file "")])], []⟩
    let roots : List Text := [".", "a/./.b", "none", "a"]
    ∃ found : List ((Nat × List Text) × Document),
      found.map (Document.path ·.2) = ["a/y.avdl", "a/.b/x.avsc"] ∧
      ∀ place document, Finds files everything roots place document →
        ∃ entry ∈ found, Path.clean entry.2.path = Path.clean document.path ∧
          (entry.1 = place ∨ Earlier entry.1 place) := by
  intro files roots
  have ordered : files.root.Ordered :=
    .directory (by decide) (forall_mem_singleton.mpr (.directory (by decide)
      (forall_mem_cons.mpr ⟨.directory (by decide) (forall_mem_singleton.mpr .file),
        forall_mem_singleton.mpr .file⟩)))
  have there : ∀ root ∈ roots, (∃ node, files.find root = .ok node) ∨
      files.find root = .error .missing := by
    simp only [roots, forall_mem_cons]
    exact ⟨.inl ⟨_, rfl⟩, .inl ⟨_, rfl⟩, .inr rfl, .inl ⟨_, rfl⟩, nofun⟩
  obtain ⟨found, done, _, complete, _⟩ := collect_finds files everything roots ordered there
  have paths : (collect files everything roots).map (map Document.path) =
      .ok ["a/y.avdl", "a/.b/x.avsc"] := by
    rfl
  rw [done] at paths
  exact ⟨found, map_map.symm.trans (Except.ok.inj paths), complete⟩

end Discovery

end Avro
