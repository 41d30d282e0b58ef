import Avro.FileTree

/-!
# Clean paths of files

There are no links in a file tree, so a path leads where its clean form does: some steps up, and
then down along names.
-/

set_option autoImplicit false

open List

namespace Avro

variable {content : Text}

namespace FileNode

private theorem mem_filesIn {entries name node place} (member : (name, node) ∈ entries)
    (held : (place, content) ∈ node.files) : (name :: place, content) ∈ filesIn entries := by
  induction entries with
  | nil => cases member
  | cons _ _ ih =>
    rw [filesIn]
    rcases mem_cons.mp member with rfl | later
    · exact mem_append_left _ (mem_map.mpr ⟨_, held, rfl⟩)
    · exact mem_append_right _ (ih later)

theorem mem_of_lookup {entries : List (Text × FileNode)} {name node}
    (found : entries.lookup name = some node) : (name, node) ∈ entries := by
  obtain ⟨before, after, rfl, _⟩ := lookup_eq_some_iff.mp found
  simp

private theorem mem_files {root : FileNode} {place : List Text}
    (held : root.at? place = some (.file content)) : (place, content) ∈ root.files := by
  induction place generalizing root with
  | nil =>
    cases held
    rw [files]
    exact mem_singleton_self _
  | cons _ _ ih =>
    obtain ⟨entry, found, below⟩ := Option.bind_eq_some_iff.mp held
    cases root with
    | file => cases found
    | directory =>
      rw [files]
      exact mem_filesIn (mem_of_lookup found) (ih below)

end FileNode

namespace Path

def steps (ups : Nat) (names : List Text) : List Text :=
  List.replicate ups (Text.ofString "..") ++ names

variable {rooted : Bool} {ups : Nat} {names : List Text}

private theorem push_none {parts : List Text} {part : Text} (none : part.isEmpty || part = ".") :
    push rooted parts part = parts := by
  unfold push
  rw [if_pos none]

theorem push_down {part : Text} (full : part ≠ []) (noDot : part ≠ ".") (noDots : part ≠ "..") :
    push rooted (steps ups names).reverse part = (steps ups (names ++ [part])).reverse := by
  unfold push
  rw [if_neg (by simp [full, noDot]), if_neg noDots]
  simp [steps]

private theorem push_back {last : Text} (plain : last ≠ "..") :
    push rooted (steps ups (names ++ [last])).reverse ".." = (steps ups names).reverse := by
  unfold push
  rw [if_neg (by decide), if_pos rfl]
  simp [steps, plain]

theorem push_up : push false (steps ups []).reverse ".." = (steps (ups + 1) []).reverse := by
  unfold push
  rw [if_neg (by decide), if_pos rfl]
  simp only [steps, append_nil, reverse_replicate]
  cases ups with
  | zero => rfl
  | succ =>
    rw [replicate_succ]
    dsimp only
    rw [if_pos rfl, replicate_succ, replicate_succ]

end Path

namespace FileTree

open Avro.Path (push steps)

/-- Where steps up and then names lead from a place. -/
def reach (start : List Text) (ups : Nat) (names : List Text) : List Text :=
  start.take (start.length - ups) ++ names

private theorem reach_up (start : List Text) (ups : Nat) :
    (reach start ups []).dropLast = reach start (ups + 1) [] := by
  unfold reach
  rw [append_nil, append_nil, dropLast_eq_take, take_take, length_take]
  congr 1
  omega

/-- Following parts takes the same steps as cleaning them. A path from the root has no steps up. -/
theorem follow_reach {root : FileNode} {rooted : Bool} {start reached pieces names : List Text}
    {ups : Nat} (plain : Text.ofString ".." ∉ names) (grounded : rooted = true → start = [] ∧ ups = 0)
    (followed : follow root (reach start ups names) pieces = .ok reached) :
    ∃ more below, pieces.foldl (push rooted) (steps ups names).reverse = (steps more below).reverse ∧
      reached = reach start more below ∧ more ≤ ups + pieces.length ∧
      (rooted = true → more = 0) := by
  induction pieces generalizing ups names with
  | nil =>
    cases followed
    exact ⟨ups, names, rfl, rfl, Nat.le_add_right _ _, fun root => (grounded root).2⟩
  | cons part _ ih =>
    rw [follow] at followed
    split at followed
    · cases followed
    · cases followed
    · split at followed
      · rename_i skipped
        obtain ⟨more, below, cleaned, rfl, few, none⟩ := ih plain grounded followed
        refine ⟨more, below, ?_, rfl, by simp only [length_cons]; omega, none⟩
        rw [foldl_cons, Path.push_none skipped]
        exact cleaned
      · rename_i kept
        split at followed
        · rename_i isUp
          subst isUp
          rcases eq_nil_or_concat names with rfl | ⟨before, last, rfl⟩
          · rw [reach_up] at followed
            cases rooted with
            | true =>
              obtain ⟨rfl, rfl⟩ := grounded rfl
              obtain ⟨more, below, cleaned, rfl, few, none⟩ := ih plain grounded followed
              exact ⟨more, below, cleaned, rfl, by simp only [length_cons]; omega, none⟩
            | false =>
              obtain ⟨more, below, cleaned, rfl, few, none⟩ := ih plain nofun followed
              refine ⟨more, below, ?_, rfl, by simp only [length_cons]; omega, none⟩
              rw [foldl_cons, Path.push_up]
              exact cleaned
          · rw [concat_eq_append] at plain followed ⊢
            rw [mem_append, not_or, mem_singleton] at plain
            have back : (reach start ups (before ++ [last])).dropLast = reach start ups before := by
              unfold reach
              rw [← append_assoc, dropLast_concat]
            rw [back] at followed
            obtain ⟨more, below, cleaned, rfl, few, none⟩ := ih plain.1 grounded followed
            refine ⟨more, below, ?_, rfl, by simp only [length_cons]; omega, none⟩
            rw [foldl_cons, Path.push_back (Ne.symm plain.2)]
            exact cleaned
        · rename_i noDots
          split at followed
          · cases followed
          · have down : reach start ups names ++ [part] = reach start ups (names ++ [part]) :=
              append_assoc _ _ _
            rw [down] at followed
            have stays : Text.ofString ".." ∉ names ++ [part] := by
              simpa [plain] using Ne.symm noDots
            obtain ⟨more, below, cleaned, rfl, few, none⟩ := ih stays grounded followed
            refine ⟨more, below, ?_, rfl, by simp only [length_cons]; omega, none⟩
            have named : part ≠ [] ∧ part ≠ "." := by simpa using kept
            rw [foldl_cons, Path.push_down named.1 named.2 noDots]
            exact cleaned

def cleanPathsTo (working place : List Text) : List Text :=
  ("/" ++ Text.join "/" place) ::
    (List.range (pathLimit + 1)).map fun ups =>
      let joined := Text.join "/" (steps ups (place.drop (working.length - ups)))
      if joined.isEmpty then "." else joined

def cleanPaths (tree : FileTree) : List Text :=
  tree.root.files.flatMap fun file => cleanPathsTo tree.working file.1

theorem cleanPaths_length (tree : FileTree) :
    tree.cleanPaths.length = tree.fileCount * (pathLimit + 2) := by
  unfold cleanPaths fileCount
  induction tree.root.files with
  | nil => simp
  | cons _ _ ih =>
    rw [flatMap_cons, length_append, ih, length_cons, cleanPathsTo]
    simp only [length_cons, length_map, length_range]
    rw [Nat.succ_mul]
    omega

private theorem splitOn_length_le (char : Char) (text : Text) :
    (Text.splitOn char text).length ≤ text.length + 1 := by
  induction text with
  | nil => exact Nat.le_refl _
  | cons _ _ ih =>
    rw [Text.splitOn]
    split
    · simp only [length_cons]
      omega
    · split
      · simp
      · rename_i split
        rw [split] at ih
        simp only [length_cons] at ih ⊢
        omega

private theorem length_le_byteLength (text : Text) : text.length ≤ text.byteLength := by
  induction text with
  | nil => exact Nat.le_refl _
  | cons cell rest =>
    have wide : 0 < cell.width := by
      cases cell with
      | scalar char =>
        rw [Cell.width, Cell.bytes, String.length_utf8EncodeChar]
        exact Char.utf8Size_pos char
      | stray => exact Nat.zero_lt_one
    have sum : Text.byteLength (cell :: rest) = cell.width + Text.byteLength rest := rfl
    rw [sum, length_cons]
    omega

structure ReadsAt (tree : FileTree) (path : Text) (place : List Text) (content : Text) : Prop where
  accepted : refusal? path = none
  followed : follow tree.root (tree.origin path) (Text.splitOn '/' path) = .ok place
  there : tree.root.at? place = some (.file content)

theorem read_ok_iff {tree : FileTree} {path : Text} :
    tree.read path = .ok content ↔ ∃ place, tree.ReadsAt path place content := by
  unfold FileTree.read find
  constructor
  · intro read
    split at read
    · rename_i found
      cases read
      split at found
      · cases found
      · rename_i accepted
        split at found
        · cases found
        · rename_i followed
          split at found
          · rename_i there
            cases found
            exact ⟨_, accepted, followed, there⟩
          · cases found
    · cases read
    · cases read
  · rintro ⟨place, accepted, followed, there⟩
    rw [accepted]
    dsimp only
    rw [followed]
    dsimp only
    rw [there]

/-- Whatever path a file is read at, the clean form of the path is one of those. -/
theorem clean_mem_cleanPaths {tree : FileTree} {path : Text} (read : tree.read path = .ok content) :
    Path.clean path ∈ tree.cleanPaths := by
  obtain ⟨place, accepted, followed, there⟩ := read_ok_iff.mp read
  refine mem_flatMap.mpr ⟨_, FileNode.mem_files there, ?_⟩
  have grounded : Path.isAbsolute path = true → tree.origin path = [] ∧ 0 = 0 := by
    intro absolute
    exact ⟨if_pos absolute, rfl⟩
  have start : reach (tree.origin path) 0 [] = tree.origin path := by simp [reach]
  rw [← start] at followed
  obtain ⟨ups, names, cleaned, rfl, few, none⟩ := follow_reach not_mem_nil grounded followed
  have parts : Path.parts path = steps ups names := by
    unfold Path.parts
    rw [← reverse_reverse (steps ups names), ← cleaned]
    rfl
  unfold Path.clean cleanPathsTo
  rw [parts]
  dsimp only
  cases absolute : Path.isAbsolute path with
  | true =>
    rw [none absolute, (grounded absolute).1]
    exact mem_cons_self
  | false =>
    refine mem_cons_of_mem _ (mem_map.mpr ⟨ups, ?_, ?_⟩)
    · have short : path.byteLength < pathLimit := by
        unfold refusal? at accepted
        split at accepted
        · cases accepted
        · split at accepted
          · cases accepted
          · rename_i short
            exact Nat.lt_of_not_le short
      have pieces := splitOn_length_le '/' path
      have cells := length_le_byteLength path
      exact mem_range.mpr (by omega)
    · have origin : tree.origin path = tree.working := by
        unfold FileTree.origin
        rw [absolute]
        rfl
      have below : (reach tree.working ups names).drop (tree.working.length - ups) = names := by
        refine drop_left' ?_
        rw [length_take]
        omega
      rw [origin, below]
      rfl

end FileTree

end Avro
