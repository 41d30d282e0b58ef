import Avro.Proofs.FileTree.Endings

/-!
# Files written one after another

A place that is written more than once holds what was written last.
-/

set_option autoImplicit false

open List

namespace Avro.FileTree

variable {tree before middle after : FileTree} {path content ending : Text} {place : List Text}
  {first second writes : List (List Text × Text)}

def lastAt (place : List Text) : List (List Text × Text) → Option Text
  | [] => none
  | (there, content) :: rest =>
    (lastAt place rest).or (if there = place then some content else none)

theorem lastAt_append (place : List Text) (first second : List (List Text × Text)) :
    lastAt place (first ++ second) = (lastAt place second).or (lastAt place first) := by
  induction first with
  | nil => simp [lastAt]
  | cons _ _ ih => simp [lastAt, ih, Option.or_assoc]

theorem mem_of_lastAt (found : lastAt place writes = some content) :
    (place, content) ∈ writes := by
  induction writes with
  | nil => cases found
  | cons write _ ih =>
    obtain ⟨there, written⟩ := write
    rw [lastAt, Option.or_eq_some_iff] at found
    rcases found with later | ⟨_, here⟩
    · exact mem_cons_of_mem _ (ih later)
    · split at here
      · rename_i same
        cases here
        rw [same]
        exact mem_cons_self
      · cases here

theorem exists_lastAt (member : (place, content) ∈ writes) :
    ∃ last, lastAt place writes = some last := by
  induction writes with
  | nil => cases member
  | cons _ rest ih =>
    cases found : lastAt place rest with
    | some last => exact ⟨last, by simp [lastAt, found]⟩
    | none =>
      rcases mem_cons.mp member with rfl | later
      · exact ⟨content, by simp [lastAt, found]⟩
      · obtain ⟨last, there⟩ := ih later
        rw [found] at there
        cases there

/-- Files were written in an order. Every place holds what was written there last, or else what it
held before. -/
structure Wrote (before : FileTree) (writes : List (List Text × Text)) (after : FileTree) :
    Prop where
  evolves : before.Evolves (fun _ => True) after
  content : ∀ place, after.content? place = (lastAt place writes).or (before.content? place)

namespace Wrote

theorem nil (evolves : before.Evolves (fun _ => False) after) : before.Wrote [] after where
  evolves := evolves.mono nofun
  content place := evolves.files place not_false

theorem one (evolves : before.Evolves (· = place) after)
    (holds : after.content? place = some content) : before.Wrote [(place, content)] after where
  evolves := evolves.mono fun _ _ => trivial
  content other := by
    by_cases here : place = other
    · rw [← here, holds]
      simp [lastAt]
    · rw [evolves.files other (Ne.symm here)]
      simp [lastAt, here]

theorem append (earlier : before.Wrote first middle) (later : middle.Wrote second after) :
    before.Wrote (first ++ second) after where
  evolves := earlier.evolves.trans later.evolves
  content place := by
    rw [later.content, earlier.content, lastAt_append, Option.or_assoc]

theorem andThen {elsewhere} (wrote : before.Wrote writes middle)
    (evolves : middle.Evolves elsewhere after) (apart : ∀ write ∈ writes, ¬elsewhere write.1) :
    ∀ write ∈ writes, after.content? write.1 = lastAt write.1 writes := by
  rintro ⟨place, content⟩ member
  obtain ⟨last, found⟩ := exists_lastAt member
  rw [evolves.files place (apart _ member), wrote.content, found, Option.some_or]

end Wrote

/-- Every file holds what was written to it exactly if no file was written with two contents. -/
theorem all_kept_iff (last : ∀ write ∈ writes, tree.content? write.1 = lastAt write.1 writes) :
    (∀ write ∈ writes, tree.content? write.1 = some write.2) ↔
      ∀ one ∈ writes, ∀ other ∈ writes, one.1 = other.1 → one.2 = other.2 := by
  constructor
  · intro kept one isOne other isOther same
    have held := kept one isOne
    rw [same, kept other isOther] at held
    exact (Option.some.inj held).symm
  · rintro unequal ⟨place, content⟩ member
    obtain ⟨other, found⟩ := exists_lastAt member
    have same : other = content := unequal _ (mem_of_lastAt found) _ member rfl
    rw [last _ member, found, same]

theorem follow_append (root : FileNode) (start : List Text) (front back : List Text) :
    follow root start (front ++ back) =
      follow root start front >>= fun place => follow root place back := by
  induction front generalizing start with
  | nil => rfl
  | cons part _ ih =>
    rw [cons_append, follow, follow]
    split
    · rfl
    · rfl
    · split
      · exact ih start
      · split
        · exact ih start.dropLast
        · split
          · rfl
          · exact ih (start ++ [part])

theorem read_iff_of_locates (leads : tree.Locates path place)
    (naming : Path.NameEnding ending) (ends : ending <:+ path) :
    tree.read path = .ok content ↔ tree.content? place = some content := by
  obtain ⟨above, name, found, rfl⟩ := leads
  obtain ⟨accepted, last, followed, stands, plain, short⟩ := target_ok_iff.mp found
  obtain ⟨parts, piece, split, ended⟩ := naming.splitOn ends
  have full : piece.isEmpty = false := isEmpty_eq_false_iff.mpr (naming.proper ended).1
  have trimmed : trimmedParts path = parts ++ [piece] := by simp [trimmedParts, split, full]
  rw [trimmed, getLast?_concat] at last
  cases last
  rw [trimmed, dropLast_concat] at followed
  obtain ⟨entries, there⟩ := occupant?_eq_directory.mp stands
  have arrived : follow tree.root (tree.origin path) (Text.splitOn '/' path) =
      .ok (above ++ [name]) := by
    rw [split, follow_append, followed, ok_bind, follow, there]
    simp only [full, short, Bool.false_or, decide_eq_true_eq, if_false, not_or.mp plain]
    rfl
  rw [read, find, accepted]
  simp only [arrived, content?, occupant?, FileNode.occupant?]
  cases tree.root.at? (above ++ [name]) with
  | none => simp
  | some node => cases node <;> simp [FileNode.occupant, Occupant.content?]

end Avro.FileTree
