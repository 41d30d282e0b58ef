import Avro.Proofs.Json.RoundTrip

/-!
# Tidy values

A tidy value has no stray bytes and no repeated keys, so nothing of it is lost when it is written
and read.
-/

set_option autoImplicit false

open List

namespace Avro

variable {text : Text}

/-- A text without stray bytes. -/
def Text.Clean (text : Text) : Prop := ∀ cell ∈ text, ∃ char : Char, cell = .scalar char

theorem Text.Clean.sanitize_eq (clean : text.Clean) : text.sanitize = text := by
  refine (map_congr_left fun cell member => ?_).trans (map_id text)
  obtain ⟨char, rfl⟩ := clean cell member
  rfl

theorem Text.clean_ofString (string : String) : Text.Clean (Text.ofString string) := by
  intro cell member
  obtain ⟨char, _, rfl⟩ := mem_map.mp member
  exact ⟨char, rfl⟩

theorem Text.clean_nil : Text.Clean [] := forall_mem_nil _

theorem Text.Clean.cons (clean : text.Clean) (char : Char) : Text.Clean (.scalar char :: text) :=
  forall_mem_cons.mpr ⟨⟨char, rfl⟩, clean⟩

namespace Json

variable {value : Json} {ints : Prop}

/-- A value without stray bytes and repeated keys. Integers that are not literals may be allowed. -/
inductive Tidy (ints : Prop) : Json → Prop
  | null : Tidy ints .null
  | bool (value : Bool) : Tidy ints (.bool value)
  | str {text : Text} (clean : text.Clean) : Tidy ints (.str text)
  | num {literal} (isLiteral : IsLiteral literal) : Tidy ints (.num literal)
  | int (allowed : ints) (value : Int) : Tidy ints (.int value)
  | arr {items} (each : ∀ item ∈ items, Tidy ints item) : Tidy ints (.arr items)
  | obj {members : Members} (clean : ∀ member ∈ members, member.1.Clean)
      (distinct : (members.map Prod.fst).Nodup) (each : ∀ member ∈ members, Tidy ints member.2) :
      Tidy ints (.obj members)

abbrev Plain : Json → Prop := Tidy False

theorem map_sanitize_keys {members : Members} (clean : ∀ member ∈ members, member.1.Clean) :
    (members.map fun member => member.1.sanitize) = members.map Prod.fst :=
  map_congr_left fun member among => (clean member among).sanitize_eq

theorem Tidy.mono {more : Prop} (tidy : Tidy ints value) (allowed : ints → more) :
    Tidy more value := by
  induction tidy with
  | null => exact .null
  | bool value => exact .bool value
  | str clean => exact .str clean
  | num isLiteral => exact .num isLiteral
  | int some value => exact .int (allowed some) value
  | arr _ each => exact .arr each
  | obj clean distinct _ each => exact .obj clean distinct each

theorem Tidy.legible (tidy : Tidy ints value) : Legible value := by
  induction tidy with
  | null => exact .null
  | bool value => exact .bool value
  | str => exact .str _
  | num isLiteral => exact .num isLiteral
  | int _ value => exact .int value
  | arr _ each => exact .arr each
  | obj clean distinct _ each => exact .obj (map_sanitize_keys clean ▸ distinct) each

theorem Plain.asRead_eq (plain : Plain value) : value.asRead = value := by
  induction plain with
  | null | bool | num => rfl
  | str clean => rw [asRead, clean.sanitize_eq]
  | int none => exact none.elim
  | @arr _ _ each =>
    rw [asRead, itemsAsRead_eq, map_congr_left each, map_id']
  | @obj members clean _ _ each =>
    rw [asRead, membersAsRead_eq]
    congr 1
    refine (map_congr_left fun member among => ?_).trans (map_id members)
    rw [(clean member among).sanitize_eq, each member among, id]

theorem Tidy.plain_asRead (tidy : Tidy ints value) : Plain value.asRead := by
  induction tidy with
  | null => exact .null
  | bool value => exact .bool value
  | str clean =>
    rw [asRead, clean.sanitize_eq]
    exact .str clean
  | num isLiteral => exact .num isLiteral
  | int _ value => exact .num (isLiteral_ofInt value)
  | arr _ each =>
    rw [asRead, itemsAsRead_eq]
    exact .arr (forall_mem_map.mpr each)
  | obj clean distinct _ each =>
    rw [asRead, membersAsRead_eq]
    refine .obj (forall_mem_map.mpr fun member among => ?_) ?_ (forall_mem_map.mpr each)
    · rw [(clean member among).sanitize_eq]
      exact clean member among
    · rw [map_map]
      exact map_sanitize_keys clean ▸ distinct

/-! ## The text of what is read -/

def SameText (layout : Layout) (value : Json) : Prop :=
  ∀ level rest, write layout level value.asRead rest = write layout level value rest

theorem writeItems_asRead {layout items} (each : ∀ item ∈ items, SameText layout item) (level : Nat)
    (rest : Text) :
    writeItems layout level (itemsAsRead items) rest = writeItems layout level items rest := by
  induction items with
  | nil => rw [itemsAsRead]
  | cons _ _ ih =>
    obtain ⟨first, later⟩ := forall_mem_cons.mp each
    rw [itemsAsRead, writeItems, writeItems, ih later, first]

private theorem writeMembers_asRead {layout members} (clean : ∀ member ∈ members, member.1.Clean)
    (each : ∀ member ∈ members, SameText layout member.2) (level : Nat) (rest : Text) :
    writeMembers layout level (membersAsRead members) rest =
      writeMembers layout level members rest := by
  induction members with
  | nil => rw [membersAsRead]
  | cons _ _ ih =>
    obtain ⟨cleanFirst, cleanLater⟩ := forall_mem_cons.mp clean
    obtain ⟨first, later⟩ := forall_mem_cons.mp each
    rw [membersAsRead, writeMembers, writeMembers, ih cleanLater later, first,
      cleanFirst.sanitize_eq]

theorem Tidy.sameText (tidy : Tidy ints value) (layout : Layout) : SameText layout value := by
  induction tidy with
  | null | bool | num | int => exact fun _ _ => rfl
  | str clean =>
    intro level rest
    rw [asRead, clean.sanitize_eq]
  | @arr items _ each =>
    intro level rest
    cases items with
    | nil => rw [asRead, itemsAsRead]
    | cons =>
      obtain ⟨first, later⟩ := forall_mem_cons.mp each
      rw [asRead, itemsAsRead, write, write, writeItems_asRead later, first]
  | @obj members clean _ _ each =>
    intro level rest
    cases members with
    | nil => rw [asRead, membersAsRead]
    | cons =>
      obtain ⟨cleanFirst, cleanLater⟩ := forall_mem_cons.mp clean
      obtain ⟨first, later⟩ := forall_mem_cons.mp each
      rw [asRead, membersAsRead, write, write, writeMembers_asRead cleanLater later, first,
        cleanFirst.sanitize_eq]

theorem render_eq_of_asRead {more : Prop} {first second : Json} (tidy : Tidy ints first)
    (also : Tidy more second) (same : first.asRead = second.asRead) (layout : Layout) :
    render layout first = render layout second := by
  rw [render, render, ← tidy.sameText, ← also.sameText, same]

/-! ## Members -/

section Members

variable {ints : Prop} {members : Members} {key : Text} {value : Json}

theorem tidy_emptyObject : Tidy ints (.obj []) :=
  .obj (forall_mem_nil _) nodup_nil
    (forall_mem_nil _)

theorem Tidy.append {more : Members} (object : Tidy ints (.obj members))
    (also : Tidy ints (.obj more)) (apart : ∀ member ∈ more, member.1 ∉ members.map Prod.fst) :
    Tidy ints (.obj (members ++ more)) := by
  cases object with
  | obj clean distinct each =>
    cases also with
    | obj cleanToo distinctToo eachToo =>
      refine .obj (forall_mem_append.mpr ⟨clean, cleanToo⟩) ?_
        (forall_mem_append.mpr ⟨each, eachToo⟩)
      rw [map_append, nodup_append]
      refine ⟨distinct, distinctToo, ?_⟩
      rintro key before _ after rfl
      obtain ⟨member, among, same⟩ := mem_map.mp after
      exact apart member among (same ▸ before)

theorem Tidy.addMember (object : Tidy ints (.obj members)) (clean : key.Clean)
    (fresh : key ∉ members.map Prod.fst) (tidy : Tidy ints value) :
    Tidy ints (.obj (members ++ [(key, value)])) :=
  object.append (.obj (forall_mem_singleton.mpr clean) (pairwise_singleton _ _)
    (forall_mem_singleton.mpr tidy)) (forall_mem_singleton.mpr fresh)

theorem Tidy.set (object : Tidy ints (.obj members)) (clean : key.Clean) (tidy : Tidy ints value) :
    Tidy ints (.obj (members.set key value)) := by
  by_cases fresh : key ∉ members.map Prod.fst
  · rw [Members.set_of_fresh value fresh]
    exact object.addMember clean fresh tidy
  · have keys := Members.map_fst_set members key value
    rw [if_pos (Decidable.not_not.mp fresh), append_nil] at keys
    cases object with
    | obj cleanKeys distinct each =>
      refine .obj (fun member among => ?_) (keys ▸ distinct) (fun member among => ?_)
      · rcases Members.eq_or_mem_of_mem_set among with rfl | earlier
        · exact clean
        · exact cleanKeys member earlier
      · rcases Members.eq_or_mem_of_mem_set among with rfl | earlier
        · exact tidy
        · exact each member earlier

theorem Tidy.setAll {more : Members} (object : Tidy ints (.obj members))
    (also : Tidy ints (.obj more)) : Tidy ints (.obj (members.setAll more)) := by
  cases also with
  | obj clean distinct each =>
    clear distinct
    rw [Members.setAll]
    induction more generalizing members with
    | nil => exact object
    | cons _ _ ih =>
      obtain ⟨cleanFirst, cleanLater⟩ := forall_mem_cons.mp clean
      obtain ⟨first, later⟩ := forall_mem_cons.mp each
      exact ih (object.set cleanFirst first) cleanLater later

end Members

/-! ## Tokens -/

inductive PlainToken : Token → Prop
  | openObject : PlainToken .openObject
  | closeObject : PlainToken .closeObject
  | openArray : PlainToken .openArray
  | closeArray : PlainToken .closeArray
  | str {text : Text} (clean : text.Clean) : PlainToken (.str text)
  | num {literal} (isLiteral : IsLiteral literal) : PlainToken (.num literal)
  | bool (value : Bool) : PlainToken (.bool value)
  | null : PlainToken .null

private theorem clean_putScalar {start : Nat} {feed left : Feed} {meaning : Char × Nat}
    (put : putScalar start feed meaning = .ok (text, left)) : text.Clean := by
  simp only [putScalar, overrun] at put
  repeat' split at put
  all_goals cases put
  · exact Text.clean_nil.cons _
  · exact forall_mem_cons.mpr ⟨⟨_, rfl⟩, forall_mem_map.mpr fun _ _ => ⟨_, rfl⟩⟩

private theorem clean_scanEscape {start : Nat} {feed left : Feed}
    (read : scanEscape start feed = .ok (text, left)) : text.Clean := by
  simp only [scanEscape, scanUnicode] at read
  repeat' split at read
  all_goals first
    | cases read; exact Text.clean_nil.cons _
    | exact clean_putScalar read
    | cases read

private theorem clean_scanString {feed left : Feed} (read : scanString feed = .ok (text, left)) :
    text.Clean := by
  fun_induction scanString feed generalizing text left with
  | case1 | case3 | case6 => cases read
  | case2 =>
    cases read
    exact Text.clean_nil
  | case4 feed present quote backslash content next escape ih =>
    obtain ⟨⟨tail, behind⟩, found, same⟩ := map_ok.mp read
    cases same
    exact forall_mem_append.mpr ⟨clean_scanEscape escape, ih found⟩
  | case7 feed present quote backslash ascii cut more filled ih => exact ih read
  | case5 feed present quote backslash ascii ih
  | case8 feed present quote backslash ascii cut ih =>
    obtain ⟨⟨tail, behind⟩, found, same⟩ := map_ok.mp read
    cases same
    exact (ih found).cons _

private theorem inside_scanNumber (feed : Feed) :
    ∀ cell ∈ (scanNumber feed).1, isNumberCell cell = true := by
  fun_induction scanNumber feed with
  | case1 | case3 => exact forall_mem_nil _
  | case2 feed present inside ih => exact forall_mem_cons.mpr ⟨inside, ih⟩

private theorem plainToken_bracket {byte token} (found : bracket? byte = some token) :
    PlainToken token := by
  simp only [bracket?] at found
  repeat' split at found
  all_goals cases found
  · exact .openObject
  · exact .closeObject
  · exact .openArray
  · exact .closeArray

private theorem plainToken_word (word : Word) : PlainToken word.token := by
  cases word with
  | true | false => exact .bool _
  | null => exact .null

theorem plainToken_scanFrom (feed : Feed) : ∀ token ∈ (scanFrom feed).tokens, PlainToken token := by
  fun_induction scanFrom feed with
  | case1 | case5 | case7 | case9 => exact forall_mem_nil _
  | case2 feed present separates ih => exact ih
  | case3 feed present separates token found ih =>
    exact forall_mem_cons.mpr ⟨plainToken_bracket found, ih⟩
  | case4 feed present separates noBracket quote content left read ih =>
    exact forall_mem_cons.mpr ⟨.str (clean_scanString read), ih⟩
  | case6 feed present separates noBracket quote starts ih =>
    exact forall_mem_cons.mpr ⟨.num (.intro starts (inside_scanNumber _)), ih⟩
  | case8 feed present separates noBracket quote starts word found left read ih =>
    exact forall_mem_cons.mpr ⟨plainToken_word word, ih⟩

/-! ## Values -/

inductive PlainHole : Hole → Prop
  | item {before} (each : ∀ item ∈ before, Plain item) : PlainHole (.item before)
  | member {before : Members} {key : Text} (value : Plain (.obj before)) (clean : key.Clean)
      (fresh : key ∉ before.map Prod.fst) : PlainHole (.member before key)

inductive PlainProgress : Progress → Prop
  | wantsValue {holes} (each : ∀ hole ∈ holes, PlainHole hole) : PlainProgress (.wantsValue holes)
  | wantsKey {before : Members} {holes : List Hole} (value : Plain (.obj before))
      (each : ∀ hole ∈ holes, PlainHole hole) : PlainProgress (.wantsKey before holes)
  | complete {value : Json} (plain : Plain value) : PlainProgress (.complete value)

theorem plainProgress_fill {holes : List Hole} (plain : Plain value)
    (surroundings : ∀ hole ∈ holes, PlainHole hole) : PlainProgress (fill value holes) := by
  cases holes with
  | nil => exact .complete plain
  | cons =>
    obtain ⟨here, outer⟩ := forall_mem_cons.mp surroundings
    cases here with
    | item each =>
      have items := forall_mem_append.mpr ⟨each, forall_mem_singleton.mpr plain⟩
      exact .wantsValue (forall_mem_cons.mpr ⟨.item items, outer⟩)
    | member object clean fresh => exact .wantsKey (object.addMember clean fresh plain) outer

theorem PlainProgress.step {progress next : Progress} {token : Token}
    (plain : PlainProgress progress) (plainToken : PlainToken token)
    (stepped : progress.step token = .ok next) : PlainProgress next := by
  cases plain with
  | @wantsValue holes surroundings =>
    cases plainToken with
    | openObject =>
      cases stepped
      exact .wantsKey tidy_emptyObject surroundings
    | openArray =>
      cases stepped
      have inner := PlainHole.item (forall_mem_nil _)
      exact .wantsValue (forall_mem_cons.mpr ⟨inner, surroundings⟩)
    | str | num | bool | null =>
      cases stepped
      exact plainProgress_fill (by constructor <;> assumption) surroundings
    | closeObject => cases holes <;> cases stepped
    | closeArray =>
      cases holes with
      | nil => cases stepped
      | cons =>
        obtain ⟨here, outer⟩ := forall_mem_cons.mp surroundings
        cases here with
        | item each =>
          cases stepped
          exact plainProgress_fill (.arr each) outer
        | member => cases stepped
  | @wantsKey _ _ object surroundings =>
    cases plainToken with
    | closeObject =>
      cases stepped
      exact plainProgress_fill object surroundings
    | str clean =>
      rw [Progress.step] at stepped
      split at stepped
      · cases stepped
      · rename_i fresh
        cases stepped
        have new := Members.has_eq_false_iff.mp (Bool.eq_false_iff.mpr fresh)
        exact .wantsValue (forall_mem_cons.mpr ⟨.member object clean new, surroundings⟩)
    | _ => cases stepped
  | complete => cases stepped

theorem PlainProgress.run {tokens : List Token} {progress final : Progress}
    (plain : PlainProgress progress) (plainTokens : ∀ token ∈ tokens, PlainToken token)
    (ran : progress.run tokens = .ok final) : PlainProgress final := by
  induction tokens generalizing progress with
  | nil =>
    cases ran
    exact plain
  | cons _ _ ih =>
    obtain ⟨here, later⟩ := forall_mem_cons.mp plainTokens
    rw [Progress.run] at ran
    split at ran
    · rename_i next stepped
      exact ih (plain.step here stepped) later ran
    · cases ran

theorem plain_of_decode (read : decode text = .ok value) : Plain value := by
  have start : PlainProgress (.wantsValue []) :=
    .wantsValue (forall_mem_nil _)
  rw [decode_eq] at read
  split at read
  · cases read
  · rename_i progress ran
    have plain := start.run (plainToken_scanFrom _) ran
    split at read
    · cases read
    · split at read
      · cases read
        cases plain with
        | complete plain => exact plain
      · cases read

/-! ## Round trip -/

theorem Plain.decode_render (plain : Plain value) (layout : Layout) :
    decode (render layout value) = .ok value := by
  rw [plain.legible.decode_render layout, plain.asRead_eq]

/-- The plain values are those that survive being written and read, and reading gives no others:
whatever a text is read as can be written in either layout and read again. -/
theorem plain_iff_decode_render (value : Json) (layout : Layout) :
    (Plain value ↔ decode (render layout value) = .ok value) ∧
      ∀ text, decode text = .ok value → Plain value ∧ decode (render layout value) = .ok value := by
  refine ⟨⟨fun plain => plain.decode_render layout, plain_of_decode⟩, fun text read => ?_⟩
  have plain := plain_of_decode read
  exact ⟨plain, plain.decode_render layout⟩

/-- Escapes, literals and the order of the keys are kept. -/
theorem decode_render_escapes :
    let value : Json := .obj [("b\"\u2028", .arr [.num "-1e+05", .str "\n\ufffd😀"]), ("a", .null)]
    decode (render .spacious value) = .ok value := by
  refine (plain_iff_decode_render _ .spacious).1.mp (.obj ?_ (by decide) ?_)
  · exact forall_mem_cons.mpr ⟨Text.clean_ofString _,
      forall_mem_singleton.mpr (Text.clean_ofString _)⟩
  · have number : Plain (.num "-1e+05") := .num (isLiteral_minus (by decide))
    have items := forall_mem_cons.mpr
      ⟨number, forall_mem_singleton.mpr (.str (Text.clean_ofString "\n\ufffd😀"))⟩
    exact forall_mem_cons.mpr ⟨.arr items, forall_mem_singleton.mpr .null⟩

end Json

end Avro
