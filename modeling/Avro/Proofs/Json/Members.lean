import Avro.Json.Basic

/-!
# The members of objects

Members are looked up from the front. Setting a key that is not there adds it at the end.
-/

set_option autoImplicit false

open List

namespace Avro

@[simp] theorem Text.ofString_inj {first second : String} :
    Text.ofString first = Text.ofString second ↔ first = second := by
  refine ⟨fun same => ?_, fun same => by rw [same]⟩
  have chars : first.toList = second.toList :=
    (List.map_inj_right fun _ _ => Cell.scalar.inj).mp same
  exact String.toList_inj.mp chars

namespace Members

variable {members : Members} {key : Text}

theorem get?_append (first second : Members) (key : Text) :
    get? (first ++ second) key = (first.get? key).or (second.get? key) := by
  induction first with
  | nil => rfl
  | cons member _ ih =>
    obtain ⟨other, value⟩ := member
    rw [cons_append, get?, get?]
    split
    · rfl
    · exact ih

theorem get?_one (key other : Text) (value : Json) :
    (one key value).get? other = if key = other then some value else none := rfl

theorem get?_eq_none_iff : members.get? key = none ↔ key ∉ members.map Prod.fst := by
  induction members with
  | nil => simp [get?]
  | cons member _ ih =>
    obtain ⟨other, value⟩ := member
    rw [get?, map_cons, mem_cons, not_or]
    by_cases same : other = key
    · simp [same]
    · rw [if_neg same, ih]
      exact ⟨fun absent => ⟨fun eq => same eq.symm, absent⟩, And.right⟩

theorem has_eq_false_iff : members.has key = false ↔ key ∉ members.map Prod.fst := by
  rw [has, Option.isSome_eq_false_iff, Option.isNone_iff_eq_none, get?_eq_none_iff]

theorem mem_of_get? {value : Json} (found : members.get? key = some value) :
    (key, value) ∈ members := by
  induction members with
  | nil => cases found
  | cons member _ ih =>
    obtain ⟨other, stored⟩ := member
    rw [get?] at found
    split at found
    · rename_i same
      cases found
      rw [same]
      exact mem_cons_self
    · exact mem_cons_of_mem _ (ih found)

theorem set_of_fresh (value : Json) (fresh : key ∉ members.map Prod.fst) :
    members.set key value = members ++ [(key, value)] := by
  induction members with
  | nil => rfl
  | cons member _ ih =>
    obtain ⟨other, stored⟩ := member
    rw [map_cons, mem_cons, not_or] at fresh
    rw [set, if_neg fun same => fresh.1 same.symm, ih fresh.2, cons_append]

theorem map_fst_set (members : Members) (key : Text) (value : Json) :
    (members.set key value).map Prod.fst =
      members.map Prod.fst ++ if key ∈ members.map Prod.fst then [] else [key] := by
  induction members with
  | nil => rfl
  | cons member _ ih =>
    obtain ⟨other, stored⟩ := member
    rw [set]
    split
    · rename_i same
      simp [same]
    · rename_i differs
      have apart : key ≠ other := fun same => differs same.symm
      simp only [map_cons, mem_cons, apart, false_or, cons_append, ih]

theorem get?_set (members : Members) (key other : Text) (value : Json) :
    (members.set key value).get? other =
      if key = other then some value else members.get? other := by
  induction members with
  | nil => rfl
  | cons member _ ih =>
    obtain ⟨first, stored⟩ := member
    rw [set]
    split
    · rename_i same
      rw [get?, get?, same]
      split <;> rfl
    · rename_i differs
      rw [get?, get?, ih]
      split
      · rename_i found
        rw [if_neg fun same => differs (found.trans same.symm)]
      · rfl

theorem has_set (members : Members) (key other : Text) (value : Json) :
    (members.set key value).has other = (decide (key = other) || members.has other) := by
  rw [has, get?_set, apply_ite Option.isSome, Option.isSome_some]
  by_cases same : key = other <;> simp [same, has]

theorem has_setAll (members more : Members) (key : Text) :
    (members.setAll more).has key = (members.has key || more.has key) := by
  induction more generalizing members with
  | nil => exact (Bool.or_false _).symm
  | cons member more ih =>
    have step : members.setAll (member :: more) = (members.set member.1 member.2).setAll more := rfl
    have front : has (member :: more) key = (decide (member.1 = key) || has more key) := by
      rw [has, get?, apply_ite Option.isSome, Option.isSome_some]
      by_cases same : member.1 = key <;> simp [same, has]
    rw [step, ih, has_set, front, Bool.or_comm (decide _), Bool.or_assoc]

theorem get?_setAll_of_absent {more : Members} {key : Text} (absent : key ∉ more.map Prod.fst)
    (members : Members) : (members.setAll more).get? key = members.get? key := by
  induction more generalizing members with
  | nil => rfl
  | cons _ _ ih =>
    rw [map_cons, mem_cons, not_or] at absent
    exact (ih absent.2 _).trans ((get?_set ..).trans (if_neg (Ne.symm absent.1)))

theorem get?_setAll_of_mem {more : Members} (distinct : (more.map Prod.fst).Nodup)
    {entry : Text × Json} (member : entry ∈ more) (members : Members) :
    (members.setAll more).get? entry.1 = some entry.2 := by
  induction more generalizing members with
  | nil => cases member
  | cons _ _ ih =>
    obtain ⟨fresh, distinct⟩ := nodup_cons.mp distinct
    rcases mem_cons.mp member with rfl | later
    · exact (get?_setAll_of_absent fresh _).trans ((get?_set ..).trans (if_pos rfl))
    · exact ih distinct later _

theorem nodup_set (distinct : (members.map Prod.fst).Nodup) (key : Text) (value : Json) :
    ((members.set key value).map Prod.fst).Nodup := by
  rw [map_fst_set]
  split
  · rwa [append_nil]
  · rename_i absent
    exact nodup_append.mpr ⟨distinct, pairwise_singleton _ _, fun _ here _ last same =>
      absent (mem_singleton.mp last ▸ same ▸ here)⟩

theorem nodup_setAll (distinct : (members.map Prod.fst).Nodup) (more : Members) :
    ((members.setAll more).map Prod.fst).Nodup := by
  induction more generalizing members with
  | nil => exact distinct
  | cons _ _ ih => exact ih (nodup_set distinct _ _)

theorem eq_or_mem_of_mem_set {value member} (among : member ∈ members.set key value) :
    member = (key, value) ∨ member ∈ members := by
  induction members with
  | nil => exact .inl (mem_singleton.mp among)
  | cons first _ ih =>
    obtain ⟨other, stored⟩ := first
    rw [set] at among
    split at among
    · exact (mem_cons.mp among).imp_right (mem_cons_of_mem _)
    · rcases mem_cons.mp among with rfl | later
      · exact .inr mem_cons_self
      · exact (ih later).imp_right (mem_cons_of_mem _)

theorem setAll_of_fresh {more : Members} (distinct : (more.map Prod.fst).Nodup)
    (fresh : ∀ member ∈ more, member.1 ∉ members.map Prod.fst) :
    members.setAll more = members ++ more := by
  induction more generalizing members with
  | nil => exact (append_nil _).symm
  | cons member more ih =>
    obtain ⟨key, value⟩ := member
    rw [map_cons, nodup_cons] at distinct
    have later : ∀ member ∈ more, member.1 ∉ (members ++ [(key, value)]).map Prod.fst := by
      intro member among present
      rw [map_append, mem_append] at present
      rcases present with earlier | last
      · exact fresh member (mem_cons_of_mem _ among) earlier
      · have same : member.1 = key := mem_singleton.mp last
        exact distinct.1 (mem_map.mpr ⟨member, among, same⟩)
    have step := ih distinct.2 later
    rw [append_assoc, singleton_append] at step
    rw [setAll, foldl_cons, set_of_fresh value (fresh _ mem_cons_self)]
    exact step

end Members

end Avro
