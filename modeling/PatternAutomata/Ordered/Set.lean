import Std.Data.ExtTreeSet

/-!
# Ordered sets

Finite sets over an ordered type.  Two sets with the same members are equal, their listing is
ascending, and sets are themselves ordered: lexicographically, as their listings.  So a set of sets
is again such a set, which is what determinizing an automaton needs.
-/

namespace PatternAutomata

/-- A finite set over an ordered type. -/
abbrev OrderedSet (α : Type) [Ord α] := Std.ExtTreeSet α compare

namespace OrderedSet

variable {α β : Type} [Ord α] [Std.TransOrd α] [Ord β] [Std.TransOrd β]

def image (f : α → β) (set : OrderedSet α) : OrderedSet β :=
  set.foldl (fun images member => images.insert (f member)) ∅

/-- Everything that belongs to the set assigned to some member. -/
def unionMap (f : α → OrderedSet β) (set : OrderedSet α) : OrderedSet β :=
  set.foldl (fun union member => union ∪ f member) ∅

def meets (first second : OrderedSet α) : Bool :=
  first.toList.any second.contains

def InjectiveOn (f : α → β) (set : OrderedSet α) : Prop :=
  ∀ first second, first ∈ set → second ∈ set → f first = f second → first = second

/-- The function keeps the order of the members of the set. -/
def IncreasingOn (f : α → β) (set : OrderedSet α) : Prop :=
  ∀ first second, first ∈ set → second ∈ set → compare first second = .lt →
    compare (f first) (f second) = .lt

/-- The function does not reverse the order of the members of the set, but may merge members. -/
def NonDecreasingOn (f : α → β) (set : OrderedSet α) : Prop :=
  ∀ first second, first ∈ set → second ∈ set → compare first second = .lt →
    (compare (f first) (f second)).isLE = true

instance : Ord (OrderedSet α) where
  compare first second := compare first.toList second.toList

theorem compare_eq (first second : OrderedSet α) :
    compare first second = compare first.toList second.toList := rfl

instance : Std.TransOrd (OrderedSet α) where
  eq_swap := by
    intro first second
    rw [compare_eq, compare_eq]
    exact Std.OrientedOrd.eq_swap
  isLE_trans := by
    intro first second third below above
    rw [compare_eq] at below above ⊢
    exact Std.TransOrd.isLE_trans below above

instance [Std.LawfulEqOrd α] : Std.LawfulEqOrd (OrderedSet α) where
  eq_of_compare := by
    intro first second equal
    rw [compare_eq] at equal
    exact Std.ExtTreeSet.toList_inj.mp (Std.LawfulEqOrd.eq_of_compare equal)

section Members

variable [Std.LawfulEqOrd α] [Std.LawfulEqOrd β]

theorem mem_insert {set : OrderedSet α} {added member : α} :
    member ∈ set.insert added ↔ member = added ∨ member ∈ set := by
  rw [Std.ExtTreeSet.mem_insert, Std.LawfulEqOrd.compare_eq_iff_eq, eq_comm]

theorem mem_singleton {only member : α} : member ∈ ({only} : OrderedSet α) ↔ member = only := by
  rw [Std.ExtTreeSet.singleton_eq_insert, mem_insert]
  simp

omit [Std.LawfulEqOrd α] in
theorem exists_mem_of_ne_empty {set : OrderedSet α} (nonempty : set ≠ ∅) :
    ∃ member, member ∈ set := by
  simpa [Std.ExtTreeSet.eq_empty_iff_forall_not_mem] using nonempty

theorem mem_pair {first second member : α} :
    member ∈ ({first} : OrderedSet α).insert second ↔ member = first ∨ member = second := by
  rw [mem_insert, mem_singleton, or_comm]

omit [Std.LawfulEqOrd α] in
theorem size_insert_of_not_mem {set : OrderedSet α} {added : α} (fresh : added ∉ set) :
    (set.insert added).size = set.size + 1 :=
  Std.ExtTreeSet.size_insert.trans (if_neg fresh)

theorem size_pair {first second : α} (different : first ≠ second) :
    (({first} : OrderedSet α).insert second).size = 2 := by
  have fresh : second ∉ ({first} : OrderedSet α) := fun member =>
    different (mem_singleton.mp member).symm
  exact size_insert_of_not_mem fresh

private theorem mem_foldl_insert {γ : Type} (f : γ → β) (members : List γ) (start : OrderedSet β)
    (value : β) :
    value ∈ members.foldl (fun images member => images.insert (f member)) start ↔
      value ∈ start ∨ ∃ member ∈ members, f member = value := by
  induction members generalizing start with
  | nil => simp
  | cons member members ih =>
    rw [List.foldl_cons, ih, mem_insert]
    simp only [List.mem_cons, exists_eq_or_imp, eq_comm (a := value)]
    constructor
    · rintro ((first | old) | later)
      · exact .inr (.inl first)
      · exact .inl old
      · exact .inr (.inr later)
    · rintro (old | first | later)
      · exact .inl (.inr old)
      · exact .inl (.inl first)
      · exact .inr later

theorem mem_image {f : α → β} {set : OrderedSet α} {value : β} :
    value ∈ image f set ↔ ∃ member ∈ set, f member = value := by
  rw [image, Std.ExtTreeSet.foldl_eq_foldl_toList, mem_foldl_insert]
  simp [Std.ExtTreeSet.mem_toList]

omit [Std.LawfulEqOrd β] in
private theorem mem_foldl_union {γ : Type} (f : γ → OrderedSet β) (members : List γ)
    (start : OrderedSet β) (value : β) :
    value ∈ members.foldl (fun union member => union ∪ f member) start ↔
      value ∈ start ∨ ∃ member ∈ members, value ∈ f member := by
  induction members generalizing start with
  | nil => simp
  | cons member members ih =>
    rw [List.foldl_cons, ih, Std.ExtTreeSet.mem_union_iff, or_assoc]
    simp only [List.mem_cons, exists_eq_or_imp]

omit [Std.LawfulEqOrd β] in
theorem mem_unionMap {f : α → OrderedSet β} {set : OrderedSet α} {value : β} :
    value ∈ unionMap f set ↔ ∃ member ∈ set, value ∈ f member := by
  rw [unionMap, Std.ExtTreeSet.foldl_eq_foldl_toList, mem_foldl_union]
  simp [Std.ExtTreeSet.mem_toList]

omit [Std.LawfulEqOrd α] in
theorem nodup_toList {set : OrderedSet α} : set.toList.Nodup :=
  Std.ExtTreeSet.distinct_toList.imp fun {first second} different equal => by
    subst equal
    exact different Std.ReflCmp.compare_self

theorem mem_insertMany {set : OrderedSet α} {added : List α} {member : α} :
    member ∈ set.insertMany added ↔ member ∈ set ∨ member ∈ added := by
  induction added generalizing set with
  | nil => simp
  | cons first added ih =>
    rw [Std.ExtTreeSet.insertMany_cons, ih, mem_insert, List.mem_cons, or_assoc, or_left_comm]

theorem size_insertMany {set : OrderedSet α} {added : List α}
    (distinct : added.Nodup) (fresh : ∀ member ∈ added, member ∉ set) :
    (set.insertMany added).size = set.size + added.length := by
  induction added generalizing set with
  | nil => simp
  | cons first added ih =>
    obtain ⟨notAgain, distinct⟩ := List.nodup_cons.mp distinct
    have freshAfter : ∀ member ∈ added, member ∉ set.insert first := by
      intro member among present
      rcases mem_insert.mp present with rfl | old
      · exact notAgain among
      · exact fresh member (List.mem_cons_of_mem _ among) old
    have new : first ∉ set := fresh first List.mem_cons_self
    rw [Std.ExtTreeSet.insertMany_cons, ih distinct freshAfter, size_insert_of_not_mem new,
      List.length_cons]
    omega

omit [Std.LawfulEqOrd α] in
theorem size_le_size {first second : OrderedSet α}
    (subset : ∀ member, member ∈ first → member ∈ second) :
    first.size ≤ second.size := by
  rw [← Std.ExtTreeSet.size_inter_eq_size_left subset]
  exact Std.ExtTreeSet.size_inter_le_size_right

theorem meets_iff {first second : OrderedSet α} :
    meets first second = true ↔ ∃ member, member ∈ first ∧ member ∈ second := by
  rw [meets, List.any_eq_true]
  simp [Std.ExtTreeSet.mem_toList]

end Members

end OrderedSet

end PatternAutomata
