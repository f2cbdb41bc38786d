import PatternAutomata.Ordered.Map
import PatternAutomata.Ordered.Set

/-!
# Renamed keys

Where a renaming merges keys, the value of the greatest of them stays.  Renaming in two steps gives
what one step gives as long as the first step does not reverse keys which are merged in the end: the
greatest of the keys that get the final name then also has the greatest of the names between.
-/

namespace PatternAutomata.OrderedMap

variable {κ ι τ β γ δ : Type} [Ord κ] [Std.TransOrd κ] {f : κ → ι} {g : ι → τ}
  {known : κ → Prop} {name : ι} {key other : κ}

namespace Prevails

theorem of_injective
    (injective : ∀ first second, known first → known second → f first = f second → first = second)
    (member : known key) :
    Prevails f known (f key) key where
  mem := member
  named := rfl
  greatest other otherMember same := by
    rw [injective other key otherMember member same]
    exact Std.ReflCmp.isLE_rfl

theorem unique [Std.LawfulEqOrd κ]
    (prevails : Prevails f known name key) (otherPrevails : Prevails f known name other) :
    key = other := by
  apply Std.LawfulEqOrd.eq_of_compare
  apply Std.OrientedCmp.isLE_antisymm
  · exact otherPrevails.greatest key prevails.mem prevails.named
  · exact prevails.greatest other otherPrevails.mem otherPrevails.named

end Prevails

variable [Ord ι] [Std.TransOrd ι]

namespace MergesInOrder

omit [Std.TransOrd κ] in
/-- Where nothing is merged in the end, nothing is merged out of order. -/
theorem of_injective
    (injective : ∀ first second, known first → known second →
      g (f first) = g (f second) → first = second) :
    MergesInOrder f g known := by
  intro first second member otherMember same _
  rw [injective first second member otherMember same]
  exact Std.ReflCmp.isLE_rfl

omit [Std.TransOrd ι] in
theorem of_nonDecreasingOn {set : OrderedSet κ}
    (nonDecreasing : OrderedSet.NonDecreasingOn f set) :
    MergesInOrder f g (· ∈ set) :=
  fun first second member otherMember _ => nonDecreasing first second member otherMember

omit [Std.TransOrd κ] [Std.TransOrd ι] in
theorem mono {more : κ → Prop}
    (inOrder : MergesInOrder f g more) (within : ∀ key, known key → more key) :
    MergesInOrder f g known :=
  fun first second member otherMember =>
    inOrder first second (within first member) (within second otherMember)

/-- The key that prevails in the end prevails in both steps. -/
theorem prevails_comp_iff
    [Std.LawfulEqOrd κ] [Std.LawfulEqOrd ι] (inOrder : MergesInOrder f g known) {name : τ} :
    Prevails (g ∘ f) known name key ↔
      Prevails g (fun middle => ∃ key, known key ∧ f key = middle) name (f key) ∧
        Prevails f known (f key) key := by
  constructor
  · intro prevails
    refine ⟨⟨⟨key, prevails.mem, rfl⟩, prevails.named, ?_⟩, prevails.mem, rfl, ?_⟩
    · rintro _ ⟨other, member, rfl⟩ same
      rcases Ordering.isLE_iff_eq_lt_or_eq_eq.mp (prevails.greatest other member same) with
        below | equal
      · exact inOrder other key member prevails.mem (same.trans prevails.named.symm) below
      · rw [Std.LawfulEqOrd.eq_of_compare equal]
        exact Std.ReflCmp.isLE_rfl
    · intro other member same
      exact prevails.greatest other member ((congrArg g same).trans prevails.named)
  · rintro ⟨final, first⟩
    refine ⟨first.mem, final.named, ?_⟩
    intro other member same
    rw [Ordering.isLE_iff_ne_gt]
    intro above
    -- A greater key with the final name would have the same name between, and prevail there.
    have notBelow : (compare (f key) (f other)).isLE = true :=
      inOrder key other first.mem member (final.named.trans same.symm)
        (Std.OrientedCmp.gt_iff_lt.mp above)
    have notAbove := final.greatest (f other) ⟨other, member, rfl⟩ same
    have merged : f other = f key :=
      Std.LawfulEqOrd.eq_of_compare (Std.OrientedCmp.isLE_antisymm notAbove notBelow)
    exact Ordering.isLE_iff_ne_gt.mp (first.greatest other member merged) above

end MergesInOrder

variable [Std.LawfulEqOrd κ] [Std.LawfulEqOrd ι] {map : OrderedMap κ β} {value : β}

theorem mem_rename : name ∈ rename f map ↔ ∃ key ∈ map, f key = name := by
  constructor
  · intro present
    obtain ⟨value, renamed⟩ := mem_iff_exists.mp present
    obtain ⟨key, there, same⟩ := exists_of_getElem?_rename renamed
    exact ⟨key, mem_of_getElem? there, same⟩
  · rintro ⟨key, member, rfl⟩
    obtain ⟨value, there⟩ := mem_iff_exists.mp member
    rw [Std.ExtTreeMap.mem_iff_isSome_getElem?, Option.isSome_iff_ne_none]
    intro absent
    rw [getElem?_rename, List.findSomeRev?_eq_findSome?_reverse,
      List.findSome?_eq_none_iff] at absent
    have listed : (key, value) ∈ map.toList.reverse :=
      List.mem_reverse.mpr (Std.ExtTreeMap.mem_toList_iff_getElem?_eq_some.mpr there)
    simpa using absent (key, value) listed

/-- The value that is found is that of the greatest key with the name: the keys listed after it have
other names. -/
theorem exists_prevails_of_getElem?_rename (renamed : (rename f map)[name]? = some value) :
    ∃ key, Prevails f (· ∈ map) name key ∧ map[key]? = some value := by
  rw [getElem?_rename, List.findSomeRev?_eq_findSome?_reverse] at renamed
  obtain ⟨later, ⟨key, own⟩, earlier, listed, selected, passed⟩ :=
    List.findSome?_eq_some_iff.mp renamed
  split at selected
  case isFalse => cases selected
  case isTrue same =>
    cases selected
    have there : map[key]? = some own := by
      rw [← Std.ExtTreeMap.mem_toList_iff_getElem?_eq_some, ← List.mem_reverse, listed]
      exact List.mem_append_right _ List.mem_cons_self
    have descending := List.pairwise_reverse.mpr (Std.ExtTreeMap.ordered_keys_toList (t := map))
    rw [listed] at descending
    have below := (List.pairwise_cons.mp (List.pairwise_append.mp descending).2.1).1
    refine ⟨key, ⟨mem_of_getElem? there, Std.LawfulEqOrd.eq_of_compare same, ?_⟩, there⟩
    intro other member otherSame
    obtain ⟨otherValue, present⟩ := mem_iff_exists.mp member
    have found : (other, otherValue) ∈ map.toList.reverse :=
      List.mem_reverse.mpr (Std.ExtTreeMap.mem_toList_iff_getElem?_eq_some.mpr present)
    rw [listed] at found
    rcases List.mem_append.mp found with after | rest
    · have skipped := passed (other, otherValue) after
      simp [otherSame] at skipped
    · rcases List.mem_cons.mp rest with itself | before
      · cases itself
        exact Std.ReflCmp.isLE_rfl
      · exact Ordering.isLE_of_eq_lt (below (other, otherValue) before)

/-- The value of a name is that of the key which prevails. -/
theorem getElem?_rename_iff :
    (rename f map)[name]? = some value ↔
      ∃ key, Prevails f (· ∈ map) name key ∧ map[key]? = some value := by
  constructor
  · exact exists_prevails_of_getElem?_rename
  · rintro ⟨key, prevails, there⟩
    obtain ⟨other, renamed⟩ := mem_iff_exists.mp (mem_rename.mpr ⟨key, prevails.mem, prevails.named⟩)
    obtain ⟨own, ownPrevails, ownThere⟩ := exists_prevails_of_getElem?_rename renamed
    rw [renamed, ← ownThere, ownPrevails.unique prevails, there]

theorem rename_map (h : β → γ) :
    rename f (map.map fun _ => h) = (rename f map).map fun _ => h := by
  apply Std.ExtTreeMap.ext_getElem?
  intro name
  apply Option.ext
  intro renamed
  simp only [getElem?_rename_iff, Std.ExtTreeMap.getElem?_map, Std.ExtTreeMap.mem_map,
    Option.map_eq_some_iff]
  grind

section Twice

variable [Ord τ] [Std.TransOrd τ] [Std.LawfulEqOrd τ] (inOrder : MergesInOrder f g (· ∈ map))

include inOrder

/-- Renaming in two steps is renaming in one. -/
theorem rename_rename :
    rename g (rename f map) = rename (g ∘ f) map := by
  apply Std.ExtTreeMap.ext_getElem?
  intro name
  apply Option.ext
  intro value
  simp only [getElem?_rename_iff, mem_rename, inOrder.prevails_comp_iff]
  constructor
  · rintro ⟨middle, final, key, first, there⟩
    obtain rfl := first.named
    exact ⟨key, ⟨final, first⟩, there⟩
  · rintro ⟨key, ⟨final, first⟩, there⟩
    exact ⟨f key, final, key, first, there⟩

/-- Renaming and changing the values in two steps is doing both in one. -/
theorem rename_map_rename_map (h : β → γ) (k : γ → δ) :
    rename g ((rename f (map.map fun _ => h)).map fun _ => k) =
      rename (g ∘ f) (map.map fun _ => k ∘ h) := by
  have kept : MergesInOrder f g (· ∈ map.map fun _ => k ∘ h) :=
    inOrder.mono fun _ member => Std.ExtTreeMap.mem_map.mp member
  rw [← rename_map, Std.ExtTreeMap.map_map]
  exact rename_rename kept

end Twice

end PatternAutomata.OrderedMap
