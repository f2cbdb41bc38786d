import PatternAutomata.Ordered.Map
import PatternAutomata.Ordered.Set

/-!
# Sets and maps from listings

A listing whose keys are all different is a map, and the listing of a set or a map gives it back.
-/

namespace PatternAutomata

variable {α β : Type} [Ord α] [Std.TransOrd α] [Std.LawfulEqOrd α]

theorem OrderedSet.mem_ofList {members : List α} {member : α} :
    member ∈ (Std.ExtTreeSet.ofList members : OrderedSet α) ↔ member ∈ members := by
  rw [Std.ExtTreeSet.ofList_eq_insertMany_empty, OrderedSet.mem_insertMany]
  simp

theorem OrderedSet.ofList_toList (set : OrderedSet α) :
    (Std.ExtTreeSet.ofList set.toList : OrderedSet α) = set := by
  apply Std.ExtTreeSet.ext_mem
  intro member
  rw [mem_ofList, Std.ExtTreeSet.mem_toList]

namespace OrderedMap

theorem getElem?_ofList_iff
    {entries : List (α × β)}
    (distinct : entries.Pairwise fun first second => ¬compare first.1 second.1 = .eq)
    {key : α} {value : β} :
    (Std.ExtTreeMap.ofList entries : OrderedMap α β)[key]? = some value ↔
      (key, value) ∈ entries := by
  have present : ∀ {key : α} {value : β}, (key, value) ∈ entries →
      (Std.ExtTreeMap.ofList entries : OrderedMap α β)[key]? = some value :=
    fun member => Std.ExtTreeMap.getElem?_ofList_of_mem Std.ReflCmp.compare_self distinct member
  constructor
  · intro found
    have known : key ∈ entries.map Prod.fst := by
      classical
      apply Classical.byContradiction
      intro unknown
      have missing : (Std.ExtTreeMap.ofList entries : OrderedMap α β)[key]? = none :=
        Std.ExtTreeMap.getElem?_ofList_of_contains_eq_false (by simpa using unknown)
      cases missing.symm.trans found
    obtain ⟨⟨_, other⟩, member, rfl⟩ := List.mem_map.mp known
    have same : other = value := Option.some.inj ((present member).symm.trans found)
    exact same ▸ member
  · exact present

theorem ofList_toList (map : OrderedMap α β) :
    (Std.ExtTreeMap.ofList map.toList : OrderedMap α β) = map := by
  apply Std.ExtTreeMap.ext_getElem?
  intro key
  apply Option.ext
  intro value
  rw [getElem?_ofList_iff Std.ExtTreeMap.distinct_keys_toList,
    Std.ExtTreeMap.mem_toList_iff_getElem?_eq_some]

end OrderedMap

end PatternAutomata
