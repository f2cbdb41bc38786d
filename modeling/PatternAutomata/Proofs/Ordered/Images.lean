import PatternAutomata.Ordered.Set

/-!
# Images of sets

A function that tells the members of a set apart tells its subsets apart by their images, and a
function that keeps the order of the members keeps the order of the subsets.
-/

namespace PatternAutomata.OrderedSet

variable {α β γ : Type} [Ord α] [Std.TransOrd α] [Std.LawfulEqOrd α]
  [Ord β] [Std.TransOrd β] [Std.LawfulEqOrd β]
  {f : α → β} {whole first second : OrderedSet α}

theorem image_congr
    {g : α → β} (agree : ∀ member, member ∈ whole → f member = g member) :
    image f whole = image g whole := by
  apply Std.ExtTreeSet.ext_mem
  intro name
  rw [mem_image, mem_image]
  constructor
  · intro named
    obtain ⟨member, among, rfl⟩ := named
    exact ⟨member, among, (agree member among).symm⟩
  · intro named
    obtain ⟨member, among, rfl⟩ := named
    exact ⟨member, among, agree member among⟩

theorem image_image [Ord γ] [Std.TransOrd γ] [Std.LawfulEqOrd γ] {g : β → γ} :
    image g (image f whole) = image (g ∘ f) whole := by
  apply Std.ExtTreeSet.ext_mem
  intro name
  simp only [mem_image, Function.comp_apply]
  grind

theorem image_eq_self {f : α → α} (fixed : ∀ member, member ∈ whole → f member = member) :
    image f whole = whole := by
  apply Std.ExtTreeSet.ext_mem
  intro name
  rw [mem_image]
  grind

namespace InjectiveOn

omit [Std.LawfulEqOrd α] in
theorem of_fixed {f : α → α} (fixed : ∀ member, member ∈ whole → f member = member) :
    InjectiveOn f whole := by
  intro member other among otherAmong same
  rwa [fixed member among, fixed other otherAmong] at same

theorem mem_image_iff
    (injective : InjectiveOn f whole) (within : ∀ member, member ∈ first → member ∈ whole)
    {member : α} (known : member ∈ whole) :
    f member ∈ image f first ↔ member ∈ first := by
  rw [mem_image]
  constructor
  · intro named
    obtain ⟨other, among, same⟩ := named
    rwa [← injective other member (within other among) known same]
  · intro among
    exact ⟨member, among, rfl⟩

/-- Subsets with the same image are the same. -/
theorem eq_of_image_eq
    (injective : InjectiveOn f whole) (within : ∀ member, member ∈ first → member ∈ whole)
    (withinSecond : ∀ member, member ∈ second → member ∈ whole)
    (same : image f first = image f second) :
    first = second := by
  apply Std.ExtTreeSet.ext_mem
  intro member
  constructor
  · intro among
    have named : f member ∈ image f second := same ▸ mem_image.mpr ⟨member, among, rfl⟩
    exact (injective.mem_image_iff withinSecond (within member among)).mp named
  · intro among
    have named : f member ∈ image f first := same ▸ mem_image.mpr ⟨member, among, rfl⟩
    exact (injective.mem_image_iff within (withinSecond member among)).mp named

/-- Renaming the members of two subsets does not change whether they meet. -/
theorem meets_image
    (injective : InjectiveOn f whole) (within : ∀ member, member ∈ first → member ∈ whole)
    (withinSecond : ∀ member, member ∈ second → member ∈ whole) :
    meets (image f first) (image f second) = meets first second := by
  rw [Bool.eq_iff_iff, meets_iff, meets_iff]
  constructor
  · intro common
    obtain ⟨_, named, other⟩ := common
    obtain ⟨member, among, rfl⟩ := mem_image.mp named
    exact ⟨member, among, (injective.mem_image_iff withinSecond (within member among)).mp other⟩
  · intro common
    obtain ⟨member, among, other⟩ := common
    exact ⟨f member, mem_image.mpr ⟨member, among, rfl⟩, mem_image.mpr ⟨member, other, rfl⟩⟩

/-- The members of the image are the names of the members. -/
theorem perm_toList_image (injective : InjectiveOn f whole) :
    (image f whole).toList.Perm (whole.toList.map f) := by
  have distinct : (whole.toList.map f).Nodup := by
    apply List.pairwise_map.mpr
    refine nodup_toList.imp_of_mem ?_
    intro member other among otherAmong different same
    exact different (injective member other (Std.ExtTreeSet.mem_toList.mp among)
      (Std.ExtTreeSet.mem_toList.mp otherAmong) same)
  apply (List.perm_ext_iff_of_nodup nodup_toList distinct).mpr
  intro name
  rw [Std.ExtTreeSet.mem_toList, mem_image, List.mem_map]
  simp only [Std.ExtTreeSet.mem_toList]

theorem size_image (injective : InjectiveOn f whole) : (image f whole).size = whole.size := by
  rw [← Std.ExtTreeSet.length_toList, ← Std.ExtTreeSet.length_toList,
    injective.perm_toList_image.length_eq, List.length_map]

end InjectiveOn

/-- There are as many singletons of members as members. -/
theorem size_image_singleton :
    (image (fun member => ({member} : OrderedSet α)) whole).size = whole.size := by
  apply InjectiveOn.size_image
  intro member other _ _ (same : ({member} : OrderedSet α) = {other})
  apply mem_singleton.mp
  rw [← same]
  exact mem_singleton.mpr rfl

omit [Std.TransOrd α] [Std.LawfulEqOrd α] [Std.TransOrd β] [Std.LawfulEqOrd β] in
/-- Lists whose members compare as before compare as before. -/
theorem compare_map
    {members others : List α}
    (keeps : ∀ member ∈ members, ∀ other ∈ others,
      compare (f member) (f other) = compare member other) :
    compare (members.map f) (others.map f) = compare members others := by
  induction members generalizing others with
  | nil => cases others <;> rfl
  | cons member members ih =>
      cases others with
      | nil => rfl
      | cons other others =>
          have rest := ih fun later among laterOther amongOthers =>
            keeps later (List.mem_cons_of_mem member among) laterOther
              (List.mem_cons_of_mem other amongOthers)
          rw [List.map_cons, List.map_cons, List.compare_cons_cons, List.compare_cons_cons, rest,
            keeps member List.mem_cons_self other List.mem_cons_self]

namespace IncreasingOn

theorem compare_eq
    (increasing : IncreasingOn f whole) {member other : α} (known : member ∈ whole)
    (otherKnown : other ∈ whole) :
    compare (f member) (f other) = compare member other := by
  cases order : compare member other with
  | lt => exact increasing member other known otherKnown order
  | eq =>
      rw [Std.LawfulEqOrd.eq_of_compare order]
      exact Std.ReflCmp.compare_self
  | gt =>
      apply Std.OrientedCmp.gt_of_lt
      exact increasing other member otherKnown known (Std.OrientedCmp.lt_of_gt order)

theorem injectiveOn (increasing : IncreasingOn f whole) : InjectiveOn f whole := by
  intro member other known otherKnown same
  apply Std.LawfulEqOrd.eq_of_compare
  rw [← increasing.compare_eq known otherKnown, same]
  exact Std.ReflCmp.compare_self

/-- The members of the image are listed as the members are. -/
theorem toList_image (increasing : IncreasingOn f whole) :
    (image f whole).toList = whole.toList.map f := by
  have ordered : (whole.toList.map f).Pairwise fun first second => compare first second = .lt := by
    rw [List.pairwise_map]
    refine Std.ExtTreeSet.ordered_toList.imp_of_mem ?_
    intro member other among otherAmong
    exact increasing member other (Std.ExtTreeSet.mem_toList.mp among)
      (Std.ExtTreeSet.mem_toList.mp otherAmong)
  refine List.Perm.eq_of_pairwise ?_ Std.ExtTreeSet.ordered_toList ordered
    increasing.injectiveOn.perm_toList_image
  intro name other _ _ below above
  exact absurd above (Std.OrientedCmp.not_lt_of_lt below)

omit [Std.LawfulEqOrd α] [Std.TransOrd β] [Std.LawfulEqOrd β] in
theorem mono
    (increasing : IncreasingOn f whole) (within : ∀ member, member ∈ first → member ∈ whole) :
    IncreasingOn f first := by
  intro member other among otherAmong
  exact increasing member other (within member among) (within other otherAmong)

/-- Subsets compare as their images do. -/
theorem compare_image
    (increasing : IncreasingOn f whole) (within : ∀ member, member ∈ first → member ∈ whole)
    (withinSecond : ∀ member, member ∈ second → member ∈ whole) :
    compare (image f first) (image f second) = compare first second := by
  rw [OrderedSet.compare_eq, OrderedSet.compare_eq, (increasing.mono within).toList_image,
    (increasing.mono withinSecond).toList_image]
  apply compare_map
  intro member among other otherAmong
  exact increasing.compare_eq (within member (Std.ExtTreeSet.mem_toList.mp among))
    (withinSecond other (Std.ExtTreeSet.mem_toList.mp otherAmong))

end IncreasingOn

/-- A function that tells the members of a set apart tells the sets of a collection of subsets apart
by their images. -/
theorem InjectiveOn.image
    {subsets : OrderedSet (OrderedSet α)} (injective : InjectiveOn f whole)
    (within : ∀ subset, subset ∈ subsets → ∀ member, member ∈ subset → member ∈ whole) :
    InjectiveOn (image f) subsets := by
  intro subset other among otherAmong
  exact injective.eq_of_image_eq (within subset among) (within other otherAmong)

/-- A function that keeps the order of the members of a set keeps the order of the sets of a
collection of subsets. -/
theorem IncreasingOn.image
    {subsets : OrderedSet (OrderedSet α)} (increasing : IncreasingOn f whole)
    (within : ∀ subset, subset ∈ subsets → ∀ member, member ∈ subset → member ∈ whole) :
    IncreasingOn (image f) subsets := by
  intro subset other among otherAmong below
  rw [increasing.compare_image (within subset among) (within other otherAmong), below]

end PatternAutomata.OrderedSet
