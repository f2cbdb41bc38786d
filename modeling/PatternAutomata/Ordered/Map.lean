import Std.Data.ExtTreeMap

/-!
# Ordered maps

Finite maps from an ordered type.  Two maps that agree on every key are equal, and their listing is
ascending in the keys.
-/

namespace PatternAutomata

/-- A finite map whose keys are ordered. -/
abbrev OrderedMap (κ : Type) [Ord κ] (β : Type) := Std.ExtTreeMap κ β compare

namespace OrderedMap

variable {κ ι β : Type} [Ord κ] [Std.TransOrd κ] [Ord ι] [Std.TransOrd ι]

/-- Renames the keys; where several keys get one name, the value of the greatest of them stays. -/
def rename (f : κ → ι) (map : OrderedMap κ β) : OrderedMap ι β :=
  map.foldl (fun renamed key value => renamed.insert (f key) value) ∅

/-- Of the keys that have the property and get the name, the key is the greatest. -/
structure Prevails (f : κ → ι) (known : κ → Prop) (name : ι) (key : κ) : Prop where
  mem : known key
  named : f key = name
  greatest : ∀ other, known other → f other = name → (compare other key).isLE = true

/-- Of the keys with the property, those which get one name from both functions together are not
reversed by the first function. -/
def MergesInOrder {τ : Type} (f : κ → ι) (g : ι → τ) (known : κ → Prop) : Prop :=
  ∀ first second, known first → known second → g (f first) = g (f second) →
    compare first second = .lt → (compare (f first) (f second)).isLE = true

/-- All entries of both maps; where both have a value at a key, the two are combined. -/
def merge (combine : β → β → β) (first second : OrderedMap κ β) : OrderedMap κ β :=
  second.foldl
    (fun merged key value =>
      merged.alter key fun own => some (own.elim value fun own => combine own value))
    first

theorem mem_iff_exists {map : OrderedMap κ β} {key : κ} :
    key ∈ map ↔ ∃ value, map[key]? = some value := by
  rw [Std.ExtTreeMap.mem_iff_isSome_getElem?, Option.isSome_iff_exists]

theorem mem_of_getElem? {map : OrderedMap κ β} {key : κ} {value : β}
    (present : map[key]? = some value) : key ∈ map :=
  mem_iff_exists.mpr ⟨value, present⟩

theorem exists_mem_of_ne_empty {map : OrderedMap κ β} (nonempty : map ≠ ∅) :
    ∃ key, key ∈ map := by
  simpa [Std.ExtTreeMap.eq_empty_iff_forall_not_mem] using nonempty

private theorem getElem?_foldl_insert {γ : Type} (f : γ → κ) (entries : List (γ × β))
    (start : OrderedMap κ β) (name : κ) :
    (entries.foldl (fun renamed entry => renamed.insert (f entry.1) entry.2) start)[name]? =
      (entries.findSomeRev? fun entry =>
        if compare (f entry.1) name = .eq then some entry.2 else none).or start[name]? := by
  induction entries generalizing start with
  | nil => simp
  | cons entry entries ih =>
    rw [List.foldl_cons, ih, Std.ExtTreeMap.getElem?_insert, List.findSomeRev?]
    cases entries.findSomeRev? _ with
    | some value => rfl
    | none =>
      rw [Option.none_or]
      split <;> simp

/-- The value of a name is that of the greatest key with this name. -/
theorem getElem?_rename {f : κ → ι} {map : OrderedMap κ β} {name : ι} :
    (rename f map)[name]? = map.toList.findSomeRev? fun entry =>
      if compare (f entry.1) name = .eq then some entry.2 else none := by
  rw [rename, Std.ExtTreeMap.foldl_eq_foldl_toList, getElem?_foldl_insert]
  simp

theorem exists_of_getElem?_rename [Std.LawfulEqOrd κ] [Std.LawfulEqOrd ι] {f : κ → ι}
    {map : OrderedMap κ β} {name : ι} {value : β} (present : (rename f map)[name]? = some value) :
    ∃ key, map[key]? = some value ∧ f key = name := by
  rw [getElem?_rename, List.findSomeRev?_eq_findSome?_reverse] at present
  obtain ⟨⟨key, own⟩, member, selected⟩ := List.exists_of_findSome?_eq_some present
  rw [List.mem_reverse, Std.ExtTreeMap.mem_toList_iff_getElem?_eq_some] at member
  split at selected
  · cases selected
    exact ⟨key, member, Std.LawfulEqOrd.eq_of_compare ‹_›⟩
  · cases selected

/-- Renaming looks at the names of the keys of the map only. -/
theorem rename_congr [Std.LawfulEqOrd κ] {f g : κ → ι} {map : OrderedMap κ β}
    (agree : ∀ key, key ∈ map → f key = g key) : rename f map = rename g map := by
  have entries : map.toList.map (fun entry => (f entry.1, entry.2)) =
      map.toList.map (fun entry => (g entry.1, entry.2)) := by
    apply List.map_congr_left
    intro entry listed
    have present : map[entry.1]? = some entry.2 :=
      Std.ExtTreeMap.mem_toList_iff_getElem?_eq_some.mp listed
    rw [agree entry.1 (mem_of_getElem? present)]
  have folded : ∀ h : κ → ι, rename h map =
      (map.toList.map fun entry => (h entry.1, entry.2)).foldl
        (fun renamed entry => renamed.insert entry.1 entry.2) ∅ := by
    intro h
    rw [rename, Std.ExtTreeMap.foldl_eq_foldl_toList, List.foldl_map]
  rw [folded, folded, entries]

/-- A key that is missing has nothing below it. -/
theorem getElem?_getD_empty {map : OrderedMap κ (OrderedMap ι β)} {key : κ} {inner : ι} :
    (map.getD key ∅)[inner]? = map[key]?.bind (·[inner]?) := by
  rw [Std.ExtTreeMap.getD_eq_getD_getElem?]
  cases map[key]? with
  | none => simp
  | some row => rfl

/-- Maps of nonempty maps are equal if looking up two keys in turn finds the same in both. -/
theorem eq_of_getElem?_getElem? [Std.LawfulEqOrd κ] [Std.LawfulEqOrd ι]
    {first second : OrderedMap κ (OrderedMap ι β)}
    (firstFull : ∀ (key : κ) (row : OrderedMap ι β), first[key]? = some row → row ≠ ∅)
    (secondFull : ∀ (key : κ) (row : OrderedMap ι β), second[key]? = some row → row ≠ ∅)
    (same : ∀ (key : κ) (inner : ι),
      first[key]?.bind (·[inner]?) = second[key]?.bind (·[inner]?)) :
    first = second := by
  apply Std.ExtTreeMap.ext_getElem?
  intro key
  have equal := same key
  cases left : first[key]? with
  | none =>
      cases right : second[key]? with
      | none => rfl
      | some row =>
          refine absurd (Std.ExtTreeMap.ext_getElem? fun inner => ?_) (secondFull key row right)
          simpa [left, right] using (equal inner).symm
  | some row =>
      cases right : second[key]? with
      | none =>
          refine absurd (Std.ExtTreeMap.ext_getElem? fun inner => ?_) (firstFull key row left)
          simpa [left, right] using equal inner
      | some other =>
          apply congrArg some
          apply Std.ExtTreeMap.ext_getElem?
          intro inner
          simpa [left, right] using equal inner

section Merge

variable [Std.LawfulEqOrd κ]

private theorem getElem?_foldl_alter (combine : β → β → β) (entries : List (κ × β))
    (distinct : entries.Pairwise fun first second => first.1 ≠ second.1)
    (start : OrderedMap κ β) (key : κ) :
    (entries.foldl
      (fun merged entry =>
        merged.alter entry.1 fun own => some (own.elim entry.2 fun own => combine own entry.2))
      start)[key]? =
      match entries.find? fun entry => compare entry.1 key == .eq with
      | none => start[key]?
      | some entry => some (start[key]?.elim entry.2 fun own => combine own entry.2) := by
  induction entries generalizing start with
  | nil => simp
  | cons entry entries ih =>
    obtain ⟨apart, distinct⟩ := List.pairwise_cons.mp distinct
    rw [List.foldl_cons, ih distinct, Std.ExtTreeMap.getElem?_alter, List.find?_cons]
    by_cases same : entry.1 = key
    · subst same
      have absent : (entries.find? fun other => compare other.1 entry.1 == .eq) = none := by
        rw [List.find?_eq_none]
        intro other member equal
        exact apart other member (Std.LawfulEqOrd.eq_of_compare (beq_iff_eq.mp equal)).symm
      simp [absent]
    · have different : ¬compare entry.1 key = .eq := fun equal =>
        same (Std.LawfulEqOrd.eq_of_compare equal)
      simp [different, beq_false_of_ne different]

theorem getElem?_merge {combine : β → β → β} {first second : OrderedMap κ β} {key : κ} :
    (merge combine first second)[key]? =
      (second[key]?.map fun value => first[key]?.elim value fun own => combine own value).or
        first[key]? := by
  have distinct : second.toList.Pairwise fun first second => first.1 ≠ second.1 :=
    Std.ExtTreeMap.distinct_keys_toList.imp fun apart equal =>
      apart (Std.LawfulEqOrd.compare_eq_iff_eq.mpr equal)
  rw [merge, Std.ExtTreeMap.foldl_eq_foldl_toList, getElem?_foldl_alter combine _ distinct]
  cases present : second[key]? with
  | none =>
    have absent : key ∉ second := by simpa using present
    rw [Std.ExtTreeMap.find?_toList_eq_none_iff_not_mem.mpr absent]
    rfl
  | some value =>
    have found : second.toList.find? (compare ·.1 key == .eq) = some (key, value) := by
      rw [Std.ExtTreeMap.find?_toList_eq_some_iff_getKey?_eq_some_and_getElem?_eq_some]
      exact ⟨Std.ExtTreeMap.getKey?_eq_some (mem_of_getElem? present), present⟩
    rw [found]
    rfl

end Merge

end OrderedMap

end PatternAutomata
