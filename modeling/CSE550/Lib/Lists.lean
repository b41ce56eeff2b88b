import Mathlib.Algebra.BigOperators.Group.List.Basic
import Mathlib.Algebra.Ring.Nat
import Mathlib.Data.List.Basic
import Mathlib.Data.List.Induction

/-!
Owns the positions of a list that grows at its end, what occurs at some position
of it, its items collected by a key, and lists whose items are mapped one by one.
-/

namespace CSE550.Lib

variable {Item : Type}

theorem getElem?_concat {items : List Item} {index : ℕ} {item last : Item}
    (found : items[index]? = some item) : (items ++ [last])[index]? = some item := by
  obtain ⟨inside, _⟩ := List.getElem?_eq_some_iff.mp found
  rwa [List.getElem?_append_left inside]

/-- What is found in an extended list is old, or the last item. -/
theorem getElem?_concat_cases {items : List Item} {index : ℕ} {item last : Item}
    (found : (items ++ [last])[index]? = some item) :
    (index < items.length ∧ items[index]? = some item) ∨ (index = items.length ∧ last = item) := by
  rcases Nat.lt_or_ge index items.length with inside | outside
  · exact .inl ⟨inside, by rwa [List.getElem?_append_left inside] at found⟩
  · obtain ⟨bound, value⟩ := List.getElem?_eq_some_iff.mp found
    obtain rfl : index = items.length := by
      simp only [List.length_append, List.length_singleton] at bound
      omega
    exact .inr ⟨rfl, by simpa using value⟩

/-- Items with a key among the given ones, collected key by key. -/
theorem flatMap_filter_perm {Key : Type} [DecidableEq Key] (key : Item → Key) {keys : List Key}
    (nodup : keys.Nodup) {items : List Item} (known : ∀ item ∈ items, key item ∈ keys) :
    (keys.flatMap fun each => items.filter fun item => key item = each).Perm items := by
  induction keys generalizing items with
  | nil =>
      cases items with
      | nil => exact .nil
      | cons item items => exact absurd (known item List.mem_cons_self) List.not_mem_nil
  | cons first keys inductionHypothesis =>
      obtain ⟨fresh, nodup⟩ := List.nodup_cons.mp nodup
      have rest : (keys.flatMap fun each =>
          (items.filter fun item => ¬ key item = first).filter fun item => key item = each).Perm
            (items.filter fun item => ¬ key item = first) := by
        apply inductionHypothesis nodup
        intro item member
        obtain ⟨inItems, other⟩ := List.mem_filter.mp member
        exact (List.mem_cons.mp (known item inItems)).resolve_left (of_decide_eq_true other)
      have same : (keys.flatMap fun each =>
          (items.filter fun item => ¬ key item = first).filter fun item => key item = each) =
            keys.flatMap fun each => items.filter fun item => key item = each := by
        apply List.flatMap_congr
        intro each member
        rw [List.filter_filter]
        apply List.filter_congr
        intro item _
        by_cases own : key item = each
        · have other : ¬ each = first := fun equal => fresh (equal ▸ member)
          simp [own, other]
        · simp [own]
      rw [List.flatMap_cons, ← same]
      exact (rest.append_left _).trans
        (by simpa using List.filter_append_perm (fun item => decide (key item = first)) items)

theorem filterMap_range_getElem? (items : List Item) :
    ((List.range items.length).filterMap fun index => items[index]?) = items := by
  induction items using List.reverseRecOn with
  | nil => rfl
  | append_singleton items last inductionHypothesis =>
      have older : ((List.range items.length).filterMap fun index => (items ++ [last])[index]?) =
          (List.range items.length).filterMap fun index => items[index]? := by
        refine List.filterMap_congr fun index member => ?_
        rw [List.getElem?_append_left (List.mem_range.mp member)]
      rw [List.length_append, List.length_singleton, List.range_succ, List.filterMap_append, older,
        inductionHypothesis]
      simp

/-- A list with a lighter item in a place weighs less. -/
theorem sum_set_lt {weight : Item → ℕ} {items : List Item} {index : ℕ} {item next : Item}
    (found : items[index]? = some item) (less : weight next < weight item) :
    ((items.set index next).map weight).sum < (items.map weight).sum := by
  induction items generalizing index with
  | nil => simp at found
  | cons first items inductionHypothesis =>
      cases index with
      | zero =>
          obtain rfl := Option.some.inj found
          simpa using less
      | succ index =>
          have rest := inductionHypothesis found
          simpa using rest

/-- Some item of the list, with the items before it, is an occurrence of the event. -/
def OccursIn (event : List Item → Item → Prop) (items : List Item) : Prop :=
  ∃ before item after, items = before ++ item :: after ∧ event before item

theorem occursIn_nil (event : List Item → Item → Prop) : ¬ OccursIn event [] := by
  rintro ⟨before, item, after, same, _⟩
  simp at same

theorem occursIn_concat {event : List Item → Item → Prop} {items : List Item} {last : Item} :
    OccursIn event (items ++ [last]) ↔ OccursIn event items ∨ event items last := by
  constructor
  · rintro ⟨before, item, after, same, holds⟩
    induction after using List.reverseRecOn with
    | nil =>
        rcases List.append_inj' same rfl with ⟨rfl, lastSame⟩
        rw [List.singleton_inj.mp lastSame]
        exact .inr holds
    | append_singleton after other _ =>
        rw [← List.cons_append, ← List.append_assoc] at same
        exact .inl ⟨before, item, after, (List.append_inj' same rfl).1, holds⟩
  · rintro (⟨before, item, after, rfl, holds⟩ | holds)
    · exact ⟨before, item, after ++ [last], by simp, holds⟩
    · exact ⟨items, last, [], rfl, holds⟩

/-- A list is mapped when each of its items is. -/
theorem mapM_eq_some_iff {Item Image : Type} {image : Item → Option Image} {items : List Item}
    {images : List Image} : items.mapM image = some images ↔
      List.Forall₂ (fun item mapped => image item = some mapped) items images := by
  induction items generalizing images with
  | nil =>
      rw [List.mapM_nil, List.forall₂_nil_left_iff]
      exact ⟨fun same => (Option.some.inj same).symm, fun same => same ▸ rfl⟩
  | cons item items inductionHypothesis =>
      rw [List.mapM_cons, List.forall₂_cons_left_iff]
      constructor
      · intro mapped
        obtain ⟨first, firstMapped, later⟩ := Option.bind_eq_some_iff.mp mapped
        obtain ⟨others, othersMapped, same⟩ := Option.bind_eq_some_iff.mp later
        exact ⟨first, others, firstMapped, inductionHypothesis.mp othersMapped,
          (Option.some.inj same).symm⟩
      · intro mapped
        obtain ⟨first, others, firstMapped, othersMapped, rfl⟩ := mapped
        simp [firstMapped, inductionHypothesis.mpr othersMapped]

/-- Items that all have a property, with what a function makes of them. -/
theorem forall₂_eq_map_iff {Image : Type} {holds : Item → Prop} {image : Item → Image}
    {items : List Item} {images : List Image} :
    List.Forall₂ (fun item mapped => holds item ∧ mapped = image item) items images ↔
      (∀ item ∈ items, holds item) ∧ images = items.map image := by
  induction items generalizing images with
  | nil => simp
  | cons item items inductionHypothesis =>
      rw [List.forall₂_cons_left_iff, List.forall_mem_cons, List.map_cons]
      constructor
      · intro pairs
        obtain ⟨first, others, ⟨firstHolds, rfl⟩, later, rfl⟩ := pairs
        obtain ⟨othersHold, rfl⟩ := inductionHypothesis.mp later
        exact ⟨⟨firstHolds, othersHold⟩, rfl⟩
      · intro all
        obtain ⟨⟨firstHolds, othersHold⟩, rfl⟩ := all
        exact ⟨_, _, ⟨firstHolds, rfl⟩, inductionHypothesis.mpr ⟨othersHold, rfl⟩, rfl⟩

end CSE550.Lib
