import Mathlib.Algebra.BigOperators.Group.List.Basic
import Mathlib.Algebra.Ring.Int.Defs
import Mathlib.Data.Int.Order.Basic
import Mathlib.Data.List.AList
import Mathlib.Data.List.Count

/-!
Owns dictionaries of counters: counting one more occurrence of a key, the counts
of a whole list, what a key is mapped to after either, and the sum of all counts.

Does not own what the keys are, nor counters that also go down.
-/

namespace CSE550.Lib

/-- A dictionary from keys to counters. -/
abbrev Counts (Key : Type) := AList (fun _ : Key => ℤ)

namespace Counts

variable {Key : Type} [DecidableEq Key]

/-- `if key in counts: counts[key] += 1` and `else: counts[key] = 1`. -/
def bump (counts : Counts Key) (key : Key) : Counts Key :=
  match counts.lookup key with
  | some number => counts.insert key (number + 1)
  | none => counts.insert key 1

/-- Every item counted, in order. -/
def tally (counts : Counts Key) (items : List Key) : Counts Key := items.foldl bump counts

theorem lookup_bump_self (counts : Counts Key) (key : Key) :
    (counts.bump key).lookup key = some ((counts.lookup key).getD 0 + 1) := by
  unfold bump
  cases found : counts.lookup key with
  | none => simp
  | some number => simp

theorem lookup_bump_ne (counts : Counts Key) {key other : Key} (different : other ≠ key) :
    (counts.bump key).lookup other = counts.lookup other := by
  unfold bump
  cases counts.lookup key with
  | none => exact AList.lookup_insert_ne different
  | some number => exact AList.lookup_insert_ne different

theorem mem_bump {counts : Counts Key} {key other : Key} :
    other ∈ counts.bump key ↔ other = key ∨ other ∈ counts := by
  unfold bump
  cases counts.lookup key with
  | none => exact AList.mem_insert counts
  | some number => exact AList.mem_insert counts

@[simp] theorem tally_nil (counts : Counts Key) : counts.tally [] = counts := rfl

@[simp] theorem tally_cons (counts : Counts Key) (item : Key) (items : List Key) :
    counts.tally (item :: items) = (counts.bump item).tally items := rfl

theorem tally_concat (counts : Counts Key) (items : List Key) (item : Key) :
    counts.tally (items ++ [item]) = (counts.tally items).bump item := by
  rw [tally, List.foldl_append]
  rfl

theorem lookup_tally_of_not_mem (counts : Counts Key) {items : List Key} {key : Key}
    (absent : key ∉ items) : (counts.tally items).lookup key = counts.lookup key := by
  induction items generalizing counts with
  | nil => rfl
  | cons item items inductionHypothesis =>
      rw [List.mem_cons, not_or] at absent
      rw [tally_cons, inductionHypothesis _ absent.2, lookup_bump_ne _ absent.1]

/-- Counting a list adds its number of occurrences to a key that occurs. -/
theorem lookup_tally_of_mem (counts : Counts Key) {items : List Key} {key : Key}
    (member : key ∈ items) :
    (counts.tally items).lookup key = some ((counts.lookup key).getD 0 + items.count key) := by
  induction items generalizing counts with
  | nil => cases member
  | cons item items inductionHypothesis =>
      rw [tally_cons]
      by_cases same : key = item
      · subst same
        by_cases again : key ∈ items
        · rw [inductionHypothesis _ again, lookup_bump_self, List.count_cons_self]
          simp only [Option.getD_some, Option.some_inj]
          omega
        · rw [lookup_tally_of_not_mem _ again, lookup_bump_self, List.count_cons_self,
            List.count_eq_zero.mpr again]
          simp
      · have later : key ∈ items := (List.mem_cons.mp member).resolve_left same
        rw [inductionHypothesis _ later, lookup_bump_ne _ same,
          List.count_cons_of_ne (Ne.symm same)]

/-- Counting a list adds its number of occurrences to every key. -/
theorem getD_lookup_tally (counts : Counts Key) (items : List Key) (key : Key) :
    ((counts.tally items).lookup key).getD 0 = (counts.lookup key).getD 0 + items.count key := by
  by_cases member : key ∈ items
  · rw [lookup_tally_of_mem _ member, Option.getD_some]
  · rw [lookup_tally_of_not_mem _ member, List.count_eq_zero.mpr member]
    omega

/-- The keys of a tally are the old keys and the items. -/
theorem mem_tally {counts : Counts Key} {items : List Key} {key : Key} :
    key ∈ counts.tally items ↔ key ∈ items ∨ key ∈ counts := by
  by_cases member : key ∈ items
  · have found : (counts.tally items).lookup key ≠ none := by
      rw [lookup_tally_of_mem _ member]
      exact Option.some_ne_none _
    simpa [member, AList.lookup_eq_none] using found
  · rw [← AList.lookup_isSome, lookup_tally_of_not_mem _ member, AList.lookup_isSome]
    simp [member]

/-- Two tallies of fresh dictionaries agree on a key that occurs when it occurs as often. -/
theorem lookup_tally_eq_iff {left right : List Key} {key : Key} (member : key ∈ left) :
    (tally ∅ left).lookup key = (tally ∅ right).lookup key ↔ left.count key = right.count key := by
  rw [lookup_tally_of_mem _ member]
  by_cases other : key ∈ right
  · rw [lookup_tally_of_mem _ other]
    simp only [AList.lookup_empty, Option.getD_none, Option.some_inj]
    omega
  · have positive := List.count_pos_iff.mpr member
    rw [lookup_tally_of_not_mem _ other, List.count_eq_zero.mpr other]
    simp only [AList.lookup_empty, reduceCtorEq, false_iff]
    omega

/-- What occurs in another list as often as in this one occurs there. -/
theorem mem_of_count_eq {left right : List Key} {key : Key} (member : key ∈ left)
    (same : left.count key = right.count key) : key ∈ right := by
  have positive := List.count_pos_iff.mpr member
  exact List.count_pos_iff.mp (by omega)

/-- Counts survive an injective renaming of the keys. -/
theorem count_map_eq_iff {Item : Type} [DecidableEq Item] {rename : Item → Key}
    (injective : Function.Injective rename) {left right : List Item} :
    (∀ key ∈ left.map rename, (left.map rename).count key = (right.map rename).count key) ↔
      ∀ item ∈ left, left.count item = right.count item := by
  simp only [List.forall_mem_map, List.count_map_of_injective _ _ injective]

/-! ### The sum of the counts -/

/-- The counts of all keys together. -/
def total (counts : Counts Key) : ℤ := (counts.keys.map fun key => (counts.lookup key).getD 0).sum

@[simp] theorem total_empty : total (∅ : Counts Key) = 0 := rfl

theorem total_insert (counts : Counts Key) (key : Key) (number : ℤ) :
    total (counts.insert key number) = number + (counts.total - (counts.lookup key).getD 0) := by
  have others : (counts.keys.erase key).map (fun other =>
      ((counts.insert key number).lookup other).getD 0) =
        (counts.keys.erase key).map fun other => (counts.lookup other).getD 0 := by
    refine List.map_congr_left fun other member => ?_
    have different : other ≠ key := ((counts.keys_nodup).mem_erase_iff.mp member).1
    rw [AList.lookup_insert_ne different]
  have split : counts.total = (counts.lookup key).getD 0 +
      ((counts.keys.erase key).map fun other => (counts.lookup other).getD 0).sum := by
    by_cases known : key ∈ counts
    · rw [total, ((List.perm_cons_erase (AList.mem_keys.mp known)).map _).sum_eq, List.map_cons,
        List.sum_cons]
    · rw [total, List.erase_of_not_mem (mt AList.mem_keys.mpr known),
        AList.lookup_eq_none.mpr known]
      simp
  rw [total, AList.keys_insert, List.map_cons, List.sum_cons, others, AList.lookup_insert,
    Option.getD_some]
  omega

/-- Counting one more occurrence adds one, whether the key is known or not. -/
@[simp] theorem total_bump (counts : Counts Key) (key : Key) :
    total (counts.bump key) = counts.total + 1 := by
  unfold bump
  cases found : counts.lookup key with
  | none =>
      show total (counts.insert key 1) = counts.total + 1
      rw [total_insert, found, Option.getD_none]
      omega
  | some number =>
      show total (counts.insert key (number + 1)) = counts.total + 1
      rw [total_insert, found, Option.getD_some]
      omega

theorem total_tally (counts : Counts Key) (items : List Key) :
    total (counts.tally items) = counts.total + items.length := by
  induction items generalizing counts with
  | nil => simp
  | cons item items inductionHypothesis =>
      rw [tally_cons, inductionHypothesis, total_bump, List.length_cons]
      omega

end Counts

end CSE550.Lib
