import Mathlib.Data.List.AList

/-!
Owns dictionaries with entries of any kind: the order in which a loop goes
through one, writing a list of entries into one, and merging one into another
entry by entry where a merge may fail. Two dictionaries may have their entries related.

Does not own counters, nor what the keys are.
-/

namespace CSE550.Lib

/-- A dictionary. -/
abbrev Table (Key Entry : Type) := AList (fun _ : Key => Entry)

namespace Table

variable {Key Entry Added : Type}

/-- The pairs of a dictionary. -/
def pairs (table : Table Key Entry) : List (Key × Entry) :=
  table.entries.map fun entry => (entry.1, entry.2)

theorem map_fst_pairs (table : Table Key Entry) : table.pairs.map Prod.fst = table.keys := by
  unfold pairs AList.keys List.keys
  rw [List.map_map]
  rfl

/-- The order in which a loop goes through a dictionary. -/
structure Iteration (Key : Type) where
  items : ∀ {Entry : Type}, Table Key Entry → List (Key × Entry)
  perm : ∀ {Entry : Type} (table : Table Key Entry), (items table).Perm table.pairs

/-- The order in which the entries are kept. -/
def Iteration.inOrder : Iteration Key where
  items := pairs
  perm := fun table => .refl table.pairs

theorem Iteration.distinct (iteration : Iteration Key) (table : Table Key Entry) :
    ((iteration.items table).map Prod.fst).Nodup := by
  rw [((iteration.perm table).map Prod.fst).nodup_iff, map_fst_pairs]
  exact table.keys_nodup

theorem Iteration.mem_keys {iteration : Iteration Key} {table : Table Key Entry} {key : Key} :
    key ∈ (iteration.items table).map Prod.fst ↔ key ∈ table := by
  rw [((iteration.perm table).map Prod.fst).mem_iff, map_fst_pairs, AList.mem_keys]

variable [DecidableEq Key]

theorem mem_iff_lookup {table : Table Key Entry} {key : Key} :
    key ∈ table ↔ ∃ entry, table.lookup key = some entry := by
  rw [← AList.lookup_isSome, Option.isSome_iff_exists]

theorem mem_of_lookup {table : Table Key Entry} {key : Key} {entry : Entry}
    (found : table.lookup key = some entry) : key ∈ table :=
  mem_iff_lookup.mpr ⟨entry, found⟩

theorem mem_pairs {table : Table Key Entry} {key : Key} {entry : Entry} :
    (key, entry) ∈ table.pairs ↔ table.lookup key = some entry := by
  rw [← Option.mem_def, AList.mem_lookup_iff, pairs, List.mem_map]
  constructor
  · rintro ⟨⟨known, found⟩, member, same⟩
    cases same
    exact member
  · intro member
    exact ⟨⟨key, entry⟩, member, rfl⟩

theorem Iteration.mem_items {iteration : Iteration Key} {table : Table Key Entry} {key : Key}
    {entry : Entry} : (key, entry) ∈ iteration.items table ↔ table.lookup key = some entry :=
  (iteration.perm table).mem_iff.trans mem_pairs

/-- The entries a loop meets are those of any list of the keys. -/
theorem Iteration.perm_entries (iteration : Iteration Key) {table : Table Key Entry}
    {keys : List Key} (distinct : keys.Nodup) (same : ∀ key, key ∈ keys ↔ key ∈ table)
    (default : Entry) :
    ((iteration.items table).map Prod.snd).Perm
      (keys.map fun key => (table.lookup key).getD default) := by
  have met : (iteration.items table).map Prod.snd =
      ((iteration.items table).map Prod.fst).map fun key => (table.lookup key).getD default := by
    rw [List.map_map]
    refine List.map_congr_left fun row member => ?_
    have found := Iteration.mem_items.mp member
    rw [Function.comp_apply, found, Option.getD_some]
  have keysMet : ((iteration.items table).map Prod.fst).Perm keys := by
    rw [List.perm_ext_iff_of_nodup (iteration.distinct table) distinct]
    intro key
    rw [Iteration.mem_keys, same]
  rw [met]
  exact keysMet.map _

/-! ### Writing entries -/

/-- `table[key] = entry` for each pair, in order. -/
def insertAll (table : Table Key Entry) (rows : List (Key × Entry)) : Table Key Entry :=
  rows.foldl (fun table row => table.insert row.1 row.2) table

@[simp] theorem insertAll_nil (table : Table Key Entry) : table.insertAll [] = table := rfl

@[simp] theorem insertAll_cons (table : Table Key Entry) (row : Key × Entry)
    (rows : List (Key × Entry)) :
    table.insertAll (row :: rows) = insertAll (table.insert row.1 row.2) rows := rfl

theorem insertAll_append (table : Table Key Entry) (first second : List (Key × Entry)) :
    table.insertAll (first ++ second) = (table.insertAll first).insertAll second :=
  List.foldl_append

theorem lookup_insertAll_of_not_mem {table : Table Key Entry} {rows : List (Key × Entry)}
    {key : Key} (absent : key ∉ rows.map Prod.fst) :
    (table.insertAll rows).lookup key = table.lookup key := by
  induction rows generalizing table with
  | nil => rfl
  | cons row rows inductionHypothesis =>
      rw [List.map_cons, List.mem_cons, not_or] at absent
      rw [insertAll_cons, inductionHypothesis absent.2, AList.lookup_insert_ne absent.1]

/-- A key that was written has one of the entries written for it. -/
theorem lookup_insertAll_of_mem {table : Table Key Entry} {rows : List (Key × Entry)} {key : Key}
    (member : key ∈ rows.map Prod.fst) :
    ∃ entry, (key, entry) ∈ rows ∧ (table.insertAll rows).lookup key = some entry := by
  induction rows generalizing table with
  | nil => cases member
  | cons row rows inductionHypothesis =>
      by_cases again : key ∈ rows.map Prod.fst
      · rcases @inductionHypothesis (table.insert row.1 row.2) again with ⟨entry, inside, found⟩
        exact ⟨entry, List.mem_cons_of_mem _ inside, found⟩
      · have same : key = row.1 := (List.mem_cons.mp member).resolve_right again
        subst same
        refine ⟨row.2, List.mem_cons_self, ?_⟩
        rw [insertAll_cons, lookup_insertAll_of_not_mem again, AList.lookup_insert]

theorem mem_of_lookup_insertAll {rows : List (Key × Entry)} {key : Key} {entry : Entry}
    (found : (insertAll ∅ rows).lookup key = some entry) : (key, entry) ∈ rows := by
  by_cases written : key ∈ rows.map Prod.fst
  · rcases @lookup_insertAll_of_mem _ _ _ ∅ rows key written with ⟨other, member, lookup⟩
    rw [lookup, Option.some_inj] at found
    rwa [← found]
  · rw [lookup_insertAll_of_not_mem written, AList.lookup_empty] at found
    cases found

/-- With distinct keys, what was written is what is found. -/
theorem lookup_insertAll_eq {table : Table Key Entry} {rows : List (Key × Entry)} {key : Key}
    {entry : Entry} (distinct : (rows.map Prod.fst).Nodup) (member : (key, entry) ∈ rows) :
    (table.insertAll rows).lookup key = some entry := by
  have written : key ∈ rows.map Prod.fst := List.mem_map_of_mem member
  rcases @lookup_insertAll_of_mem _ _ _ table rows key written with ⟨other, inside, found⟩
  rw [found, (Prod.mk.inj (List.inj_on_of_nodup_map distinct inside member rfl)).2]

/-! ### Merging -/

/-- The entries of `rows` combined with those of the dictionary, in order;
`none` when a combination fails. -/
def updateAll (combine : Key → Option Entry → Added → Option Entry) (table : Table Key Entry) :
    List (Key × Added) → Option (Table Key Entry)
  | [] => some table
  | (key, added) :: rows =>
      match combine key (table.lookup key) added with
      | none => none
      | some entry => updateAll combine (table.insert key entry) rows

variable {combine : Key → Option Entry → Added → Option Entry} {table result : Table Key Entry}
  {rows : List (Key × Added)} {key : Key} {added : Added}

theorem updateAll_cons {entry : Entry}
    (combined : combine key (table.lookup key) added = some entry) :
    updateAll combine table ((key, added) :: rows) =
      updateAll combine (table.insert key entry) rows := by
  rw [updateAll, combined]

theorem lookup_updateAll_of_not_mem (done : updateAll combine table rows = some result)
    (absent : key ∉ rows.map Prod.fst) : result.lookup key = table.lookup key := by
  induction rows generalizing table with
  | nil =>
      cases done
      rfl
  | cons row rows inductionHypothesis =>
      rw [List.map_cons, List.mem_cons, not_or] at absent
      cases combined : combine row.1 (table.lookup row.1) row.2 with
      | none => simp [updateAll, combined] at done
      | some entry =>
          rw [updateAll_cons combined] at done
          rw [inductionHypothesis done absent.2, AList.lookup_insert_ne absent.1]

/-- Each key is combined once, with the entry it had before. -/
theorem lookup_updateAll_of_mem (distinct : (rows.map Prod.fst).Nodup)
    (done : updateAll combine table rows = some result) (member : (key, added) ∈ rows) :
    ∃ entry, combine key (table.lookup key) added = some entry ∧
      result.lookup key = some entry := by
  induction rows generalizing table with
  | nil => cases member
  | cons row rows inductionHypothesis =>
      rw [List.map_cons, List.nodup_cons] at distinct
      cases combined : combine row.1 (table.lookup row.1) row.2 with
      | none => simp [updateAll, combined] at done
      | some entry =>
          rw [updateAll_cons combined] at done
          rcases List.mem_cons.mp member with rfl | later
          · refine ⟨entry, combined, ?_⟩
            rw [lookup_updateAll_of_not_mem done distinct.1, AList.lookup_insert]
          · have different : key ≠ row.1 := by
              intro same
              apply distinct.1
              exact List.mem_map.mpr ⟨(key, added), later, same⟩
            have combinedLater := inductionHypothesis distinct.2 done later
            rwa [AList.lookup_insert_ne different] at combinedLater

/-- The merge goes through when every single combination does. -/
theorem exists_updateAll (distinct : (rows.map Prod.fst).Nodup)
    (fits : ∀ row ∈ rows, ∃ entry, combine row.1 (table.lookup row.1) row.2 = some entry) :
    ∃ result, updateAll combine table rows = some result := by
  induction rows generalizing table with
  | nil => exact ⟨table, rfl⟩
  | cons row rows inductionHypothesis =>
      rw [List.map_cons, List.nodup_cons] at distinct
      rw [List.forall_mem_cons] at fits
      rcases fits.1 with ⟨entry, combined⟩
      rw [updateAll_cons combined]
      refine inductionHypothesis distinct.2 fun later member => ?_
      have different : later.1 ≠ row.1 := by
        intro same
        apply distinct.1
        exact List.mem_map.mpr ⟨later, member, same⟩
      rw [AList.lookup_insert_ne different]
      exact fits.2 later member

/-- A whole dictionary merged into another. -/
def merge (iteration : Iteration Key) (combine : Key → Option Entry → Added → Option Entry)
    (table : Table Key Entry) (other : Table Key Added) : Option (Table Key Entry) :=
  updateAll combine table (iteration.items other)

variable {iteration : Iteration Key} {other : Table Key Added}

theorem lookup_merge_of_some (done : merge iteration combine table other = some result)
    (found : other.lookup key = some added) :
    ∃ entry, combine key (table.lookup key) added = some entry ∧
      result.lookup key = some entry :=
  lookup_updateAll_of_mem (iteration.distinct other) done (Iteration.mem_items.mpr found)

theorem lookup_merge_of_none (done : merge iteration combine table other = some result)
    (absent : other.lookup key = none) : result.lookup key = table.lookup key := by
  refine lookup_updateAll_of_not_mem done fun member => ?_
  rcases List.mem_map.mp member with ⟨row, inside, rfl⟩
  rw [Iteration.mem_items.mp inside] at absent
  cases absent

theorem exists_merge
    (fits : ∀ key added, other.lookup key = some added →
      ∃ entry, combine key (table.lookup key) added = some entry) :
    ∃ result, merge iteration combine table other = some result :=
  exists_updateAll (iteration.distinct other) fun row member =>
    fits row.1 row.2 (Iteration.mem_items.mp member)

/-! ### Entries related one by one -/

/-- What is found is related in another way. -/
theorem rel_mono {Left Right : Type} {before after : Left → Right → Prop} {left : Option Left}
    {right : Option Right} (related : Option.Rel before left right)
    (implies : ∀ entry, left = some entry → ∀ other, before entry other → after entry other) :
    Option.Rel after left right := by
  cases related with
  | none => exact .none
  | some holds => exact .some (implies _ rfl _ holds)

/-- What is found in one dictionary is found in the other, when their entries are related. -/
theorem exists_of_rel {Left Right : Type} {relation : Left → Right → Prop} {left : Option Left}
    {right : Option Right} (related : Option.Rel relation left right) {entry : Left}
    (found : left = some entry) : ∃ other, right = some other ∧ relation entry other := by
  subst found
  cases related with
  | some holds => exact ⟨_, rfl, holds⟩

theorem eq_of_rel {left right : Option Entry}
    (related : Option.Rel (fun entry other => entry = other) left right) : left = right := by
  cases related with
  | none => rfl
  | some same => rw [same]

end Table

end CSE550.Lib
