import Mathlib.Data.List.Dedup
import Mathlib.Order.Lattice

/-!
Owns the operations on distributed collections of pairs that the jobs use: the
join on equal keys, the reduction by key in any order and grouping, and maps whose
function may raise.

A list stands for the collection; nothing here depends on its order but the
order of the result. `map`, `filter`, `union` and `count` are those of lists.
-/

namespace CSE550.Lib.Rdd

variable {Key Left Right Entry : Type} [DecidableEq Key]

/-! ### Join -/

/-- `left.join(right)`. -/
def join (left : List (Key × Left)) (right : List (Key × Right)) : List (Key × (Left × Right)) :=
  left.flatMap fun (key, first) =>
    (right.filter fun row => row.1 = key).map fun (_, second) => (key, (first, second))

@[simp] theorem mem_join {left : List (Key × Left)} {right : List (Key × Right)} {key : Key}
    {first : Left} {second : Right} :
    (key, (first, second)) ∈ join left right ↔ (key, first) ∈ left ∧ (key, second) ∈ right := by
  simp only [join, List.mem_flatMap, List.mem_map, List.mem_filter, decide_eq_true_eq, Prod.exists,
    Prod.mk.injEq]
  constructor
  · rintro ⟨leftKey, leftEntry, inLeft, rightKey, rightEntry, ⟨inRight, rfl⟩, rfl, rfl, rfl⟩
    exact ⟨inLeft, inRight⟩
  · rintro ⟨inLeft, inRight⟩
    exact ⟨key, first, inLeft, key, second, ⟨inRight, rfl⟩, rfl, rfl, rfl⟩

/-! ### Reduction -/

/-- A way to combine values two by two. -/
inductive Grouping (Entry : Type) where
  | single (entry : Entry)
  | combine (left right : Grouping Entry)

namespace Grouping

/-- The values it combines, from left to right. -/
def entries : Grouping Entry → List Entry
  | .single entry => [entry]
  | .combine left right => left.entries ++ right.entries

/-- The result of combining them. -/
def eval (combiner : Entry → Entry → Entry) : Grouping Entry → Entry
  | .single entry => entry
  | .combine left right => combiner (left.eval combiner) (right.eval combiner)

/-- One value after the other. -/
def chain (first : Entry) : List Entry → Grouping Entry
  | [] => .single first
  | next :: rest => .combine (.single first) (chain next rest)

theorem entries_chain (first : Entry) (rest : List Entry) :
    (chain first rest).entries = first :: rest := by
  induction rest generalizing first with
  | nil => rfl
  | cons next rest inductionHypothesis => rw [chain, entries, inductionHypothesis]; rfl

end Grouping

/-- The order and grouping in which the values of each key are combined. -/
structure Schedule (Key Entry : Type) where
  grouping : Key → Entry → List Entry → Grouping Entry
  entries : ∀ key first rest, (grouping key first rest).entries.Perm (first :: rest)

/-- The schedule that combines the values in the order of the list. -/
def Schedule.inOrder : Schedule Key Entry where
  grouping := fun _ => Grouping.chain
  entries := fun _ first rest => .of_eq (Grouping.entries_chain first rest)

/-- The values of a key. -/
def valuesOf (key : Key) (rows : List (Key × Entry)) : List Entry :=
  (rows.filter fun row => row.1 = key).map Prod.snd

/-- Among rows with distinct keys, one row has the key of a row. -/
theorem filter_key_of_nodup {rows : List (Key × Entry)} {key : Key} {entry : Entry}
    (once : (rows.map Prod.fst).Nodup) (member : (key, entry) ∈ rows) :
    (rows.filter fun row => row.1 = key) = [(key, entry)] := by
  induction rows with
  | nil => cases member
  | cons row rows inductionHypothesis =>
      rw [List.map_cons, List.nodup_cons] at once
      rcases List.mem_cons.mp member with rfl | behind
      · have none : (rows.filter fun row => row.1 = key) = [] := by
          apply List.filter_eq_nil_iff.mpr
          intro other inRows same
          exact once.1 (List.mem_map.mpr ⟨other, inRows, of_decide_eq_true same⟩)
        rw [List.filter_cons_of_pos (by simp), none]
      · have different : row.1 ≠ key := by
          rintro rfl
          exact once.1 (List.mem_map.mpr ⟨(row.1, entry), behind, rfl⟩)
        rw [List.filter_cons_of_neg (by simpa using different)]
        exact inductionHypothesis once.2 behind

/-- The row of a key; none when no row has it. -/
def combined (combiner : Entry → Entry → Entry) (schedule : Schedule Key Entry)
    (rows : List (Key × Entry)) (key : Key) : Option (Key × Entry) :=
  match valuesOf key rows with
  | [] => none
  | first :: rest => some (key, (schedule.grouping key first rest).eval combiner)

/-- `rows.reduceByKey(combiner)`. -/
def reduceByKey (combiner : Entry → Entry → Entry) (schedule : Schedule Key Entry)
    (rows : List (Key × Entry)) : List (Key × Entry) :=
  (rows.map Prod.fst).dedup.filterMap (combined combiner schedule rows)

@[simp] theorem mem_valuesOf {key : Key} {rows : List (Key × Entry)} {entry : Entry} :
    entry ∈ valuesOf key rows ↔ (key, entry) ∈ rows := by
  simp [valuesOf]

/-- The combiner returns one of its arguments, and one that is least by a measure. -/
structure Selects {Measure : Type} [Preorder Measure] (measure : Entry → Measure)
    (combiner : Entry → Entry → Entry) : Prop where
  one : ∀ left right, combiner left right = left ∨ combiner left right = right
  le_left : ∀ left right, measure (combiner left right) ≤ measure left
  le_right : ∀ left right, measure (combiner left right) ≤ measure right

variable {Measure : Type} [Preorder Measure] {measure : Entry → Measure}
  {combiner : Entry → Entry → Entry}

/-- Whatever the grouping, a selecting combiner ends with one of the values. -/
theorem Selects.eval_mem (selects : Selects measure combiner) (grouping : Grouping Entry) :
    grouping.eval combiner ∈ grouping.entries := by
  induction grouping with
  | single entry => exact List.mem_singleton_self entry
  | combine left right leftMem rightMem =>
      rcases selects.one (left.eval combiner) (right.eval combiner) with same | same
      · exact List.mem_append_left _ (by rw [Grouping.eval, same]; exact leftMem)
      · exact List.mem_append_right _ (by rw [Grouping.eval, same]; exact rightMem)

/-- Whatever the grouping, it ends with a least one. -/
theorem Selects.eval_le (selects : Selects measure combiner) (grouping : Grouping Entry) :
    ∀ entry ∈ grouping.entries, measure (grouping.eval combiner) ≤ measure entry := by
  induction grouping with
  | single entry =>
      intro other member
      rw [List.mem_singleton.mp member]
      exact le_refl _
  | combine left right leftLe rightLe =>
      intro entry member
      rcases List.mem_append.mp member with inLeft | inRight
      · exact (selects.le_left _ _).trans (leftLe entry inLeft)
      · exact (selects.le_right _ _).trans (rightLe entry inRight)

/-- What a key is reduced to. -/
theorem combined_eq_some {schedule : Schedule Key Entry} {rows : List (Key × Entry)}
    {key other : Key} {entry : Entry}
    (found : combined combiner schedule rows key = some (other, entry)) :
    other = key ∧ ∃ grouping : Grouping Entry,
      entry = grouping.eval combiner ∧ grouping.entries.Perm (valuesOf key rows) := by
  unfold combined at found
  cases values : valuesOf key rows with
  | nil =>
      rw [values] at found
      cases found
  | cons first rest =>
      rw [values] at found
      cases found
      exact ⟨rfl, _, rfl, schedule.entries key first rest⟩

theorem combined_isSome {schedule : Schedule Key Entry} {rows : List (Key × Entry)} {key : Key}
    {entry : Entry} (member : (key, entry) ∈ rows) :
    ∃ least, combined combiner schedule rows key = some (key, least) := by
  have nonempty := mem_valuesOf.mpr member
  unfold combined
  cases values : valuesOf key rows with
  | nil =>
      rw [values] at nonempty
      cases nonempty
  | cons first rest => exact ⟨_, rfl⟩

/-- The keys of a reduction are distinct. -/
theorem nodup_reduceByKey (schedule : Schedule Key Entry) (rows : List (Key × Entry)) :
    ((reduceByKey combiner schedule rows).map Prod.fst).Nodup := by
  have kept (keys : List Key) :
      ((keys.filterMap (combined combiner schedule rows)).map Prod.fst).Sublist keys := by
    induction keys with
    | nil => exact .slnil
    | cons key keys inductionHypothesis =>
        rw [List.filterMap_cons]
        cases found : combined combiner schedule rows key with
        | none => exact inductionHypothesis.cons key
        | some row =>
            rw [List.map_cons, (combined_eq_some found).1]
            exact inductionHypothesis.cons_cons key
  exact (kept _).nodup (List.nodup_dedup _)

/-- Every key of the rows is reduced to some value. -/
theorem exists_mem_reduceByKey {schedule : Schedule Key Entry} {rows : List (Key × Entry)}
    {key : Key} {entry : Entry} (member : (key, entry) ∈ rows) :
    ∃ least, (key, least) ∈ reduceByKey combiner schedule rows := by
  rcases @combined_isSome _ _ _ combiner schedule _ _ _ member with ⟨least, found⟩
  have inKeys : key ∈ (rows.map Prod.fst).dedup :=
    List.mem_dedup.mpr (List.mem_map.mpr ⟨_, member, rfl⟩)
  exact ⟨least, List.mem_filterMap.mpr ⟨key, inKeys, found⟩⟩

/-- A selecting reduction keeps one least value of each key. -/
theorem Selects.mem_reduceByKey (selects : Selects measure combiner)
    {schedule : Schedule Key Entry} {rows : List (Key × Entry)} {key : Key} {entry : Entry}
    (member : (key, entry) ∈ reduceByKey combiner schedule rows) :
    (key, entry) ∈ rows ∧ ∀ other, (key, other) ∈ rows → measure entry ≤ measure other := by
  rcases List.mem_filterMap.mp member with ⟨_, _, found⟩
  rcases combined_eq_some found with ⟨rfl, grouping, rfl, perm⟩
  constructor
  · exact mem_valuesOf.mp (perm.mem_iff.mp (selects.eval_mem grouping))
  · intro other inRows
    exact selects.eval_le grouping other (perm.mem_iff.mpr (mem_valuesOf.mpr inRows))

/-! ### Maps that may raise -/

/-- `rows.map(f)` with a function that may raise; one exception fails the job. -/
def tryMap {Row Result : Type} (f : Row → Option Result) : List Row → Option (List Result)
  | [] => some []
  | row :: rows => (f row).bind fun result => (tryMap f rows).map (result :: ·)

/-- A map that raises on no row has the results of its rows. -/
theorem tryMap_eq_some {Row Result : Type} {f : Row → Option Result} {rows : List Row}
    (total : ∀ row ∈ rows, ∃ result, f row = some result) :
    ∃ results, tryMap f rows = some results ∧
      ∀ result, result ∈ results ↔ ∃ row ∈ rows, f row = some result := by
  induction rows with
  | nil => exact ⟨[], rfl, by simp⟩
  | cons row rows inductionHypothesis =>
      rw [List.forall_mem_cons] at total
      rcases total.1 with ⟨first, found⟩
      rcases inductionHypothesis total.2 with ⟨results, mapped, members⟩
      refine ⟨first :: results, by rw [tryMap, found, mapped]; rfl, fun result => ?_⟩
      rw [List.mem_cons, members, List.exists_mem_cons_iff, found, Option.some_inj, eq_comm]

end CSE550.Lib.Rdd
