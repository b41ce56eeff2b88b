import CSE550.Lib.Lists

/-!
Owns logs of lock accesses: who holds a resource after a log, what an owner
holds by its own accesses alone, and when the two agree.

They agree when every access is courteous (an owner acquires what it does not
hold and releases what it holds, by its own accesses) and every acquisition is
of a free resource; then no two owners hold one resource. Owners and resources
are arbitrary.
-/

namespace CSE550.Lib

/-- An owner acquires or releases a resource. -/
structure Access (Owner Resource : Type) where
  owner : Owner
  resource : Resource
  acquires : Bool

namespace Access

variable {Owner Resource : Type}

section Definitions

variable [DecidableEq Owner] [DecidableEq Resource]

/-- The holder of the resource after an access, given the one before. -/
def update (resource : Resource) (current : Option Owner) (access : Access Owner Resource) :
    Option Owner :=
  if access.resource = resource then if access.acquires then some access.owner else none
  else current

/-- Whose acquisition of the resource is the last one not released since. -/
def holder (resource : Resource) (log : List (Access Owner Resource)) : Option Owner :=
  log.foldl (update resource) none

/-- The accesses of one owner. -/
def ofOwner (owner : Owner) (log : List (Access Owner Resource)) :
    List (Access Owner Resource) :=
  log.filter fun access => access.owner = owner

/-- The owner holds the resource by its own accesses. -/
def Holds (owner : Owner) (resource : Resource) (log : List (Access Owner Resource)) : Prop :=
  holder resource (ofOwner owner log) = some owner

/-- The owner acquires what it does not hold and releases what it holds. -/
def Courteous (log : List (Access Owner Resource)) (access : Access Owner Resource) : Prop :=
  access.acquires = true ↔ ¬ Holds access.owner access.resource log

/-- An acquired resource is free. -/
def Guarded (log : List (Access Owner Resource)) (access : Access Owner Resource) : Prop :=
  access.acquires = true → holder access.resource log = none

/-- Every access of the log has the property with respect to those before it. -/
def Throughout (property : List (Access Owner Resource) → Access Owner Resource → Prop)
    (log : List (Access Owner Resource)) : Prop :=
  ∀ (index : ℕ) access, log[index]? = some access → property (log.take index) access

end Definitions

@[simp] theorem holder_nil [DecidableEq Resource] (resource : Resource) :
    holder resource ([] : List (Access Owner Resource)) = none := rfl

@[simp] theorem holder_concat [DecidableEq Resource] (resource : Resource)
    (log : List (Access Owner Resource)) (access : Access Owner Resource) :
    holder resource (log ++ [access]) = update resource (holder resource log) access := by
  simp [holder]

@[simp] theorem ofOwner_concat [DecidableEq Owner] (owner : Owner)
    (log : List (Access Owner Resource)) (access : Access Owner Resource) :
    ofOwner owner (log ++ [access]) =
      ofOwner owner log ++ if access.owner = owner then [access] else [] := by
  by_cases own : access.owner = owner <;> simp [ofOwner, own]

theorem throughout_concat {property : List (Access Owner Resource) → Access Owner Resource → Prop}
    {log : List (Access Owner Resource)} {access : Access Owner Resource} :
    Throughout property (log ++ [access]) ↔ Throughout property log ∧ property log access := by
  constructor
  · intro all
    refine ⟨fun index other found => ?_, by simpa using all log.length access (by simp)⟩
    have kept := all index other (getElem?_concat found)
    obtain ⟨inside, _⟩ := List.getElem?_eq_some_iff.mp found
    rwa [List.take_append_of_le_length (Nat.le_of_lt inside)] at kept
  · rintro ⟨older, newest⟩ index other found
    rcases getElem?_concat_cases found with ⟨inside, old⟩ | ⟨rfl, rfl⟩
    · rw [List.take_append_of_le_length (Nat.le_of_lt inside)]
      exact older index other old
    · simpa using newest

theorem Throughout.take {property : List (Access Owner Resource) → Access Owner Resource → Prop}
    {log : List (Access Owner Resource)} (all : Throughout property log) (count : ℕ) :
    Throughout property (log.take count) := by
  intro index access found
  rw [List.getElem?_take] at found
  split at found
  · rename_i inside
    rw [List.take_take, Nat.min_eq_left (Nat.le_of_lt inside)]
    exact all index access found
  · cases found

variable [DecidableEq Owner] [DecidableEq Resource]

/-- An access moves what its owner holds of its resource, and nothing else. -/
theorem holds_concat (owner : Owner) (resource : Resource) (log : List (Access Owner Resource))
    (access : Access Owner Resource) :
    Holds owner resource (log ++ [access]) ↔
      if access.owner = owner ∧ access.resource = resource then access.acquires = true
      else Holds owner resource log := by
  unfold Holds
  rw [ofOwner_concat]
  by_cases own : access.owner = owner
  · rw [if_pos own, holder_concat, update]
    by_cases here : access.resource = resource
    · cases access.acquires <;> simp [own, here]
    · simp [own, here]
  · simp [own]

/-- A log is courteous when the accesses of each owner are. -/
theorem Throughout.of_owners {log : List (Access Owner Resource)}
    (each : ∀ owner, Throughout Courteous (ofOwner owner log)) : Throughout Courteous log := by
  induction log using List.reverseRecOn with
  | nil =>
      intro index access found
      simp at found
  | append_singleton log access inductionHypothesis =>
      have older (owner : Owner) : Throughout Courteous (ofOwner owner log) := by
        have longer := each owner
        rw [ofOwner_concat] at longer
        split at longer
        · exact (throughout_concat.mp longer).1
        · rwa [List.append_nil] at longer
      have newest := each access.owner
      rw [ofOwner_concat, if_pos rfl] at newest
      have polite := (throughout_concat.mp newest).2
      refine throughout_concat.mpr ⟨inductionHypothesis older, ?_⟩
      unfold Courteous Holds at polite ⊢
      rwa [show ofOwner access.owner (ofOwner access.owner log) = ofOwner access.owner log from
        by simp [ofOwner, List.filter_filter]] at polite

/-- On a courteous and guarded log, what an owner holds by its own accesses is
what it holds. -/
theorem holds_iff_holder {log : List (Access Owner Resource)} (courteous : Throughout Courteous log)
    (guarded : Throughout Guarded log) (owner : Owner) (resource : Resource) :
    Holds owner resource log ↔ holder resource log = some owner := by
  induction log using List.reverseRecOn generalizing owner resource with
  | nil => simp [Holds, ofOwner]
  | append_singleton log access inductionHypothesis =>
      obtain ⟨courteousLog, polite⟩ := throughout_concat.mp courteous
      obtain ⟨guardedLog, free⟩ := throughout_concat.mp guarded
      have before := inductionHypothesis courteousLog guardedLog
      rw [holds_concat, holder_concat, update]
      by_cases here : access.resource = resource
      · subst here
        by_cases own : access.owner = owner
        · cases kind : access.acquires <;> simp [own]
        · rw [if_neg (fun both => own both.1), if_pos rfl, before]
          cases kind : access.acquires with
          | true => simp [free kind, own]
          | false =>
              -- the releasing owner is the holder, so no other owner is
              have held : Holds access.owner access.resource log := by
                by_contra missing
                exact absurd (polite.mpr missing) (by simp [kind])
              rw [(before _ _).mp held]
              simp [own]
      · rw [if_neg (fun both => here both.2), if_neg here, before]

/-- No two owners hold one resource. -/
theorem holds_unique {log : List (Access Owner Resource)} (courteous : Throughout Courteous log)
    (guarded : Throughout Guarded log) {first second : Owner} {resource : Resource}
    (left : Holds first resource log) (right : Holds second resource log) : first = second :=
  Option.some.inj (((holds_iff_holder courteous guarded first resource).mp left).symm.trans
    ((holds_iff_holder courteous guarded second resource).mp right))

omit [DecidableEq Owner] in
/-- The resource is held exactly when some acquisition of it is not followed by
a release. -/
theorem holder_isSome_iff (resource : Resource) (log : List (Access Owner Resource)) :
    (holder resource log).isSome = true ↔ ∃ (index : ℕ) (access : Access Owner Resource),
      log[index]? = some access ∧ access.resource = resource ∧ access.acquires = true ∧
        ∀ (later : ℕ) (other : Access Owner Resource), index < later → log[later]? = some other →
          other.resource = resource → other.acquires = true := by
  induction log using List.reverseRecOn with
  | nil => simp
  | append_singleton log last inductionHypothesis =>
      rw [holder_concat, update]
      constructor
      · intro held
        by_cases here : last.resource = resource
        · have kind : last.acquires = true := by
            by_contra released
            simp [here, released] at held
          refine ⟨log.length, last, by simp, here, kind, fun later other beyond found => ?_⟩
          rcases getElem?_concat_cases found with ⟨inside, _⟩ | ⟨same, _⟩ <;> omega
        · rw [if_neg here] at held
          obtain ⟨index, access, found, same, kind, kept⟩ := inductionHypothesis.mp held
          refine ⟨index, access, getElem?_concat found, same, kind, ?_⟩
          intro later other beyond there sameResource
          rcases getElem?_concat_cases there with ⟨_, old⟩ | ⟨_, rfl⟩
          · exact kept later other beyond old sameResource
          · exact absurd sameResource here
      · rintro ⟨index, access, found, same, kind, kept⟩
        by_cases here : last.resource = resource
        · have lastKind : last.acquires = true := by
            rcases getElem?_concat_cases found with ⟨inside, _⟩ | ⟨_, rfl⟩
            · exact kept log.length last inside (by simp) here
            · exact kind
          simp [here, lastKind]
        · rw [if_neg here]
          rcases getElem?_concat_cases found with ⟨_, old⟩ | ⟨_, rfl⟩
          · exact inductionHypothesis.mpr ⟨index, access, old, same, kind,
              fun later other beyond there => kept later other beyond (getElem?_concat there)⟩
          · exact absurd same here

omit [DecidableEq Resource] in
theorem ofOwner_eq_self {owner : Owner} {log : List (Access Owner Resource)}
    (all : ∀ access ∈ log, access.owner = owner) : ofOwner owner log = log :=
  List.filter_eq_self.mpr fun access member => decide_eq_true (all access member)

/-- Among the accesses of one owner, a held resource is held by that owner. -/
theorem holder_ofOwner {owner : Owner} {resource : Resource}
    {log : List (Access Owner Resource)}
    (held : (holder resource (ofOwner owner log)).isSome = true) : Holds owner resource log := by
  induction log using List.reverseRecOn with
  | nil => simp [ofOwner] at held
  | append_singleton log access inductionHypothesis =>
      rw [holds_concat]
      rw [ofOwner_concat] at held
      by_cases own : access.owner = owner
      · rw [if_pos own, holder_concat, update] at held
        by_cases here : access.resource = resource
        · rw [if_pos ⟨own, here⟩]
          by_contra released
          simp [here, released] at held
        · rw [if_neg here] at held
          rw [if_neg (fun both => here both.2)]
          exact inductionHypothesis held
      · rw [if_neg own, List.append_nil] at held
        rw [if_neg (fun both => own both.1)]
        exact inductionHypothesis held

end Access

end CSE550.Lib
