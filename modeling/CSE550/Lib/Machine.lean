import Mathlib.Data.List.Induction

/-!
Owns labelled machines with a partial deterministic step: their runs, the
states they reach, and the rules used to reason about a whole run (invariants,
invariants of the runs whose steps all meet a condition, properties of every state of
a run, occurrence of an event at some step, continuations, what is seen of a run, and
forward simulation).

Nothing here names a program; every rule is stated for arbitrary types of
states and labels.
-/

namespace CSE550.Lib

/-- A machine: an initial state and a partial step for each label. -/
structure Machine (State Label : Type) where
  init : State
  step : State → Label → Option State

namespace Machine

variable {State Label : Type} (machine : Machine State Label)

/-- Execute a list of labels from a state; undefined where a step is not enabled. -/
def runFrom : State → List Label → Option State
  | state, [] => some state
  | state, label :: rest => (machine.step state label).bind (fun next => runFrom next rest)

/-- `labels` is a run of the machine that ends in `state`. -/
def Run (labels : List Label) (state : State) : Prop :=
  machine.runFrom machine.init labels = some state

/-- A state some run ends in. -/
def Reachable (state : State) : Prop := ∃ labels, machine.Run labels state

variable {machine}

@[simp] theorem runFrom_nil (state : State) : machine.runFrom state [] = some state := rfl

theorem runFrom_cons {state next final : State} {label : Label} {rest : List Label}
    (first : machine.step state label = some next)
    (later : machine.runFrom next rest = some final) :
    machine.runFrom state (label :: rest) = some final := by
  simp [runFrom, first, later]

theorem runFrom_cons_iff {state final : State} {label : Label} {rest : List Label} :
    machine.runFrom state (label :: rest) = some final ↔
      ∃ next, machine.step state label = some next ∧ machine.runFrom next rest = some final := by
  simp [runFrom, Option.bind_eq_some_iff]

theorem runFrom_append {state final : State} {left right : List Label} :
    machine.runFrom state (left ++ right) = some final ↔
      ∃ middle, machine.runFrom state left = some middle ∧
        machine.runFrom middle right = some final := by
  induction left generalizing state with
  | nil => simp
  | cons label rest inductionHypothesis =>
      simp only [List.cons_append, runFrom_cons_iff, inductionHypothesis]
      constructor
      · rintro ⟨next, first, middle, before, after⟩
        exact ⟨middle, ⟨next, first, before⟩, after⟩
      · rintro ⟨middle, ⟨next, first, before⟩, after⟩
        exact ⟨next, first, middle, before, after⟩

theorem runFrom_snoc {state middle final : State} {labels : List Label} {label : Label}
    (before : machine.runFrom state labels = some middle)
    (last : machine.step middle label = some final) :
    machine.runFrom state (labels ++ [label]) = some final :=
  runFrom_append.mpr ⟨middle, before, runFrom_cons last rfl⟩

theorem run_append {state final : State} {left right : List Label}
    (before : machine.Run left state) (after : machine.runFrom state right = some final) :
    machine.Run (left ++ right) final :=
  runFrom_append.mpr ⟨state, before, after⟩

theorem run_snoc_iff {labels : List Label} {label : Label} {final : State} :
    machine.Run (labels ++ [label]) final ↔
      ∃ state, machine.Run labels state ∧ machine.step state label = some final := by
  unfold Run
  rw [runFrom_append]
  simp [runFrom_cons_iff]

theorem reachable_init : machine.Reachable machine.init := ⟨[], rfl⟩

theorem Reachable.step {state next : State} (reached : machine.Reachable state) {label : Label}
    (taken : machine.step state label = some next) : machine.Reachable next := by
  obtain ⟨labels, run⟩ := reached
  exact ⟨labels ++ [label], runFrom_snoc run taken⟩

theorem Reachable.runFrom {state final : State} (reached : machine.Reachable state)
    {labels : List Label} (run : machine.runFrom state labels = some final) :
    machine.Reachable final := by
  obtain ⟨before, start⟩ := reached
  exact ⟨before ++ labels, run_append start run⟩

/-- Induction on the last step of a run. -/
theorem Run.induct {motive : List Label → State → Prop}
    (start : motive [] machine.init)
    (extend : ∀ labels state label next, machine.Run labels state → motive labels state →
      machine.step state label = some next → motive (labels ++ [label]) next)
    {labels : List Label} {state : State} (run : machine.Run labels state) :
    motive labels state := by
  induction labels using List.reverseRecOn generalizing state with
  | nil =>
      have same : machine.init = state := Option.some.inj run
      exact same ▸ start
  | append_singleton labels label inductionHypothesis =>
      obtain ⟨previous, before, taken⟩ := run_snoc_iff.mp run
      exact extend labels previous label state before (inductionHypothesis before) taken

/-- What holds at the start and is kept by every step from a reachable state
holds in every reachable state. -/
theorem Reachable.invariant {property : State → Prop}
    (start : property machine.init)
    (keep : ∀ state label next, machine.Reachable state → property state →
      machine.step state label = some next → property next)
    {state : State} (reached : machine.Reachable state) : property state := by
  obtain ⟨labels, run⟩ := reached
  refine Run.induct (motive := fun _ final => property final) start ?_ run
  intro before previous label next earlier holds taken
  exact keep previous label next ⟨before, earlier⟩ holds taken

/-! ### Runs whose steps all meet a condition -/

/-- Every step of the run from `state` meets `condition`. -/
def Meets (machine : Machine State Label) (condition : State → Label → Prop) :
    State → List Label → Prop
  | _, [] => True
  | state, label :: rest =>
      condition state label ∧
        ∀ next, machine.step state label = some next → machine.Meets condition next rest

theorem meets_append {condition : State → Label → Prop} {state middle : State}
    {left right : List Label} (before : machine.runFrom state left = some middle) :
    machine.Meets condition state (left ++ right) ↔
      machine.Meets condition state left ∧ machine.Meets condition middle right := by
  induction left generalizing state with
  | nil =>
      have same : state = middle := Option.some.inj before
      simp [Meets, same]
  | cons label rest inductionHypothesis =>
      obtain ⟨next, first, later⟩ := runFrom_cons_iff.mp before
      simp only [List.cons_append, Meets, first, Option.some.injEq, forall_eq',
        inductionHypothesis later, and_assoc]

/-- A run whose last step fails the condition does not meet it. -/
theorem not_meets_last {condition : State → Label → Prop} {labels : List Label} {label : Label}
    {state : State} (before : machine.Run labels state) (fails : ¬ condition state label) :
    ¬ machine.Meets condition machine.init (labels ++ [label]) :=
  fun meets => fails ((meets_append before).mp meets).2.1

/-- Conditions that agree in every reachable state are met by the same runs. -/
theorem meets_congr {left right : State → Label → Prop}
    (agree : ∀ state label next, machine.Reachable state → machine.step state label = some next →
      (left state label ↔ right state label))
    {labels : List Label} {state : State} (run : machine.Run labels state) :
    machine.Meets left machine.init labels ↔ machine.Meets right machine.init labels := by
  refine Run.induct (motive := fun labels _ =>
    machine.Meets left machine.init labels ↔ machine.Meets right machine.init labels)
    Iff.rfl ?_ run
  intro before previous label next earlier inductionHypothesis taken
  rw [meets_append earlier, meets_append earlier, inductionHypothesis]
  simp only [Meets, agree previous label next ⟨before, earlier⟩ taken]

instance decidableMeets (condition : State → Label → Prop)
    [∀ state label, Decidable (condition state label)] :
    ∀ state labels, Decidable (machine.Meets condition state labels)
  | _, [] => isTrue trivial
  | state, label :: rest =>
      have later : Decidable (∀ next, machine.step state label = some next →
          machine.Meets condition next rest) :=
        match found : machine.step state label with
        | none => isTrue (by simp)
        | some next =>
            have := decidableMeets condition next rest
            decidable_of_iff (machine.Meets condition next rest) (by simp)
      inferInstanceAs (Decidable (condition state label ∧ _))

/-- The invariant rule for the runs whose steps all meet a condition. -/
theorem Run.invariant_of_meets {condition : State → Label → Prop} {property : State → Prop}
    (start : property machine.init)
    (keep : ∀ state label next, machine.Reachable state → property state →
      condition state label → machine.step state label = some next → property next)
    {labels : List Label} {state : State} (run : machine.Run labels state)
    (meets : machine.Meets condition machine.init labels) : property state := by
  refine Run.induct
    (motive := fun labels final =>
      machine.Meets condition machine.init labels → property final)
    (fun _ => start) ?_ run meets
  intro before previous label next earlier holds taken steps
  obtain ⟨stepsBefore, last⟩ := (meets_append earlier).mp steps
  exact keep previous label next ⟨before, earlier⟩ (holds stepsBefore) last.1 taken

/-- The property holds in every state of the run, the first and the last included. -/
def Throughout (machine : Machine State Label) (property : State → Prop) (labels : List Label) :
    Prop :=
  ∀ before state, before <+: labels → machine.Run before state → property state

theorem throughout_nil {property : State → Prop} :
    machine.Throughout property [] ↔ property machine.init := by
  constructor
  · intro holds
    exact holds [] machine.init List.nil_prefix rfl
  · intro holds before state isPrefix run
    obtain rfl := List.prefix_nil.mp isPrefix
    have same : machine.init = state := Option.some.inj run
    exact same ▸ holds

theorem throughout_snoc {property : State → Prop} {labels : List Label} {label : Label}
    {state : State} (run : machine.Run (labels ++ [label]) state) :
    machine.Throughout property (labels ++ [label]) ↔
      machine.Throughout property labels ∧ property state := by
  constructor
  · intro holds
    refine ⟨fun before earlier isPrefix => ?_, holds _ state List.prefix_rfl run⟩
    exact holds before earlier (isPrefix.trans (List.prefix_append _ _))
  · rintro ⟨earlier, last⟩ before other isPrefix otherRun
    rcases List.prefix_concat_iff.mp isPrefix with rfl | isPrefix
    · have same : other = state := Option.some.inj (otherRun.symm.trans run)
      exact same ▸ last
    · exact earlier before other isPrefix otherRun

/-- A property of every state of a run is one of the states its steps start from, and
of the last one. -/
theorem Run.throughout_iff {property : State → Prop} {labels : List Label} {state : State}
    (run : machine.Run labels state) : machine.Throughout property labels ↔
      machine.Meets (fun before _ => property before) machine.init labels ∧ property state := by
  refine Run.induct (motive := fun labels state => machine.Throughout property labels ↔
    machine.Meets (fun before _ => property before) machine.init labels ∧ property state)
    (by simp [throughout_nil, Meets]) ?_ run
  intro before previous label next earlier inductionHypothesis taken
  rw [throughout_snoc (runFrom_snoc earlier taken), meets_append earlier, inductionHypothesis]
  simp only [Meets, taken, Option.some.injEq, implies_true, and_true]

/-- A property of the start that a step keeps exactly when it meets a condition holds
throughout exactly the runs whose steps all meet it. -/
theorem Run.throughout_iff_meets {property : State → Prop} {condition : State → Label → Prop}
    (start : property machine.init)
    (exact : ∀ state label next, machine.Reachable state → property state →
      machine.step state label = some next → (property next ↔ condition state label))
    {labels : List Label} {state : State} (run : machine.Run labels state) :
    machine.Throughout property labels ↔ machine.Meets condition machine.init labels := by
  refine Run.induct (motive := fun labels _ =>
    machine.Throughout property labels ↔ machine.Meets condition machine.init labels)
    (iff_of_true (throughout_nil.mpr start) trivial) ?_ run
  intro before previous label next earlier inductionHypothesis taken
  rw [throughout_snoc (runFrom_snoc earlier taken), meets_append earlier, ← inductionHypothesis]
  refine and_congr_right fun holds => ?_
  have step := exact previous label next ⟨before, earlier⟩
    (holds before previous List.prefix_rfl earlier) taken
  simp only [Meets, step, implies_true, and_true]

/-! ### Events of a run -/

/-- Some step of the run shows `event` of the state before, the label and the
state after. -/
def Occurs (machine : Machine State Label) (event : State → Label → State → Prop)
    (labels : List Label) : Prop :=
  ∃ before label after state next, labels = before ++ label :: after ∧
    machine.Run before state ∧ machine.step state label = some next ∧ event state label next

theorem Occurs.snoc {event : State → Label → State → Prop} {labels : List Label}
    (occurs : machine.Occurs event labels) (label : Label) :
    machine.Occurs event (labels ++ [label]) := by
  obtain ⟨before, middle, after, state, next, split, run, taken, shows⟩ := occurs
  exact ⟨before, middle, after ++ [label], state, next, by simp [split], run, taken, shows⟩

theorem occurs_last {event : State → Label → State → Prop} {labels : List Label} {label : Label}
    {state next : State} (run : machine.Run labels state)
    (taken : machine.step state label = some next) (shows : event state label next) :
    machine.Occurs event (labels ++ [label]) :=
  ⟨labels, label, [], state, next, rfl, run, taken, shows⟩

/-- An event that means another one at every reachable state. -/
theorem Occurs.mono {event other : State → Label → State → Prop} {labels : List Label}
    (occurs : machine.Occurs event labels)
    (means : ∀ state label next, machine.Reachable state → event state label next →
      other state label next) : machine.Occurs other labels := by
  obtain ⟨before, label, after, state, next, split, run, taken, shows⟩ := occurs
  exact ⟨before, label, after, state, next, split, run, taken,
    means state label next ⟨before, run⟩ shows⟩

/-- A property that is false at the start and appears only at steps showing
`event` has such a step in every run at whose end it holds. -/
theorem Run.occurs_of_appears {event : State → Label → State → Prop} {property : State → Prop}
    (absent : ¬ property machine.init)
    (appears : ∀ state label next, machine.Reachable state → machine.step state label = some next →
      property next → property state ∨ event state label next)
    {labels : List Label} {state : State} (run : machine.Run labels state)
    (holds : property state) : machine.Occurs event labels := by
  refine Run.induct
    (motive := fun labels final => property final → machine.Occurs event labels)
    (fun present => absurd present absent) ?_ run holds
  intro before previous label next earlier inductionHypothesis taken present
  rcases appears previous label next ⟨before, earlier⟩ taken present with old | shows
  · exact (inductionHypothesis old).snoc label
  · exact occurs_last earlier taken shows

/-! ### Continuations -/

/-- What every step keeps, and what every step's label then meets, along a
continuation. -/
theorem runFrom_keeps {property : State → Prop} {permitted : Label → Prop} {state final : State}
    {labels : List Label} (run : machine.runFrom state labels = some final)
    (keep : ∀ state label next, property state → machine.step state label = some next →
      property next ∧ permitted label) (start : property state) :
    property final ∧ ∀ used ∈ labels, permitted used := by
  induction labels generalizing state with
  | nil =>
      have same : state = final := Option.some.inj run
      exact ⟨same ▸ start, by simp⟩
  | cons label rest inductionHypothesis =>
      obtain ⟨next, first, later⟩ := runFrom_cons_iff.mp run
      have kept := keep state label next start first
      have others := inductionHypothesis later kept.1
      exact ⟨others.1, List.forall_mem_cons.mpr ⟨kept.2, others.2⟩⟩

/-- The invariant rule for the continuations whose steps all meet a condition. -/
theorem Meets.keeps {condition : State → Label → Prop} {property : State → Prop}
    {state final : State} {labels : List Label} (meets : machine.Meets condition state labels)
    (run : machine.runFrom state labels = some final)
    (keep : ∀ state label next, property state → condition state label →
      machine.step state label = some next → property next)
    (start : property state) : property final := by
  induction labels generalizing state with
  | nil =>
      have same : state = final := Option.some.inj run
      exact same ▸ start
  | cons label rest inductionHypothesis =>
      obtain ⟨next, first, later⟩ := runFrom_cons_iff.mp run
      exact inductionHypothesis (meets.2 next first) later (keep state label next start meets.1 first)

/-- A finite continuation with allowed labels only leads from the state to `final`. -/
def Leads (machine : Machine State Label) (allowed : Label → Prop) (state final : State) : Prop :=
  ∃ labels, machine.runFrom state labels = some final ∧ ∀ used ∈ labels, allowed used

section Leads

variable {allowed : Label → Prop} {state middle final : State}

theorem Leads.refl (state : State) : machine.Leads allowed state state := ⟨[], rfl, by simp⟩

theorem Leads.step {label : Label} (taken : machine.step state label = some final)
    (isAllowed : allowed label) : machine.Leads allowed state final :=
  ⟨[label], runFrom_cons taken rfl, by simpa using isAllowed⟩

theorem Leads.trans (before : machine.Leads allowed state middle)
    (after : machine.Leads allowed middle final) : machine.Leads allowed state final := by
  obtain ⟨labels, run, labelsAllowed⟩ := before
  obtain ⟨later, laterRun, laterAllowed⟩ := after
  refine ⟨labels ++ later, runFrom_append.mpr ⟨middle, run, laterRun⟩, ?_⟩
  intro used member
  rcases List.mem_append.mp member with old | new
  · exact labelsAllowed used old
  · exact laterAllowed used new

/-- What every step keeps is kept by a continuation. -/
theorem Leads.invariant {property : State → Prop} (leads : machine.Leads allowed state final)
    (reached : machine.Reachable state) (start : property state)
    (keep : ∀ state label next, machine.Reachable state → property state →
      machine.step state label = some next → property next) : property final := by
  obtain ⟨labels, run, -⟩ := leads
  induction labels generalizing state with
  | nil =>
      have same : state = final := Option.some.inj run
      exact same ▸ start
  | cons label rest inductionHypothesis =>
      obtain ⟨next, first, later⟩ := runFrom_cons_iff.mp run
      exact inductionHypothesis (reached.step first) (keep state label next reached start first)
        later

/-- What the allowed steps keep is kept by a continuation. -/
theorem Leads.keeps {property : State → Prop} (leads : machine.Leads allowed state final)
    (start : property state)
    (keep : ∀ state label next, allowed label → property state →
      machine.step state label = some next → property next) : property final := by
  obtain ⟨labels, run, labelsAllowed⟩ := leads
  induction labels generalizing state with
  | nil =>
      have same : state = final := Option.some.inj run
      exact same ▸ start
  | cons label rest inductionHypothesis =>
      obtain ⟨next, first, later⟩ := runFrom_cons_iff.mp run
      obtain ⟨labelAllowed, restAllowed⟩ := List.forall_mem_cons.mp labelsAllowed
      exact inductionHypothesis (keep state label next labelAllowed start first) later restAllowed

/-- Where an allowed step lowers the measure of every state short of the goal, some
continuation reaches the goal. -/
theorem exists_leads {goal : State → Prop} (measure : State → ℕ)
    (descends : ∀ state, ¬ goal state → ∃ label next, allowed label ∧
      machine.step state label = some next ∧ measure next < measure state) (state : State) :
    ∃ final, machine.Leads allowed state final ∧ goal final := by
  induction size : measure state using Nat.strongRecOn generalizing state with
  | _ bound inductionHypothesis =>
      by_cases done : goal state
      · exact ⟨state, .refl state, done⟩
      · obtain ⟨label, next, isAllowed, taken, less⟩ := descends state done
        obtain ⟨final, leads, there⟩ := inductionHypothesis _ (size ▸ less) next rfl
        exact ⟨final, (Leads.step taken isAllowed).trans leads, there⟩

theorem Leads.reachable (leads : machine.Leads allowed state final)
    (reached : machine.Reachable state) : machine.Reachable final := by
  obtain ⟨labels, run, _⟩ := leads
  exact reached.runFrom run

end Leads

/-! ### What is seen of a run -/

section Seen

variable {Observation : Type} (see : State → Label → List Observation)

/-- What is seen of the steps of a run from `state`. -/
def trace (machine : Machine State Label) : State → List Label → List Observation
  | _, [] => []
  | state, label :: rest =>
      see state label ++ (machine.step state label).elim [] fun next => trace machine next rest

variable {see}

theorem trace_snoc {state final : State} {labels : List Label} {label : Label}
    (before : machine.runFrom state labels = some final) :
    machine.trace see state (labels ++ [label]) =
      machine.trace see state labels ++ see final label := by
  induction labels generalizing state with
  | nil =>
      have same : state = final := Option.some.inj before
      subst same
      simp only [List.nil_append, trace]
      cases machine.step state label with
      | none => simp
      | some next => simp
  | cons first rest inductionHypothesis =>
      obtain ⟨next, taken, later⟩ := runFrom_cons_iff.mp before
      simp only [List.cons_append, trace, taken, Option.elim_some, inductionHypothesis later,
        List.append_assoc]

/-- If what is seen of each step is a continuation of the other machine that restores
the relation, what is seen of a run is a run of the other machine. -/
theorem Run.trace_run {Other : Type} {other : Machine Other Observation}
    {condition : State → Label → Prop} {relation : State → Other → Prop}
    (start : relation machine.init other.init)
    (matched : ∀ state image label next, machine.Reachable state → relation state image →
      condition state label → machine.step state label = some next →
      ∃ final, other.runFrom image (see state label) = some final ∧ relation next final)
    {labels : List Label} {state : State} (run : machine.Run labels state)
    (meets : machine.Meets condition machine.init labels) :
    ∃ final, other.Run (machine.trace see machine.init labels) final ∧ relation state final := by
  refine Run.induct (motive := fun labels state => machine.Meets condition machine.init labels →
    ∃ final, other.Run (machine.trace see machine.init labels) final ∧ relation state final)
    (fun _ => ⟨other.init, rfl, start⟩) ?_ run meets
  intro before previous label next earlier inductionHypothesis taken steps
  obtain ⟨stepsBefore, last⟩ := (meets_append earlier).mp steps
  obtain ⟨image, imageRun, related⟩ := inductionHypothesis stepsBefore
  obtain ⟨final, continued, restored⟩ :=
    matched previous image label next ⟨before, earlier⟩ related last.1 taken
  refine ⟨final, ?_, restored⟩
  rw [trace_snoc earlier]
  exact run_append imageRun continued

end Seen

/-! ### Forward simulation -/

section Simulation

variable {Other OtherLabel : Type} {other : Machine Other OtherLabel}
  {allowed : OtherLabel → Prop} {labels : List Label} {state : State}

/-- If each step on the left is matched by a continuation with allowed labels on
the right that restores the relation, so is each run. The relation may look at the
run on the left. -/
theorem Run.simulate_along {relation : List Label → State → Other → Prop}
    (start : relation [] machine.init other.init)
    (matched : ∀ labels state image label next, machine.Run labels state →
      other.Reachable image → relation labels state image →
      machine.step state label = some next →
      ∃ final, other.Leads allowed image final ∧ relation (labels ++ [label]) next final)
    (run : machine.Run labels state) :
    ∃ images final, other.Run images final ∧ (∀ used ∈ images, allowed used) ∧
      relation labels state final := by
  have simulated : ∃ final, other.Leads allowed other.init final ∧
      relation labels state final := by
    refine Run.induct (motive := fun labels state =>
      ∃ final, other.Leads allowed other.init final ∧ relation labels state final)
      ⟨other.init, .refl _, start⟩ ?_ run
    intro before previous label next earlier inductionHypothesis taken
    obtain ⟨image, leads, related⟩ := inductionHypothesis
    obtain ⟨final, more, relatedNext⟩ := matched before previous image label next earlier
      (leads.reachable reachable_init) related taken
    exact ⟨final, leads.trans more, relatedNext⟩
  obtain ⟨final, ⟨images, imageRun, imagesAllowed⟩, related⟩ := simulated
  exact ⟨images, final, imageRun, imagesAllowed, related⟩

/-- The same for a relation between states. -/
theorem Run.simulate {relation : State → Other → Prop}
    (start : relation machine.init other.init)
    (matched : ∀ state image label next, machine.Reachable state → other.Reachable image →
      relation state image → machine.step state label = some next →
      ∃ final, other.Leads allowed image final ∧ relation next final)
    (run : machine.Run labels state) :
    ∃ images final, other.Run images final ∧ (∀ used ∈ images, allowed used) ∧
      relation state final := by
  refine @Run.simulate_along _ _ _ _ _ other allowed labels state (fun _ => relation) start ?_ run
  intro labels state image label next earlier reached related taken
  exact matched state image label next ⟨labels, earlier⟩ reached related taken

end Simulation

end Machine

end CSE550.Lib
