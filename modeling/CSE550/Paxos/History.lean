import CSE550.Paxos.Clients

/-!
Owns what one run of the group keeps from each of its moments to the later
ones: the log that each moment refines is a beginning of every later one. On
this rest the order in which clients are served and the comparison of the logs
of different servers at different moments.

Does not own what the log of one moment looks like.
-/

namespace CSE550.Paxos

open CSE550.Lib

section Moments

variable {cfg : Config} {group : Group}

theorem Grown.initial {log longer : List Entry} (grown : Grown cfg group log longer) :
    log <+: longer := by
  cases grown with
  | same => exact List.prefix_rfl
  | decided => exact List.prefix_append _ _

/-- Each moment of the run refines a ledger whose log is a beginning of the given
one. -/
def Moments (cfg : Config) (property : Group → Ledger Entry → Prop) (labels : List Label)
    (log : List Entry) : Prop :=
  ∀ before middle, before <+: labels → cfg.machine.Run before middle →
    ∃ past : Ledger Entry, past.log <+: log ∧ Refines cfg middle past ∧ property middle past

theorem Moments.concat {property : Group → Ledger Entry → Prop} {labels : List Label}
    {label : Label} {log : List Entry} {next : Group} {final : Ledger Entry}
    (moments : Moments cfg property labels log) (grown : log <+: final.log)
    (run : cfg.machine.Run (labels ++ [label]) next) (refines : Refines cfg next final)
    (holds : property next final) : Moments cfg property (labels ++ [label]) final.log := by
  intro before middle isPrefix earlier
  rcases List.prefix_concat_iff.mp isPrefix with rfl | isPrefix
  · have same : middle = next := Option.some.inj (earlier.symm.trans run)
    exact ⟨final, List.prefix_rfl, same ▸ refines, same ▸ holds⟩
  · obtain ⟨past, isPast, refined, held⟩ := moments before middle isPrefix earlier
    exact ⟨past, isPast.trans grown, refined, held⟩

/-- A run with the ledgers of all its moments. -/
theorem moments_run {property : Group → Ledger Entry → Prop}
    (start : property cfg.initial (Ledger.machine lockService).init)
    (keep : ∀ group ledger label next final, cfg.Reachable group → Refines cfg group ledger →
      property group ledger → group.step cfg label = some next → Refines cfg next final →
      Grown cfg group ledger.log final.log → property next final)
    {labels : List Label} (run : cfg.machine.Run labels group) :
    ∃ ledger, Ledger.Sound lockService ledger ∧ Refines cfg group ledger ∧
      property group ledger ∧ Moments cfg property labels ledger.log := by
  have initially : Moments cfg property [] (Ledger.machine lockService).init.log := by
    intro before middle isPrefix earlier
    obtain rfl := List.prefix_nil.mp isPrefix
    have same : cfg.initial = middle := Option.some.inj earlier
    exact ⟨_, List.prefix_rfl, same ▸ Refines.initial cfg, same ▸ start⟩
  have matched : ∀ labels state image label next, cfg.machine.Run labels state →
      (Ledger.machine lockService).Reachable image →
      (Refines cfg state image ∧ property state image ∧ Moments cfg property labels image.log) →
      cfg.machine.step state label = some next → ∃ final,
        (Ledger.machine lockService).Leads (fun _ => True) image final ∧
          Refines cfg next final ∧ property next final ∧
          Moments cfg property (labels ++ [label]) final.log := by
    rintro labels state image label next earlier _ ⟨refines, holds, moments⟩ taken
    have reached : cfg.Reachable state := ⟨labels, earlier⟩
    obtain ⟨actions, final, actionsRun, refined, grown⟩ := refines.matched (wire_reachable reached)
      (replies_reachable reached) (tally_reachable reached) (transition_of_step taken)
    have held := keep state image label next final reached refines holds taken refined grown
    exact ⟨final, ⟨actions, actionsRun, fun _ _ => trivial⟩, refined, held,
      moments.concat grown.initial (Machine.runFrom_snoc earlier taken) refined held⟩
  have simulated : ∃ actions ledger, (Ledger.machine lockService).Run actions ledger ∧
      (∀ used ∈ actions, True) ∧ Refines cfg group ledger ∧ property group ledger ∧
      Moments cfg property labels ledger.log := by
    refine @Machine.Run.simulate_along _ _ _ _ _ _ (fun _ => True) _ _
      (fun labels state image => Refines cfg state image ∧ property state image ∧
        Moments cfg property labels image.log) ?_ matched run
    exact ⟨Refines.initial cfg, start, initially⟩
  obtain ⟨actions, ledger, ledgerRun, _, refines, holds, moments⟩ := simulated
  exact ⟨ledger, Ledger.sound_reachable ⟨actions, ledgerRun⟩, refines, holds, moments⟩

end Moments

/-! ### Logs of different servers at different moments -/

section Logs

variable {cfg : Config} {group : Group}

theorem Refines.log_prefix {ledger : Ledger Entry} (refines : Refines cfg group ledger)
    (server : ℕ) : (group.proposers server).log <+: ledger.log.map Entry.resolution := by
  rw [(refines.replicas server).log_eq, List.map_take]
  exact List.take_prefix _ _

/-- A step adds at most one entry at the end of a proposer's log. -/
theorem log_prefix_step {next : Group} {label : Label} (reached : cfg.Reachable group)
    (taken : group.step cfg label = some next) (server : ℕ) :
    (group.proposers server).log <+: (next.proposers server).log := by
  rcases step_records taken server with ⟨same, _⟩ | ⟨msg, _, runs, resolves⟩
  · unfold Proposer.log
    rw [same]
  obtain ⟨ledger, _, refines⟩ := refines_reachable reached
  obtain ⟨later, _, refined⟩ := refines_reachable (reached.step taken)
  have count := (refines.replicas server).count runs.2.2
  obtain ⟨state, _, after⟩ := resolves.after
  have resolutions : (next.proposers server).instanceResolutions =
      (group.proposers server).instanceResolutions.insert (group.proposers server).inst
        ((group.proposers server).learntCommand, msg.clientId) := by
    rw [after, resolve_instanceResolutions]
    rfl
  refine List.prefix_iff_getElem?.mpr fun index inside => ?_
  have older : index ≠ (group.proposers server).inst := by
    rw [(refines.replicas server).log_length] at inside
    omega
  have recorded := List.getElem?_eq_getElem inside
  rw [(refines.replicas server).log_getElem?] at recorded
  rw [(refined.replicas server).log_getElem?, resolutions, AList.lookup_insert_ne older]
  exact recorded

/-- A proposer's log only grows. -/
theorem log_prefix_run {before after : List Label} {middle : Group}
    (earlier : cfg.machine.Run before middle) (later : cfg.machine.runFrom middle after = some group)
    (server : ℕ) : (middle.proposers server).log <+: (group.proposers server).log := by
  induction after using List.reverseRecOn generalizing group with
  | nil =>
      have same : middle = group := Option.some.inj later
      rw [same]
  | append_singleton after label inductionHypothesis =>
      obtain ⟨state, started, last⟩ := Machine.runFrom_append.mp later
      obtain ⟨next, taken, same⟩ := Machine.runFrom_cons_iff.mp last
      obtain rfl : next = group := Option.some.inj same
      have reached : cfg.Reachable state := ⟨before ++ after, Machine.run_append earlier started⟩
      exact (inductionHypothesis started).trans (log_prefix_step reached taken server)

/-- Of the logs of two servers at two moments of a run, one is a beginning of the
other; that of one server only grows. -/
theorem logs_of_run_comparable {before after : List Label} {middle : Group}
    (earlier : cfg.machine.Run before middle)
    (later : cfg.machine.runFrom middle after = some group) :
    (∀ server, (middle.proposers server).log <+: (group.proposers server).log) ∧
      ∀ first second, (middle.proposers first).log <+: (group.proposers second).log ∨
        (group.proposers second).log <+: (middle.proposers first).log := by
  refine ⟨log_prefix_run earlier later, fun first second => ?_⟩
  obtain ⟨ledger, _, refines, _, moments⟩ := @moments_run _ _ (fun _ _ => True) trivial
    (fun _ _ _ _ _ _ _ _ _ _ _ => trivial) _ (Machine.run_append earlier later)
  obtain ⟨past, isPast, refined, _⟩ := moments before middle (List.prefix_append _ _) earlier
  exact List.prefix_or_prefix_of_prefix
    ((refined.log_prefix first).trans (isPast.map Entry.resolution)) (refines.log_prefix second)

end Logs

theorem Config.runFrom_after {cfg : Config} {before after : List Label}
    (enabled : (cfg.machine.runFrom cfg.initial (before ++ after)).isSome = true) :
    cfg.machine.runFrom (cfg.after before) after = some (cfg.after (before ++ after)) := by
  obtain ⟨middle, earlier, later⟩ := Machine.runFrom_append.mp (Config.run_after enabled)
  unfold Config.after
  rw [show cfg.machine.runFrom cfg.initial before = some middle from earlier]
  simpa [Config.after] using later

/-- Server 1 records instance 0 after server 0 has. -/
theorem logs_of_learnt_comparable :
    ((twoLocks.after (learntRun.take 21)).proposers 0).log = [Entry.resolution (⟨.LOCK, 7⟩, 0)] ∧
      ((twoLocks.after (learntRun.take 21)).proposers 1).log = [] ∧
      (((twoLocks.after (learntRun.take 21)).proposers 0).log <+:
          ((twoLocks.after learntRun).proposers 1).log ∨
        ((twoLocks.after learntRun).proposers 1).log <+:
          ((twoLocks.after (learntRun.take 21)).proposers 0).log) := by
  have later := @Config.runFrom_after twoLocks (learntRun.take 21) (learntRun.drop 21) (by decide)
  exact ⟨by decide, by decide,
    (logs_of_run_comparable (Config.run_after (by decide)) later).2 0 1⟩

end CSE550.Paxos
