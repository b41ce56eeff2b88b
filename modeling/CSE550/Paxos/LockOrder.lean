import CSE550.Paxos.Deadlocks

/-!
Owns clients that take their locks in an order: when each client wants only what ranks
above all it holds and ends with nothing, then however far the clients have come, the
group can serve all that is left.

The schedules that one lock server can execute decide this, and the group carries each of
them out without faults. In runs with faults such clients wait for ever only for locks
whose server has ended.
-/

namespace CSE550.Paxos

open CSE550.Lib

/-! ### Schedules and their entries -/

/-- Each client locks what it does not hold and unlocks what it holds. -/
def Config.CourteousFiles (cfg : Config) : Prop :=
  ∀ index < cfg.clientCount,
    Access.Throughout Access.Courteous (cfg.accesses index (cfg.commands index).length)

/-- The clients of a schedule are known, and it asks for no more commands than they have. -/
structure Config.Fits (cfg : Config) (schedule : List ℕ) : Prop where
  known : ∀ index ∈ schedule, index < cfg.clientCount
  inFile : ∀ index < cfg.clientCount, schedule.count index ≤ (cfg.commands index).length

/-- One lock server can execute the commands of the schedule. -/
def Config.Legal (cfg : Config) (schedule : List ℕ) : Prop :=
  (lockService.replay (cfg.entries schedule)).isSome = true

section Entries

variable {cfg : Config} {schedule rest : List ℕ} {index : ℕ}

theorem entriesFrom_append {served : ℕ → ℕ}
    (inFile : ∀ index ∈ schedule, served index + schedule.count index ≤
      (cfg.commands index).length) :
    cfg.entriesFrom served (schedule ++ rest) = cfg.entriesFrom served schedule ++
      cfg.entriesFrom (fun index => served index + schedule.count index) rest := by
  induction schedule generalizing served with
  | nil => simp [Config.entriesFrom]
  | cons first schedule inductionHypothesis =>
      have bound := inFile first List.mem_cons_self
      rw [List.count_cons_self] at bound
      have more : served first < (cfg.commands first).length := by omega
      have found := List.getElem?_eq_getElem more
      have counts (other : ℕ) : Function.update served first (served first + 1) other +
          schedule.count other = served other + (first :: schedule).count other := by
        by_cases same : other = first
        · subst same
          rw [Function.update_self, List.count_cons_self]
          omega
        · rw [Function.update_of_ne same, List.count_cons_of_ne (Ne.symm same)]
      rw [List.cons_append, Config.entriesFrom, Config.entriesFrom, found,
        inductionHypothesis fun other member => by
          rw [counts]
          exact inFile other (List.mem_cons_of_mem _ member)]
      simp only [counts, List.cons_append]

theorem entries_append (fits : cfg.Fits schedule) : cfg.entries (schedule ++ rest) =
    cfg.entries schedule ++ cfg.entriesFrom (fun index => 0 + schedule.count index) rest := by
  apply entriesFrom_append
  intro index member
  rw [Nat.zero_add]
  exact fits.inFile index (fits.known index member)

theorem entries_concat (fits : cfg.Fits schedule) {command : Command}
    (found : (cfg.commands index)[schedule.count index]? = some command) :
    cfg.entries (schedule ++ [index]) =
      cfg.entries schedule ++ [(command, cfg.clientId index)] := by
  rw [entries_append fits]
  simp [Config.entriesFrom, found]

theorem Config.Fits.concat (fits : cfg.Fits schedule) (inside : index < cfg.clientCount)
    (more : schedule.count index < (cfg.commands index).length) :
    cfg.Fits (schedule ++ [index]) := by
  refine ⟨fun other member => ?_, fun other known => ?_⟩
  · rcases List.mem_append.mp member with old | new
    · exact fits.known other old
    · exact List.mem_singleton.mp new ▸ inside
  · rw [List.count_append]
    by_cases same : other = index
    · subst same
      rw [List.count_singleton_self]
      omega
    · rw [List.count_singleton, if_neg (by simpa using Ne.symm same)]
      exact fits.inFile other known

/-- What fits is reached client by client. -/
theorem Config.Fits.of_concat (fits : cfg.Fits (schedule ++ [index])) :
    cfg.Fits schedule ∧ index < cfg.clientCount ∧
      schedule.count index < (cfg.commands index).length := by
  have inside := fits.known index (by simp)
  have bound := fits.inFile index inside
  rw [List.count_append, List.count_singleton_self] at bound
  refine ⟨⟨fun other member => fits.known other (List.mem_append_left _ member),
    fun other known => ?_⟩, inside, by omega⟩
  have whole := fits.inFile other known
  rw [List.count_append] at whole
  omega

/-- A client's entries are its first commands. -/
theorem commandsOf_entries (distinct : cfg.DistinctIds) (fits : cfg.Fits schedule)
    (inside : index < cfg.clientCount) :
    commandsOf (cfg.clientId index) (cfg.entries schedule) =
      (cfg.commands index).take (schedule.count index) := by
  induction schedule using List.reverseRecOn with
  | nil => rfl
  | append_singleton schedule last inductionHypothesis =>
      obtain ⟨earlier, known, more⟩ := fits.of_concat
      have found := List.getElem?_eq_getElem more
      rw [entries_concat earlier found, commandsOf_append, inductionHypothesis earlier,
        List.count_append]
      by_cases same : last = index
      · subst same
        rw [List.count_singleton_self, List.take_add_one, found]
        simp [commandsOf]
      · have other : ¬ cfg.clientId last = cfg.clientId index :=
          fun equal => same (distinct last known index inside equal)
        simp [commandsOf, other, same]

/-- The entries of a schedule are those of its clients. -/
theorem known_entries (fits : cfg.Fits schedule) :
    ∀ entry ∈ cfg.entries schedule, ∃ index < cfg.clientCount,
      entry.2 = cfg.clientId index ∧ entry.1 ∈ cfg.commands index := by
  induction schedule using List.reverseRecOn with
  | nil =>
      intro entry member
      cases member
  | append_singleton schedule last inductionHypothesis =>
      obtain ⟨earlier, known, more⟩ := fits.of_concat
      intro entry member
      rw [entries_concat earlier (List.getElem?_eq_getElem more)] at member
      rcases List.mem_append.mp member with old | new
      · exact inductionHypothesis earlier entry old
      · obtain rfl := List.mem_singleton.mp new
        exact ⟨last, known, rfl, List.getElem_mem more⟩

theorem isCommand_entries (fits : cfg.Fits schedule) :
    ∀ entry ∈ cfg.entries schedule, entry.1.commandType ≠ .NONE := by
  intro entry member
  obtain ⟨index, _, _, inFile⟩ := known_entries fits entry member
  exact cfg.created index entry.1 inFile

/-- A client's accesses are those of its commands so far. -/
theorem ofOwner_entries (distinct : cfg.DistinctIds) (fits : cfg.Fits schedule)
    (inside : index < cfg.clientCount) :
    Access.ofOwner (cfg.clientId index) ((cfg.entries schedule).map Entry.access) =
      cfg.accesses index (schedule.count index) := by
  rw [ofOwner_access, commandsOf_entries distinct fits inside]
  rfl

/-- Who is no client has no accesses. -/
theorem ofOwner_unknown (fits : cfg.Fits schedule) {owner : ℤ}
    (unknown : ¬ ∃ index < cfg.clientCount, owner = cfg.clientId index) :
    Access.ofOwner owner ((cfg.entries schedule).map Entry.access) = [] := by
  unfold Access.ofOwner
  rw [List.filter_eq_nil_iff]
  intro access member own
  obtain ⟨entry, inLog, rfl⟩ := List.mem_map.mp member
  obtain ⟨index, inside, isOwner, _⟩ := known_entries fits entry inLog
  exact unknown ⟨index, inside, (of_decide_eq_true own).symm.trans isOwner⟩

/-- The accesses of a client's whole file begin with those of its commands so far. -/
theorem take_accesses {count : ℕ} (inFile : count ≤ (cfg.commands index).length) :
    (cfg.accesses index (cfg.commands index).length).take count = cfg.accesses index count := by
  unfold Config.accesses
  rw [← List.map_take, List.take_take, min_eq_left inFile]

theorem courteous_entries (distinct : cfg.DistinctIds) (courteous : cfg.CourteousFiles)
    (fits : cfg.Fits schedule) :
    Access.Throughout Access.Courteous ((cfg.entries schedule).map Entry.access) := by
  apply Access.Throughout.of_owners
  intro owner
  by_cases known : ∃ index < cfg.clientCount, owner = cfg.clientId index
  · obtain ⟨index, inside, rfl⟩ := known
    rw [ofOwner_entries distinct fits inside, ← take_accesses (fits.inFile index inside)]
    exact (courteous index inside).take _
  · rw [ofOwner_unknown fits known]
    intro position access found
    simp at found

end Entries

/-- A log that can be executed acquires only what is free. -/
theorem guarded_of_replay {log : List Entry}
    (commands : ∀ entry ∈ log, entry.1.commandType ≠ .NONE)
    (legal : (lockService.replay log).isSome = true) :
    Access.Throughout Access.Guarded (log.map Entry.access) := by
  induction log using List.reverseRecOn with
  | nil =>
      intro position access found
      simp at found
  | append_singleton log entry inductionHypothesis =>
      have older : ∀ entry ∈ log, entry.1.commandType ≠ .NONE :=
        fun other member => commands other (List.mem_append_left _ member)
      have isCommand := commands entry (by simp)
      obtain ⟨lockSet, replayed⟩ := Option.isSome_iff_exists.mp (replay_initial_isSome legal)
      obtain ⟨nodup, members⟩ := replay_spec older replayed
      rw [List.map_append, List.map_singleton, Access.throughout_concat]
      refine ⟨inductionHypothesis older (replay_initial_isSome legal), fun acquires => ?_⟩
      have isLock : entry.1.commandType = .LOCK := of_decide_eq_true acquires
      rw [Service.replay_concat, replayed, Option.bind_some] at legal
      simp only [lockService, executeCommand_eq nodup isCommand] at legal
      by_cases held : entry.1.resourceId ∈ lockSet
      · simp [isLock, held, Except.toOption] at legal
      · rw [members, Bool.not_eq_true, Option.isSome_eq_false_iff,
          Option.isNone_iff_eq_none] at held
        exact held

/-! ### What can be executed next -/

section Next

variable {cfg : Config} {schedule : List ℕ} {index : ℕ}

/-- What a client holds in the log, it holds by its own commands. -/
theorem holds_entries (distinct : cfg.DistinctIds) (fits : cfg.Fits schedule)
    (inside : index < cfg.clientCount) (resource : ℤ) :
    Access.Holds (cfg.clientId index) resource ((cfg.entries schedule).map Entry.access) ↔
      Access.Holds (cfg.clientId index) resource
        (cfg.accesses index (schedule.count index)) := by
  unfold Access.Holds
  rw [ofOwner_entries distinct fits inside, Access.ofOwner_eq_self (cfg.owner_accesses _ _)]

/-- The holder of a resource is a client that holds it by its own commands. -/
theorem holder_entries (distinct : cfg.DistinctIds) (courteous : cfg.CourteousFiles)
    (fits : cfg.Fits schedule) (legal : cfg.Legal schedule) {resource : ℤ}
    (held : Access.holder resource ((cfg.entries schedule).map Entry.access) ≠ none) :
    ∃ index < cfg.clientCount, Access.Holds (cfg.clientId index) resource
      (cfg.accesses index (schedule.count index)) := by
  obtain ⟨owner, isHolder⟩ := Option.ne_none_iff_exists'.mp held
  have holds := (Access.holds_iff_holder (courteous_entries distinct courteous fits)
    (guarded_of_replay (isCommand_entries fits) legal) owner resource).mpr isHolder
  by_cases known : ∃ index < cfg.clientCount, owner = cfg.clientId index
  · obtain ⟨index, inside, rfl⟩ := known
    exact ⟨index, inside, (holds_entries distinct fits inside resource).mp holds⟩
  · rw [Access.Holds, ofOwner_unknown fits known] at holds
    cases holds

/-- A client's next command can be executed, unless it is a LOCK of a held resource. -/
theorem legal_concat (distinct : cfg.DistinctIds) (courteous : cfg.CourteousFiles)
    (fits : cfg.Fits schedule) (legal : cfg.Legal schedule) (inside : index < cfg.clientCount)
    {command : Command} (found : (cfg.commands index)[schedule.count index]? = some command)
    (free : command.commandType = .LOCK →
      Access.holder command.resourceId ((cfg.entries schedule).map Entry.access) = none) :
    cfg.Legal (schedule ++ [index]) := by
  have more := (List.getElem?_eq_some_iff.mp found).1
  have fitsNext := fits.concat inside more
  refine replay_of_courteous (isCommand_entries fitsNext)
    (courteous_entries distinct courteous fitsNext) ?_
  rw [entries_concat fits found, List.map_append, List.map_singleton, Access.throughout_concat]
  exact ⟨guarded_of_replay (isCommand_entries fits) legal,
    fun acquires => free (of_decide_eq_true acquires)⟩

end Next

/-! ### Locks in order -/

/-- Each client wants only what ranks above all it holds, and holds nothing when it is done. -/
structure Config.InOrder {Rank : Type} [LinearOrder Rank] (cfg : Config) (rank : ℤ → Rank) :
    Prop where
  above : ∀ index < cfg.clientCount, ∀ (count : ℕ) (wanted held : ℤ),
    (cfg.commands index)[count]? = some ⟨.LOCK, wanted⟩ →
      Access.Holds (cfg.clientId index) held (cfg.accesses index count) → rank held < rank wanted
  released : ∀ index < cfg.clientCount, ∀ resource, ¬ Access.Holds (cfg.clientId index) resource
    (cfg.accesses index (cfg.commands index).length)

section Order

variable {Rank : Type} [LinearOrder Rank] {rank : ℤ → Rank} {cfg : Config} {schedule : List ℕ}

/-- While some client is not done, one of them can go on. -/
theorem exists_next (distinct : cfg.DistinctIds) (courteous : cfg.CourteousFiles)
    (inOrder : cfg.InOrder rank) (fits : cfg.Fits schedule) (legal : cfg.Legal schedule)
    (unfinished : ∃ index < cfg.clientCount,
      schedule.count index < (cfg.commands index).length) :
    ∃ index < cfg.clientCount, schedule.count index < (cfg.commands index).length ∧
      cfg.Legal (schedule ++ [index]) := by
  have finite : {index : ℕ | index < cfg.clientCount ∧
      schedule.count index < (cfg.commands index).length}.Finite :=
    (Set.finite_lt_nat cfg.clientCount).subset fun index member => member.1
  obtain ⟨index, ⟨inside, more⟩, waitsNot⟩ := @exists_not_waitsIn ℕ ℤ Rank
    (fun index resource => Access.Holds (cfg.clientId index) resource
      (cfg.accesses index (schedule.count index)))
    (fun index resource => (cfg.commands index)[schedule.count index]? = some ⟨.LOCK, resource⟩)
    _ _ rank finite unfinished
    fun index member wanted held wants holds =>
      inOrder.above index member.1 _ wanted held wants holds
  have found := List.getElem?_eq_getElem more
  refine ⟨index, inside, more, legal_concat distinct courteous fits legal inside found ?_⟩
  intro isLock
  by_contra isHeld
  obtain ⟨other, otherInside, holds⟩ := holder_entries distinct courteous fits legal isHeld
  apply waitsNot
  have isWanted : (cfg.commands index)[schedule.count index]? =
      some ⟨.LOCK, ((cfg.commands index)[schedule.count index]).resourceId⟩ := by
    rw [found, ← isLock]
  refine ⟨_, isWanted, other, ⟨otherInside, ?_⟩, ?_, holds⟩
  · -- a client that is done holds nothing
    have bound := fits.inFile other otherInside
    by_contra done
    have all : schedule.count other = (cfg.commands other).length := by omega
    rw [all] at holds
    exact inOrder.released other otherInside _ holds
  · -- a client wants nothing that it holds
    rintro rfl
    exact absurd (inOrder.above other inside _ _ _ isWanted holds) (lt_irrefl _)

/-- Every schedule that can be executed can be completed. -/
theorem exists_completion (distinct : cfg.DistinctIds) (courteous : cfg.CourteousFiles)
    (inOrder : cfg.InOrder rank) (fits : cfg.Fits schedule) (legal : cfg.Legal schedule) :
    ∃ rest, cfg.Fits (schedule ++ rest) ∧ cfg.Legal (schedule ++ rest) ∧
      ∀ index < cfg.clientCount,
        (schedule ++ rest).count index = (cfg.commands index).length := by
  -- by what the clients have left
  induction left : ∑ index ∈ Finset.range cfg.clientCount,
      ((cfg.commands index).length - schedule.count index) using Nat.strong_induction_on
    generalizing schedule with
  | _ total inductionHypothesis =>
      by_cases unfinished : ∃ index < cfg.clientCount,
          schedule.count index < (cfg.commands index).length
      · obtain ⟨index, inside, more, legalNext⟩ :=
          exists_next distinct courteous inOrder fits legal unfinished
        have less : ∑ other ∈ Finset.range cfg.clientCount,
            ((cfg.commands other).length - (schedule ++ [index]).count other) < total := by
          rw [← left]
          apply Finset.sum_lt_sum
          · intro other _
            rw [List.count_append]
            omega
          · refine ⟨index, Finset.mem_range.mpr inside, ?_⟩
            rw [List.count_append, List.count_singleton_self]
            omega
        obtain ⟨rest, fitsAll, legalAll, complete⟩ :=
          inductionHypothesis _ less (fits.concat inside more) legalNext rfl
        rw [List.append_assoc, List.singleton_append] at fitsAll legalAll complete
        exact ⟨index :: rest, fitsAll, legalAll, complete⟩
      · refine ⟨[], by rwa [List.append_nil], by rwa [List.append_nil], fun index inside => ?_⟩
        push Not at unfinished
        rw [List.append_nil]
        exact le_antisymm (fits.inFile index inside) (unfinished index inside)

end Order

/-- When clients take their locks in an order and end with none, then however far a
schedule has brought them, the run that carried it out goes on without faults to the
acknowledgement of every client's last command. -/
theorem ordered_clients_can_finish {Rank : Type} [LinearOrder Rank] {rank : ℤ → Rank}
    {cfg : Config} {schedule : List ℕ} (three : 3 ≤ cfg.groupSize)
    (processes : ∀ server other, cfg.proposerConnects server other = true ∧
      cfg.acceptorConnects server other = true)
    (own : cfg.OnOwnServers) (distinct : cfg.DistinctIds) (courteous : cfg.CourteousFiles)
    (inOrder : cfg.InOrder rank) (fits : cfg.Fits schedule) (legal : cfg.Legal schedule) :
    ∃ labels group later final, cfg.machine.Run labels group ∧ CarriedOut cfg schedule group ∧
      cfg.machine.runFrom group later = some final ∧
      (∀ label ∈ labels ++ later, label.isFaultless = true) ∧
      ∀ index < cfg.clientCount, (final.clients index).Caught (cfg.commands index).length := by
  obtain ⟨more, fitsAll, legalAll, complete⟩ :=
    exists_completion distinct courteous inOrder fits legal
  obtain ⟨group, ⟨labels, run, faultless⟩, rest⟩ := (AtRest.initial processes).run three own
    distinct fits.known (by simpa using fits.inFile)
    (by simpa [Config.Legal, Config.entries] using legal)
  have whole : cfg.entries (schedule ++ more) = ([] ++ cfg.entriesFrom (fun _ => 0) schedule) ++
      cfg.entriesFrom (fun index => 0 + schedule.count index) more := entries_append fits
  obtain ⟨final, ⟨later, continues, alsoFaultless⟩, done⟩ := rest.run three own distinct
    (fun index member => fitsAll.known index (List.mem_append_right _ member))
    (fun index inside => by
      have bound := fitsAll.inFile index inside
      rw [List.count_append] at bound
      omega)
    (whole ▸ legalAll)
  refine ⟨labels, group, later, final, run,
    AtRest.carriedOut (by simpa [Config.entries] using rest) ?_, continues,
    fun label member => ?_, fun index inside => ?_⟩
  · intro nonempty
    obtain ⟨earlier, last, rfl⟩ := List.eq_nil_or_concat schedule |>.resolve_left nonempty
    rw [List.concat_eq_append] at fits ⊢
    obtain ⟨fitsEarlier, _, inFile⟩ := fits.of_concat
    rw [entries_concat fitsEarlier (List.getElem?_eq_getElem inFile)]
    simp
  · rcases List.mem_append.mp member with first | second
    · exact faultless label first
    · exact alsoFaultless label second
  · have caught := done.caught index inside
    have all := complete index inside
    rw [List.count_append] at all
    rwa [Nat.zero_add, all] at caught

/-- Two clients that take resource 1 before resource 2. -/
def nestedLocks : Config :=
  .connected 3 2 (fun _ => [⟨.LOCK, 1⟩, ⟨.LOCK, 2⟩, ⟨.UNLOCK, 2⟩, ⟨.UNLOCK, 1⟩]) (by simp)

theorem nestedLocks_inOrder : nestedLocks.InOrder (fun resource => resource) := by
  refine ⟨fun index _ count wanted held found holds => ?_, fun index _ resource holds => ?_⟩
  · rcases count with _ | _ | count
    · simp [nestedLocks, Config.connected, Config.accesses, Access.Holds, Access.ofOwner]
        at holds
    · simp [nestedLocks, Config.connected, Config.accesses, Entry.access, Access.Holds,
        Access.holder, Access.ofOwner, Access.update] at found holds
      omega
    · rcases count with _ | _ | count <;> simp [nestedLocks, Config.connected] at found
  · simp [nestedLocks, Config.connected, Config.accesses, Entry.access, Access.Holds,
      Access.holder, Access.ofOwner, Access.update] at holds
    omega

/-- Client 0 holds resource 1, and both can finish. -/
theorem nested_clients_can_finish : ∃ labels group later final,
    nestedLocks.machine.Run labels group ∧ CarriedOut nestedLocks [0] group ∧
      nestedLocks.machine.runFrom group later = some final ∧
      (∀ label ∈ labels ++ later, label.isFaultless = true) ∧
      ∀ index < nestedLocks.clientCount,
        (final.clients index).Caught (nestedLocks.commands index).length := by
  have courteous : nestedLocks.CourteousFiles := by
    intro index _ position access found
    unfold Access.Courteous Access.Holds
    rcases position with _ | _ | _ | _ | position
    case succ.succ.succ.succ => simp [nestedLocks, Config.connected, Config.accesses] at found
    all_goals
      obtain rfl := Option.some.inj found
      simp [nestedLocks, Config.connected, Config.accesses, Entry.access, Access.holder,
        Access.ofOwner, Access.update]
  apply ordered_clients_can_finish le_rfl (fun _ _ => ⟨rfl, rfl⟩) _ _ courteous
    nestedLocks_inOrder _ _
  · exact ⟨fun index inside => Nat.lt_succ_of_lt inside, fun _ _ _ _ same => same⟩
  · exact fun _ _ _ _ same => Int.ofNat_inj.mp same
  · exact ⟨by decide, by decide⟩
  · show (lockService.replay (nestedLocks.entries [0])).isSome = true
    decide

/-! ### Every run -/

/-- What a client keeps, it holds by its acknowledged commands. -/
theorem Group.Keeps.holds {cfg : Config} {group : Group} {index : ℕ} {resource : ℤ}
    (keeps : group.Keeps cfg index resource)
    (isRead : (group.clients index).got ≤ (group.clients index).read) :
    Access.Holds (cfg.clientId index) resource
      (cfg.accesses index (group.clients index).got) := by
  -- as if the client had sent nothing else
  let alone := group.setClient index
    { group.clients index with sent := (group.clients index).got }
  have ready : alone.Holds cfg index resource ↔ Access.Holds (cfg.clientId index) resource
      (cfg.accesses index (alone.clients index).sent) := Group.holds_iff (by simp [alone])
  simp only [alone, Group.setClient_clients, Function.update_self] at ready
  apply ready.mp
  obtain ⟨count, received, isLock, kept⟩ := keeps
  refine ⟨count, by simpa using received, isLock, fun later bound beyond => kept later ?_ beyond⟩
  rw [Group.setClient_clients, Function.update_self] at bound
  exact Nat.lt_of_lt_of_le bound isRead

/-- Where locks are taken in an order, clients wait for ever only for a server that has
ended: among halted clients one of which waits, some client waits for a lock that a client
of an ended server keeps. -/
theorem only_ended_servers_block {Rank : Type} [LinearOrder Rank] {rank : ℤ → Rank}
    {cfg : Config} {labels : List Label} {group : Group} {clients : Set ℕ}
    (distinct : cfg.DistinctIds) (inOrder : cfg.InOrder rank)
    (run : cfg.machine.Run labels group) (known : ∀ index ∈ clients, index < cfg.clientCount)
    (halted : ∀ index ∈ clients, group.Halted cfg clients index)
    (waits : ∃ index ∈ clients, group.Waits cfg clients index) :
    ∃ waiting ∈ clients, ∃ holder ∈ clients, ∃ resource, group.Wants cfg waiting resource ∧
      group.Keeps cfg holder resource ∧ ¬ group.proposerRuns cfg (cfg.clientServer holder) := by
  obtain ⟨ledger, _, _, isLog⟩ := clients_reachable distinct ⟨labels, run⟩
  have holds {index : ℕ} (member : index ∈ clients) {resource : ℤ}
      (keeps : group.Keeps cfg index resource) := keeps.holds
    (isLog.progress index (known index member)).ordered.1
  have finite : {index ∈ clients | group.Waits cfg clients index}.Finite :=
    (Set.finite_lt_nat cfg.clientCount).subset fun index member => known index member.1
  have above : ∀ index ∈ {index ∈ clients | group.Waits cfg clients index}, ∀ wanted held,
      group.Wants cfg index wanted → group.Keeps cfg index held → rank held < rank wanted :=
    fun index member wanted held wants keeps =>
      inOrder.above index (known index member.1) _ wanted held wants.2 (holds member.1 keeps)
  -- one of those that wait waits for none of those that wait
  obtain ⟨waiting, ⟨member, resource, wants, holder, inside, different, keeps⟩, waitsNot⟩ :=
    exists_not_waitsIn rank finite waits above
  refine ⟨waiting, member, holder, inside, resource, wants, keeps, ?_⟩
  rcases halted holder inside with ended | done | holderWaits
  · exact ended
  · -- a client that is done keeps nothing
    have held := holds inside keeps
    rw [done] at held
    exact absurd held (inOrder.released holder (known holder inside) resource)
  · exact absurd ⟨resource, wants, holder, ⟨inside, holderWaits⟩, different, keeps⟩ waitsNot

/-- Server 0 stops while client 0 keeps resource 1, which client 1 waits for. -/
theorem nested_clients_blocked : ∃ waiting ∈ ({0, 1} : Set ℕ), ∃ holder ∈ ({0, 1} : Set ℕ),
    ∃ resource, (nestedLocks.after orphaned).Wants nestedLocks waiting resource ∧
      (nestedLocks.after orphaned).Keeps nestedLocks holder resource ∧
      ¬ (nestedLocks.after orphaned).proposerRuns nestedLocks
        (nestedLocks.clientServer holder) := by
  have run : nestedLocks.machine.Run orphaned (nestedLocks.after orphaned) :=
    Config.run_after (by decide)
  have waits : (nestedLocks.after orphaned).Waits nestedLocks {0, 1} 1 :=
    ⟨1, by decide, 0, by simp, by decide, by decide⟩
  apply only_ended_servers_block _ nestedLocks_inOrder run _ _ ⟨1, by simp, waits⟩
  · exact fun _ _ _ _ same => Int.ofNat_inj.mp same
  · rintro index (rfl | rfl) <;> decide
  · rintro index (rfl | rfl)
    · exact .inl (by decide)
    · exact .inr (.inr waits)

end CSE550.Paxos
