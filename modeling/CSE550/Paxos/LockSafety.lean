import CSE550.Lib.Locks
import CSE550.Paxos.Clients

/-!
Owns the meaning of the lock set: it is the set of resources held after the
log a proposer has executed, and when every client is courteous no two clients
hold one resource and no assertion of `execute_command` fails.

The guard "if you won but are blocked" makes every LOCK of the log one of a
free resource; that an UNLOCK is one by the holder is up to the clients.
-/

namespace CSE550.Paxos

open CSE550.Lib

/-- The access of an entry: LOCK acquires, UNLOCK releases. -/
def Entry.access (entry : Entry) : Access ℤ ℤ :=
  ⟨entry.2, entry.1.resourceId, entry.1.commandType = .LOCK⟩

/-! ### Executing a command -/

/-- `execute_command` fails on a LOCK of a held and on an UNLOCK of a free
resource, and otherwise adds or removes it. -/
theorem executeCommand_eq {lockSet : List ℤ} (nodup : lockSet.Nodup) {command : Command}
    (isCommand : command.commandType ≠ .NONE) :
    executeCommand lockSet (.command command) =
      if command.commandType = .LOCK ↔ command.resourceId ∈ lockSet then .error .executeAssertion
      else if command.commandType = .LOCK then .ok (lockSet ++ [command.resourceId])
      else .ok (lockSet.erase command.resourceId) := by
  cases kind : command.commandType with
  | LOCK => by_cases held : command.resourceId ∈ lockSet <;> simp [executeCommand, kind, held]
  | UNLOCK =>
      by_cases held : command.resourceId ∈ lockSet
      · simp [executeCommand, kind, held, nodup.not_mem_erase]
      · simp [executeCommand, kind, held]
  | NONE => exact absurd kind isCommand

/-- The lock set after a log has no repetitions and consists of the resources
with a holder. -/
theorem replay_spec {log : List Entry} (commands : ∀ entry ∈ log, entry.1.commandType ≠ .NONE)
    {lockSet : List ℤ} (replayed : lockService.replay log = some lockSet) :
    lockSet.Nodup ∧ ∀ resource, resource ∈ lockSet ↔
      (Access.holder resource (log.map Entry.access)).isSome = true := by
  induction log using List.reverseRecOn generalizing lockSet with
  | nil =>
      obtain rfl := Option.some.inj replayed
      simp [lockService]
  | append_singleton log entry inductionHypothesis =>
      rw [Service.replay_concat] at replayed
      obtain ⟨before, isBefore, applied⟩ := Option.bind_eq_some_iff.mp replayed
      obtain ⟨nodup, members⟩ := inductionHypothesis
        (fun other member => commands other (List.mem_append_left _ member)) isBefore
      have isCommand := commands entry (by simp)
      simp only [lockService, executeCommand_eq nodup isCommand] at applied
      rw [List.map_append, List.map_singleton]
      simp only [Access.holder_concat, Access.update]
      by_cases isLock : entry.1.commandType = .LOCK
      · by_cases held : entry.1.resourceId ∈ before
        · simp [isLock, held, Except.toOption] at applied
        · simp only [isLock, held, iff_false, not_true_eq_false, if_false, if_true,
            Except.toOption, Option.some.injEq] at applied
          subst applied
          refine ⟨?_, fun resource => ?_⟩
          · exact nodup.append (List.nodup_singleton _) (List.disjoint_singleton.mpr held)
          · by_cases here : entry.1.resourceId = resource
            · simp [Entry.access, here, isLock]
            · simp [Entry.access, here, members, Ne.symm here]
      · by_cases held : entry.1.resourceId ∈ before
        · simp only [isLock, held, iff_true, if_false, Except.toOption,
            Option.some.injEq] at applied
          subst applied
          refine ⟨nodup.erase _, fun resource => ?_⟩
          by_cases here : entry.1.resourceId = resource
          · subst here
            simp [Entry.access, isLock, nodup.not_mem_erase]
          · simp [Entry.access, here, List.mem_erase_of_ne (Ne.symm here), members]
        · simp [isLock, held, Except.toOption] at applied

/-- A log that acquires only what is free and whose owners are courteous can be executed
to its end. -/
theorem replay_of_courteous {log : List Entry}
    (commands : ∀ entry ∈ log, entry.1.commandType ≠ .NONE)
    (courteous : Access.Throughout Access.Courteous (log.map Entry.access))
    (guarded : Access.Throughout Access.Guarded (log.map Entry.access)) :
    (lockService.replay log).isSome = true := by
  induction log using List.reverseRecOn with
  | nil => rfl
  | append_singleton log entry inductionHypothesis =>
      have older : ∀ other ∈ log, other.1.commandType ≠ .NONE :=
        fun other member => commands other (List.mem_append_left _ member)
      rw [List.map_append, List.map_singleton, Access.throughout_concat] at courteous guarded
      obtain ⟨courteousLog, polite⟩ := courteous
      obtain ⟨guardedLog, free⟩ := guarded
      obtain ⟨lockSet, replayed⟩ :=
        Option.isSome_iff_exists.mp (inductionHypothesis older courteousLog guardedLog)
      obtain ⟨nodup, members⟩ := replay_spec older replayed
      have held := members entry.1.resourceId
      rw [Service.replay_concat, replayed, Option.bind_some]
      simp only [lockService, executeCommand_eq nodup (commands entry (by simp))]
      by_cases isLock : entry.1.commandType = .LOCK
      · have isFree : Access.holder entry.1.resourceId (log.map Entry.access) = none :=
          free (decide_eq_true isLock)
        rw [isFree] at held
        simp [isLock, held, Except.toOption]
      · -- the owner unlocks what it holds
        have own : Access.Holds entry.2 entry.1.resourceId (log.map Entry.access) := by
          by_contra missing
          exact isLock (of_decide_eq_true (polite.mpr missing))
        rw [(Access.holds_iff_holder courteousLog guardedLog _ _).mp own] at held
        simp [isLock, held, Except.toOption]

theorem guarded_of_sound {ledger : Ledger Entry} (sound : Ledger.Sound lockService ledger)
    (commands : ∀ entry ∈ ledger.log, entry.1.commandType ≠ .NONE) :
    Access.Throughout Access.Guarded (ledger.log.map Entry.access) := by
  intro index access found isLock
  rw [List.getElem?_map] at found
  obtain ⟨entry, there, rfl⟩ := Option.map_eq_some_iff.mp found
  obtain ⟨lockSet, replayed, admits⟩ := sound.admitted index entry there
  have members := (replay_spec (fun other member => commands other (List.mem_of_mem_take member))
    replayed).2
  rw [← List.map_take]
  have free := admits (of_decide_eq_true isLock)
  rw [members, Bool.not_eq_true, Option.isSome_eq_false_iff, Option.isNone_iff_eq_none] at free
  exact free

/-! ### The accesses of one client -/

/-- The accesses of the first commands of a client. -/
def Config.accesses (cfg : Config) (index count : ℕ) : List (Access ℤ ℤ) :=
  ((cfg.commands index).take count).map fun command => Entry.access (command, cfg.clientId index)

theorem Config.owner_accesses (cfg : Config) (index count : ℕ) :
    ∀ access ∈ cfg.accesses index count, access.owner = cfg.clientId index := by
  intro access member
  obtain ⟨command, _, rfl⟩ := List.mem_map.mp member
  rfl

theorem Config.accesses_succ (cfg : Config) {index count : ℕ} {command : Command}
    (found : (cfg.commands index)[count]? = some command) :
    cfg.accesses index (count + 1) =
      cfg.accesses index count ++ [Entry.access (command, cfg.clientId index)] := by
  unfold Config.accesses
  rw [List.take_add_one, found, Option.toList_some, List.map_append, List.map_singleton]

theorem ofOwner_access (clientId : ℤ) (log : List Entry) :
    Access.ofOwner clientId (log.map Entry.access) =
      (commandsOf clientId log).map fun command => Entry.access (command, clientId) := by
  induction log using List.reverseRecOn with
  | nil => rfl
  | append_singleton log entry inductionHypothesis =>
      rw [List.map_append, List.map_singleton, Access.ofOwner_concat, inductionHypothesis,
        commandsOf_append, List.map_append]
      by_cases own : entry.2 = clientId
      · obtain ⟨command, owner⟩ := entry
        subst own
        simp [commandsOf, Entry.access]
      · simp [commandsOf, Entry.access, own]

/-- The client has received the CLIENT_ACK of a LOCK of the resource and has not
sent an UNLOCK of it since. -/
def Group.Holds (cfg : Config) (group : Group) (index : ℕ) (resource : ℤ) : Prop :=
  ∃ count < (group.clients index).got, (cfg.commands index)[count]? = some ⟨.LOCK, resource⟩ ∧
    ∀ later < (group.clients index).sent, count < later →
      (cfg.commands index)[later]? ≠ some ⟨.UNLOCK, resource⟩

instance (cfg : Config) (group : Group) (index : ℕ) (resource : ℤ) :
    Decidable (group.Holds cfg index resource) := by
  unfold Group.Holds
  infer_instance

/-- A LOCK that is acknowledged and not followed by an UNLOCK is an acquisition
that is not followed by a release. -/
theorem Group.Holds.accesses {cfg : Config} {group : Group} {index count : ℕ} {resource : ℤ}
    (holds : group.Holds cfg index resource) (acked : (group.clients index).got ≤ count)
    (sent : count ≤ (group.clients index).sent) :
    (Access.holder resource (cfg.accesses index count)).isSome = true := by
  obtain ⟨position, received, isLock, kept⟩ := holds
  refine (Access.holder_isSome_iff _ _).mpr
    ⟨position, Entry.access (⟨.LOCK, resource⟩, cfg.clientId index), ?_, rfl, rfl, ?_⟩
  · simp [Config.accesses, isLock, Nat.lt_of_lt_of_le received acked]
  · intro later access beyond found same
    unfold Config.accesses at found
    rw [List.getElem?_map, List.getElem?_take] at found
    split at found
    · rename_i inside
      obtain ⟨command, there, rfl⟩ := Option.map_eq_some_iff.mp found
      have notUnlock := kept later (by omega) beyond
      have isCommand := cfg.created index command (List.mem_of_getElem? there)
      obtain ⟨kind, id⟩ := command
      obtain rfl : id = resource := same
      cases kind with
      | LOCK => rfl
      | UNLOCK => exact absurd there notUnlock
      | NONE => exact absurd rfl isCommand
    · cases found

/-- A client without an outstanding command holds what its commands have left held. -/
theorem Group.holds_iff {cfg : Config} {group : Group} {index : ℕ} {resource : ℤ}
    (ready : (group.clients index).got = (group.clients index).sent) :
    group.Holds cfg index resource ↔
      Access.Holds (cfg.clientId index) resource
        (cfg.accesses index (group.clients index).sent) := by
  have own := Access.ofOwner_eq_self (cfg.owner_accesses index (group.clients index).sent)
  constructor
  · intro holds
    exact Access.holder_ofOwner (own.symm ▸ holds.accesses ready.le le_rfl)
  · intro held
    unfold Access.Holds at held
    rw [own] at held
    obtain ⟨position, access, found, same, isLock, kept⟩ :=
      (Access.holder_isSome_iff _ _).mp (Option.isSome_iff_exists.mpr ⟨_, held⟩)
    unfold Config.accesses at found kept
    rw [List.getElem?_map, List.getElem?_take] at found
    split at found
    · rename_i inside
      obtain ⟨command, there, rfl⟩ := Option.map_eq_some_iff.mp found
      have kind : command = ⟨.LOCK, resource⟩ := by
        obtain ⟨kind, id⟩ := command
        obtain rfl : id = resource := same
        obtain rfl : kind = .LOCK := of_decide_eq_true isLock
        rfl
      refine ⟨position, ready ▸ inside, kind ▸ there, fun later bound beyond isUnlock => ?_⟩
      have released := kept later (Entry.access (⟨.UNLOCK, resource⟩, cfg.clientId index)) beyond
        (by simp [isUnlock, bound]) rfl
      cases released
    · cases found

/-- A client sends a LOCK only of a resource it does not hold, and an UNLOCK only
of one it holds. -/
def SendsCourteously (cfg : Config) (group : Group) : Label → Prop
  | .clientSend index =>
      match (cfg.commands index)[(group.clients index).sent]? with
      | some command =>
          (command.commandType = .LOCK → ¬ group.Holds cfg index command.resourceId) ∧
            (command.commandType = .UNLOCK → group.Holds cfg index command.resourceId)
      | none => True
  | _ => True

instance (cfg : Config) (group : Group) (label : Label) :
    Decidable (SendsCourteously cfg group label) := by
  unfold SendsCourteously
  split
  · split <;> infer_instance
  · infer_instance

/-- The accesses of the commands each client has sent are courteous. -/
def Polite (cfg : Config) (group : Group) : Prop :=
  ∀ index, Access.Throughout Access.Courteous
    (cfg.accesses index (group.clients index).sent)

/-- Only sending changes what a client has sent. -/
theorem step_sent {cfg : Config} {group next : Group} {label : Label}
    (taken : group.step cfg label = some next) (index : ℕ) :
    (next.clients index).sent = (group.clients index).sent ∨
      (label = .clientSend index ∧ (group.clients index).got = (group.clients index).sent ∧
        (group.clients index).sent < (cfg.commands index).length ∧
        (next.clients index).sent = (group.clients index).sent + 1) := by
  cases transition_of_step taken with
  | network next move => exact .inl (by rw [move.clients])
  | clientSend other known ready more named =>
      by_cases equal : index = other
      · subst equal
        exact .inr ⟨named, ready, more, by simp⟩
      · exact .inl (by simp [equal])
  | clientRecv | acceptClient | closeClient | recvClient =>
      exact .inl (read_update Client.sent (by rfl) index)
  | idleExit | acceptor => exact .inl rfl
  | proposer server queue taken result =>
      rw [Group.commit_clients]
      split <;> exact .inl rfl

/-- In a run whose clients send courteously, all their accesses are courteous. -/
theorem polite_run {cfg : Config} {labels : List Label} {group : Group}
    (run : cfg.machine.Run labels group)
    (meets : cfg.machine.Meets (SendsCourteously cfg) cfg.initial labels) : Polite cfg group := by
  refine Machine.Run.invariant_of_meets ?_ ?_ run meets
  · intro index position access found
    simp [Config.accesses, Config.machine, Config.initial] at found
  · intro before label next _ polite sends taken index
    rcases step_sent taken index with same | ⟨rfl, ready, more, sent⟩
    · rw [same]
      exact polite index
    · have found := List.getElem?_eq_getElem more
      rw [sent, cfg.accesses_succ found]
      refine Access.throughout_concat.mpr ⟨polite index, ?_⟩
      simp only [SendsCourteously, found] at sends
      have isCommand := cfg.created index _ (List.getElem_mem more)
      set command := (cfg.commands index)[(before.clients index).sent]
      have same : before.Holds cfg index command.resourceId ↔ _ := Group.holds_iff ready
      cases kind : command.commandType with
      | LOCK => simpa [Access.Courteous, Entry.access, kind] using fun held =>
          sends.1 kind (same.mpr held)
      | UNLOCK => simpa [Access.Courteous, Entry.access, kind] using same.mp (sends.2 kind)
      | NONE => exact absurd kind isCommand

/-- The log of a group of courteous clients is courteous. -/
theorem courteous_of_polite {cfg : Config} {group : Group} {log : List Entry}
    (polite : Polite cfg group) (clients : Clients cfg log group) :
    Access.Throughout Access.Courteous (log.map Entry.access) := by
  intro position access found
  rw [List.getElem?_map] at found
  obtain ⟨entry, there, rfl⟩ := Option.map_eq_some_iff.mp found
  obtain ⟨index, inside, owner⟩ := clients.known entry (List.mem_of_getElem? there)
  have inOrder := (clients.progress index inside).commandsOf_log
  have grows : commandsOf entry.2 (log.take position) ++ [entry.1] <+:
      (cfg.commands index).take (group.clients index).sent := by
    have longer := commandsOf_take_succ entry.2 there
    rw [if_pos rfl] at longer
    rw [← longer, owner]
    exact (commandsOf_take_initial _ _ _).trans inOrder
  set own := commandsOf entry.2 (log.take position) with ownDef
  obtain ⟨rest, whole⟩ := grows
  have before : (cfg.accesses index (group.clients index).sent).take own.length =
      own.map fun command => Entry.access (command, cfg.clientId index) := by
    unfold Config.accesses
    rw [← whole, ← List.map_take]
    simp
  have here : (cfg.accesses index (group.clients index).sent)[own.length]? =
      some (Entry.access (entry.1, cfg.clientId index)) := by
    unfold Config.accesses
    rw [← whole]
    simp
  have courteous := polite index own.length _ here
  rw [before] at courteous
  have isEntry : (entry.1, cfg.clientId index) = entry := by
    rw [← owner]
  rw [isEntry] at courteous
  have same (resource : ℤ) :
      Access.Holds entry.2 resource ((log.take position).map Entry.access) ↔
        Access.Holds entry.2 resource
          (own.map fun command => Entry.access (command, cfg.clientId index)) := by
    unfold Access.Holds
    rw [ofOwner_access, ← ownDef, Access.ofOwner_eq_self, owner]
    intro access member
    obtain ⟨command, _, rfl⟩ := List.mem_map.mp member
    exact owner.symm
  unfold Access.Courteous at courteous ⊢
  rw [courteous, ← List.map_take]
  exact not_congr (same _).symm

/-! ### Lock safety -/

/-- Entries of the log are LOCK and UNLOCK commands. -/
theorem Clients.isCommand {cfg : Config} {group : Group} {log : List Entry}
    (clients : Clients cfg log group) : ∀ entry ∈ log, entry.1.commandType ≠ .NONE := by
  intro entry member
  obtain ⟨index, inside, owner⟩ := clients.known entry member
  refine cfg.created index entry.1 ?_
  have inOrder := (clients.progress index inside).commandsOf_log
  refine List.mem_of_mem_take (inOrder.subset ?_)
  exact List.mem_map.mpr ⟨entry, List.mem_filter.mpr ⟨member, decide_eq_true owner⟩, rfl⟩

/-- What a client holds, it holds in the log. -/
theorem Clients.holds_log {cfg : Config} {group : Group} {log : List Entry}
    (clients : Clients cfg log group) {index : ℕ} (inside : index < cfg.clientCount)
    {resource : ℤ} (holds : group.Holds cfg index resource) :
    Access.Holds (cfg.clientId index) resource (log.map Entry.access) := by
  have progress := clients.progress index inside
  have inOrder := progress.commandsOf_log
  refine Access.holder_ofOwner ?_
  rw [ofOwner_access]
  have prefixed := List.prefix_iff_eq_take.mp inOrder
  rw [List.take_take] at prefixed
  set count := min (commandsOf (cfg.clientId index) log).length (group.clients index).sent
    with isCount
  have acked : (group.clients index).acks.length ≤ count := by
    have recorded := commandsOf_take_initial (cfg.clientId index) log
      (group.proposers (cfg.clientServer index)).logfile.length
    rw [progress.recorded] at recorded
    have lengths := recorded.length_le
    have known : (group.clients index).acks.length ≤ (group.clients index).read := by
      rcases progress.acked with acked | pending
      · exact acked.le
      · exact pending.unacked ▸ Nat.le_succ _
    have read := progress.read
    have sent := progress.sent
    rw [List.length_take] at lengths
    omega
  rw [prefixed]
  exact holds.accesses (progress.got.trans acked) (min_le_right _ _)

/-- No two clients hold one resource, and no assertion of `execute_command` has
failed. -/
structure LockSafe (cfg : Config) (group : Group) : Prop where
  exclusive : ∀ first < cfg.clientCount, ∀ second < cfg.clientCount, ∀ resource,
    group.Holds cfg first resource → group.Holds cfg second resource → first = second
  asserted : ∀ server, (group.proposers server).status ≠ .raised .executeAssertion

/-- Lock safety for clients that send courteously. -/
theorem courteous_clients_lock_safe {cfg : Config} {labels : List Label} {group : Group}
    (distinct : cfg.DistinctIds) (run : cfg.machine.Run labels group)
    (meets : cfg.machine.Meets (SendsCourteously cfg) cfg.initial labels) :
    LockSafe cfg group := by
  obtain ⟨ledger, sound, refines, clients⟩ := clients_reachable distinct ⟨labels, run⟩
  have courteous := courteous_of_polite (polite_run run meets) clients
  have guarded := guarded_of_sound sound clients.isCommand
  refine ⟨fun first firstInside second secondInside resource left right => ?_, fun server => ?_⟩
  · exact distinct first firstInside second secondInside
      (Access.holds_unique courteous guarded (clients.holds_log firstInside left)
        (clients.holds_log secondInside right))
  · intro failed
    have replica := refines.replicas server
    rcases replica.progress with ⟨_, fine⟩ | ⟨entry, found, fails, _, _⟩
    · exact fine failed
    obtain ⟨nodup, members⟩ := replay_spec
      (fun other member => clients.isCommand other (List.mem_of_mem_take member)) replica.lockSet
    have isCommand := clients.isCommand entry (List.mem_of_getElem? found)
    have access : (ledger.log.map Entry.access)[(group.proposers server).inst]? =
        some entry.access := by
      rw [List.getElem?_map, found]
      rfl
    have free := guarded _ _ access
    have polite := courteous _ _ access
    have agree := Access.holds_iff_holder (courteous.take (group.proposers server).inst)
      (guarded.take (group.proposers server).inst) entry.2 entry.1.resourceId
    rw [List.map_take] at members
    have held := members entry.1.resourceId
    simp only [lockService, executeCommand_eq nodup isCommand] at fails
    by_cases isLock : entry.1.commandType = .LOCK
    · have none := free (decide_eq_true isLock)
      rw [show entry.access.resource = entry.1.resourceId from rfl] at none
      rw [none] at held
      simp [isLock, held, Except.toOption] at fails
    · have owned : Access.Holds entry.2 entry.1.resourceId
          ((ledger.log.map Entry.access).take (group.proposers server).inst) := by
        by_contra missing
        exact absurd (polite.mpr missing) (by simp [Entry.access, isLock])
      rw [agree.mp owned] at held
      simp [isLock, held, Except.toOption] at fails

/-- Client 0 holds resource 7 while the command of client 1, a LOCK of the same
resource, is under way. -/
theorem lock_safe_learnt :
    (twoLocks.after (learntRun ++ [.clientRecv 0])).Holds twoLocks 0 7 ∧
      LockSafe twoLocks (twoLocks.after (learntRun ++ [.clientRecv 0])) := by
  refine ⟨by decide, courteous_clients_lock_safe ?_ (Config.run_after (by decide)) (by decide)⟩
  intro first _ second _ same
  exact Int.ofNat_inj.mp same

end CSE550.Paxos
