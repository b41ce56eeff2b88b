import CSE550.Lib.Ledger
import CSE550.Paxos.Tally
import Mathlib.Data.List.Sort

/-!
Owns the refinement of the replicated lock service by the group: there is one
log of commands with their clients, every proposer has recorded and executed a
prefix of it, and every ACCEPT carries the entry of its instance.

An instance is decided when a proposer leaves PROPOSING for ACCEPT with grants
only. As an acceptor grants an instance once, no second proposer can do so, and
every other proposer that reaches ACCEPT there has learnt the decided entry
from a PREPARE_NACK.
-/

namespace CSE550.Paxos

open CSE550.Lib

/-- A decided command and the id of the client it came from. -/
abbrev Entry := Command × ℤ

/-- The lock service a proposer replays: entries act through `execute_command`,
and a LOCK of a held resource is not proposed. -/
def lockService : Service (List ℤ) Entry where
  init := []
  apply := fun lockSet entry => (executeCommand lockSet (.command entry.1)).toOption
  admits := fun lockSet entry => entry.1.commandType = .LOCK → entry.1.resourceId ∉ lockSet

/-- The value recorded in `instance_resolutions` for an entry. -/
def Entry.resolution (entry : Entry) : Value × Option ℤ := (.command entry.1, some entry.2)

theorem Entry.resolution_injective {left right : Entry}
    (same : Entry.resolution left = Entry.resolution right) : left = right := by
  simp only [Entry.resolution, Prod.mk.injEq, Value.command.injEq, Option.some.injEq] at same
  exact Prod.ext same.1 same.2

/-- The line written to the log file for an entry. -/
def Entry.logLine (entry : Entry) (inst : ℕ) : LogLine := ⟨inst, some entry.2, .command entry.1⟩

/-- The message carries the entry as value and client id. -/
def Message.Carries (msg : Message) (entry : Entry) : Prop :=
  (msg.value, msg.clientId) = Entry.resolution entry

namespace Proposer

/-- The learnt command and client are the entry. -/
def Learnt (proposer : Proposer) (entry : Entry) : Prop :=
  (proposer.learntCommand, proposer.learntClient) = Entry.resolution entry

/-- The client's command with its client. -/
def ownEntry (proposer : Proposer) : Entry := (proposer.clientCommand, proposer.origClientId)

theorem Learnt.unique {proposer : Proposer} {left right : Entry} (first : proposer.Learnt left)
    (second : proposer.Learnt right) : left = right :=
  Entry.resolution_injective (first.symm.trans second)

theorem ownLearnt_iff (proposer : Proposer) :
    proposer.ownLearnt ↔ proposer.Learnt proposer.ownEntry := by
  simp [ownLearnt, Learnt, ownEntry, Entry.resolution]

end Proposer

/-- A log that can be executed can be executed up to each entry. -/
theorem replay_initial_isSome {log more : List Entry}
    (legal : (lockService.replay (log ++ more)).isSome = true) :
    (lockService.replay log).isSome = true := by
  by_contra fails
  rw [Service.replay_append_of_none (Option.not_isSome_iff_eq_none.mp fails) more] at legal
  cases legal

/-- A server can execute the next entry of a log that can be executed. -/
theorem executes_next {log : List Entry} {lockSet : List ℤ} {entry : Entry} {inst : ℕ}
    (legal : (lockService.replay log).isSome = true) (found : log[inst]? = some entry)
    (replayed : lockService.replay (log.take inst) = some lockSet) :
    ∃ next, executeCommand lockSet (.command entry.1) = .ok next ∧
      lockService.replay (log.take (inst + 1)) = some next := by
  have step := Service.replay_take_succ found replayed
  rw [← List.take_append_drop (inst + 1) log] at legal
  have some := replay_initial_isSome legal
  rw [step] at some
  cases result : executeCommand lockSet (.command entry.1) with
  | error error => simp [lockService, result, Except.toOption] at some
  | ok next => exact ⟨next, rfl, by rw [step]; simp [lockService, result, Except.toOption]⟩

/-- A proposer that can execute the entry it has learnt goes on to the next instance. -/
theorem resolve_ok {proposer : Proposer} {lockSet : List ℤ} {entry : Entry}
    (learnt : proposer.Learnt entry)
    (executes : executeCommand proposer.lockSet (.command entry.1) = .ok lockSet) (msg : Message) :
    proposer.resolve msg = proposer.executed msg lockSet := by
  have value : proposer.learntCommand = .command entry.1 := (Prod.mk.inj learnt).1
  rw [← value] at executes
  rcases resolve_cases proposer msg with ⟨error, failed, _⟩ | ⟨after, result, same⟩
  · rw [executes] at failed
    cases failed
  · obtain rfl := Except.ok.inj (executes.symm.trans result)
    exact same

/-- How many entries a proposer has recorded, and when it failed on the last one. -/
inductive Progress (log : List Entry) (proposer : Proposer) : Prop
  | current (count : proposer.logfile.length = proposer.inst)
      (fine : proposer.status ≠ .raised .executeAssertion)
  | stuck (entry : Entry) (found : log[proposer.inst]? = some entry)
      (fails : lockService.apply proposer.lockSet entry = none)
      (count : proposer.logfile.length = proposer.inst + 1)
      (status : proposer.status = .raised .executeAssertion)

/-- A proposer as a replica of the log. -/
structure Replica (log : List Entry) (proposer : Proposer) : Prop where
  lockSet : lockService.replay (log.take proposer.inst) = some proposer.lockSet
  progress : Progress log proposer
  bound : proposer.logfile.length ≤ log.length
  resolutions : ∀ index, proposer.instanceResolutions.lookup index =
    (log.take proposer.logfile.length)[index]?.map Entry.resolution
  lines : ∀ index, proposer.logfile[index]? =
    (log.take proposer.logfile.length)[index]?.map fun entry => Entry.logLine entry index
  busy : proposer.state ≠ .IDLE → proposer.Learnt proposer.ownEntry ∨
    ∃ entry, log[proposer.inst]? = some entry ∧ proposer.Learnt entry
  accepting : proposer.state = .ACCEPT ∨ proposer.state = .ACCEPTING →
    ∃ entry, log[proposer.inst]? = some entry ∧ proposer.Learnt entry

/-- The proposer holds the grants of a majority for the instance of the entry,
and stays with the entry until it has executed it. -/
structure Decides (cfg : Config) (proposer : Proposer) (index : ℕ) (entry : Entry) : Prop where
  grants : Majority cfg.acceptorIds (proposer.Seen (IsGrant · index))
  keeps : index < proposer.inst ∨ (index = proposer.inst ∧ proposer.Learnt entry ∧
    (proposer.state = .IDLE → proposer.status ≠ .running))

/-- The message carries the entry of its instance. -/
def CarriesDecided (log : List Entry) (msg : Message) : Prop :=
  ∃ index entry, msg.inst = (index : ℕ) ∧ log[index]? = some entry ∧ msg.Carries entry

/-- The group refines the ledger. -/
structure Refines (cfg : Config) (group : Group) (ledger : Ledger Entry) : Prop where
  position : ∀ server, ledger.position server = (group.proposers server).inst
  replicas : ∀ server, Replica ledger.log (group.proposers server)
  decided : ∀ index entry, ledger.log[index]? = some entry →
    ∃ server, Decides cfg (group.proposers server) index entry
  accepts : ∀ msg ∈ group.broadcasts, msg.msgType = .ACCEPT → CarriesDecided ledger.log msg

theorem Refines.initial (cfg : Config) :
    Refines cfg cfg.initial (Ledger.machine lockService).init where
  position := fun _ => rfl
  replicas := fun server =>
    { lockSet := rfl
      progress := .current rfl (by simp [Config.initial, Config.initialProposer])
      bound := le_rfl
      resolutions := fun _ => rfl
      lines := fun _ => rfl
      busy := fun state => absurd rfl state
      accepting := by simp [Config.initial, Config.initialProposer] }
  decided := by simp [Ledger.machine]
  accepts := by simp [Config.initial]

/-! ### A proposer between two resolutions -/

/-- The move keeps what the proposer has recorded and executed, and does not
fail in `execute_command`. -/
structure Frame (before after : Proposer) : Prop where
  inst : after.inst = before.inst
  lockSet : after.lockSet = before.lockSet
  logfile : after.logfile = before.logfile
  resolutions : after.instanceResolutions = before.instanceResolutions
  history : ∀ signature ∈ before.msgHistory, signature ∈ after.msgHistory
  status : after.status = before.status ∨ (before.status = .running ∧
    after.status ≠ .running ∧ after.status ≠ .raised .executeAssertion)

theorem Frame.refl (proposer : Proposer) : Frame proposer proposer :=
  ⟨rfl, rfl, rfl, rfl, fun _ member => member, .inl rfl⟩

theorem Frame.trans {first second third : Proposer} (left : Frame first second)
    (right : Frame second third) (same : third.status = second.status) : Frame first third where
  inst := right.inst.trans left.inst
  lockSet := right.lockSet.trans left.lockSet
  logfile := right.logfile.trans left.logfile
  resolutions := right.resolutions.trans left.resolutions
  history := fun _ member => right.history _ (left.history _ member)
  status := same ▸ left.status

theorem Frame.raise (proposer : Proposer) (error : Raised) (runs : proposer.status = .running)
    (other : error ≠ .executeAssertion) : Frame proposer (proposer.raise error) :=
  ⟨rfl, rfl, rfl, rfl, fun _ member => member, .inr ⟨runs, by simp [Proposer.raise],
    by simpa [Proposer.raise] using other⟩⟩

theorem Frame.remember (proposer : Proposer) (msg : Message) :
    Frame proposer (proposer.remember msg) :=
  ⟨rfl, rfl, rfl, rfl, fun _ => List.mem_cons_of_mem _, .inl rfl⟩

theorem Frame.learn (proposer : Proposer) : Frame proposer proposer.learn := by
  obtain ⟨value, clientId, same⟩ := learn_eq proposer
  rw [same]
  exact ⟨rfl, rfl, rfl, rfl, fun _ member => member, .inl rfl⟩

theorem Progress.frame {log : List Entry} {before after : Proposer}
    (progress : Progress log before) (frame : Frame before after) : Progress log after := by
  cases progress with
  | current count fine =>
      refine .current (by rw [frame.logfile, frame.inst, count]) ?_
      rcases frame.status with same | ⟨_, _, other⟩
      · rwa [same]
      · exact other
  | stuck entry found fails count status =>
      refine .stuck entry (by rwa [frame.inst]) (by rwa [frame.lockSet])
        (by rw [frame.logfile, frame.inst, count]) ?_
      rcases frame.status with same | ⟨runs, _⟩
      · rwa [same]
      · exact absurd (status.symm.trans runs) (by simp)

theorem Replica.frame {log : List Entry} {before after : Proposer} (replica : Replica log before)
    (frame : Frame before after)
    (busy : after.state ≠ .IDLE → after.Learnt after.ownEntry ∨
      ∃ entry, log[before.inst]? = some entry ∧ after.Learnt entry)
    (accepting : after.state = .ACCEPT ∨ after.state = .ACCEPTING →
      ∃ entry, log[before.inst]? = some entry ∧ after.Learnt entry) : Replica log after where
  lockSet := by rw [frame.inst, frame.lockSet, replica.lockSet]
  progress := replica.progress.frame frame
  bound := by rw [frame.logfile]; exact replica.bound
  resolutions := by rw [frame.resolutions, frame.logfile]; exact replica.resolutions
  lines := by rw [frame.logfile]; exact replica.lines
  busy := by rw [frame.inst]; exact busy
  accepting := by rw [frame.inst]; exact accepting

/-- The proposer keeps what it has learnt. -/
theorem Decides.frame {cfg : Config} {before after : Proposer} {index : ℕ} {entry : Entry}
    (decides : Decides cfg before index entry) (frame : Frame before after)
    (learnt : index = before.inst → before.Learnt entry →
      (before.state = .IDLE → before.status ≠ .running) → after.Learnt entry)
    (idle : after.state = .IDLE → before.state = .IDLE ∨ after.status ≠ .running) :
    Decides cfg after index entry where
  grants := decides.grants.mono fun _ _ seen => seen.mono frame.history
  keeps := by
    rw [frame.inst]
    refine decides.keeps.imp_right fun ⟨here, entryLearnt, settled⟩ =>
      ⟨here, learnt here entryLearnt settled, fun isIdle => ?_⟩
    rcases idle isIdle with wasIdle | stopped
    · rcases frame.status with same | ⟨runs, stopped, _⟩
      · exact same ▸ settled wasIdle
      · exact stopped
    · exact stopped

section Log

variable {cfg : Config} {group next : Group} {label : Label} {ledger : Ledger Entry}

theorem Replica.inst_le {log : List Entry} {proposer : Proposer}
    (replica : Replica log proposer) : proposer.inst ≤ log.length := by
  have bound := replica.bound
  rcases replica.progress with ⟨count, _⟩ | ⟨entry, _, _, count, _⟩ <;> omega

/-- A proposer that runs has recorded all the instances before its own. -/
theorem Replica.count {log : List Entry} {proposer : Proposer} (replica : Replica log proposer)
    (running : proposer.status = .running) : proposer.logfile.length = proposer.inst := by
  rcases replica.progress with ⟨count, _⟩ | ⟨_, _, _, _, status⟩
  · exact count
  · exact absurd (running.symm.trans status) (by simp)

/-- A replica of a log is a replica of a longer one. -/
theorem Replica.grow {log : List Entry} {proposer : Proposer} (replica : Replica log proposer)
    (last : Entry) : Replica (log ++ [last]) proposer where
  lockSet := by
    rw [List.take_append_of_le_length replica.inst_le]
    exact replica.lockSet
  progress := by
    rcases replica.progress with ⟨count, fine⟩ | ⟨entry, found, fails, count, status⟩
    · exact .current count fine
    · exact .stuck entry (getElem?_concat found) fails count status
  bound := by
    have bound := replica.bound
    rw [List.length_append]
    omega
  resolutions := by
    rw [List.take_append_of_le_length replica.bound]
    exact replica.resolutions
  lines := by
    rw [List.take_append_of_le_length replica.bound]
    exact replica.lines
  busy := fun state => (replica.busy state).imp_right fun ⟨entry, found, learnt⟩ =>
    ⟨entry, getElem?_concat found, learnt⟩
  accepting := fun state =>
    have ⟨entry, found, learnt⟩ := replica.accepting state
    ⟨entry, getElem?_concat found, learnt⟩

theorem CarriesDecided.grow {log : List Entry} {msg : Message} (carries : CarriesDecided log msg)
    (last : Entry) : CarriesDecided (log ++ [last]) msg := by
  obtain ⟨index, entry, inst, found, contents⟩ := carries
  exact ⟨index, entry, inst, getElem?_concat found, contents⟩

/-- A move of one proposer that decides and resolves nothing. -/
theorem Refines.frame (refines : Refines cfg group ledger) {server : ℕ} {after : Proposer}
    (proposers : next.proposers = Function.update group.proposers server after)
    (frame : Frame (group.proposers server) after)
    (busy : after.state ≠ .IDLE → after.Learnt after.ownEntry ∨
      ∃ entry, ledger.log[(group.proposers server).inst]? = some entry ∧ after.Learnt entry)
    (accepting : after.state = .ACCEPT ∨ after.state = .ACCEPTING →
      ∃ entry, ledger.log[(group.proposers server).inst]? = some entry ∧ after.Learnt entry)
    (learnt : ∀ entry, ledger.log[(group.proposers server).inst]? = some entry →
      (group.proposers server).Learnt entry →
      ((group.proposers server).state = .IDLE → (group.proposers server).status ≠ .running) →
        after.Learnt entry)
    (idle : after.state = .IDLE →
      (group.proposers server).state = .IDLE ∨ after.status ≠ .running)
    (accepts : ∀ msg ∈ next.broadcasts, msg ∈ group.broadcasts ∨
      (msg.msgType = .ACCEPT → CarriesDecided ledger.log msg)) : Refines cfg next ledger where
  position := by
    intro other
    rw [refines.position, proposers]
    by_cases same : other = server
    · subst same
      rw [Function.update_self, frame.inst]
    · rw [Function.update_of_ne same]
  replicas := by
    intro other
    rw [proposers]
    by_cases same : other = server
    · subst same
      rw [Function.update_self]
      exact (refines.replicas other).frame frame busy accepting
    · rw [Function.update_of_ne same]
      exact refines.replicas other
  decided := by
    intro index entry found
    obtain ⟨decider, decides⟩ := refines.decided index entry found
    refine ⟨decider, ?_⟩
    rw [proposers]
    by_cases same : decider = server
    · subst same
      rw [Function.update_self]
      exact decides.frame frame (fun here => learnt entry (here ▸ found)) idle
    · rw [Function.update_of_ne same]
      exact decides
  accepts := by
    intro msg member isAccept
    rcases accepts msg member with old | new
    · exact refines.accepts msg old isAccept
    · exact new isAccept

/-- A step that moves no proposer. -/
theorem Refines.keep_same (refines : Refines cfg group ledger)
    (proposers : next.proposers = group.proposers)
    (broadcasts : next.broadcasts = group.broadcasts) : Refines cfg next ledger where
  position := by rw [proposers]; exact refines.position
  replicas := by rw [proposers]; exact refines.replicas
  decided := by rw [proposers]; exact refines.decided
  accepts := by rw [broadcasts]; exact refines.accepts

/-! ### Deciding an instance -/

/-- A PREPARE_NACK carries the entry of its instance. -/
theorem Refines.nack_carries (refines : Refines cfg group ledger) (wire : Wire cfg group)
    (replies : Replies cfg group) {server : ℕ} {msg : Message}
    (sent : (server, msg) ∈ group.sent) (kind : msg.msgType = .PREPARE_NACK) :
    CarriesDecided ledger.log msg := by
  obtain ⟨acceptor, accept, acceptSent, isAccept, inst, _, value, clientId⟩ :=
    replies.nacks server msg sent kind
  obtain ⟨index, entry, atIndex, found, contents⟩ := refines.accepts accept
    (wire.requests acceptor accept acceptSent (by simp [isAccept, acceptorMsgTypes])) isAccept
  refine ⟨index, entry, inst.symm.trans atIndex, found, ?_⟩
  simpa only [Message.Carries, value, clientId] using contents

/-- What a proposer learns from PREPARE_NACKs is the entry of its instance. -/
theorem Refines.learn (refines : Refines cfg group ledger) (wire : Wire cfg group)
    (replies : Replies cfg group) {server : ℕ} {proposer : Proposer}
    (tally : ProposingTally cfg group.sent server proposer) :
    (proposer.preNacks = [] ∧ proposer.learn = proposer) ∨
      ∃ entry, ledger.log[proposer.inst]? = some entry ∧ proposer.learn.Learnt entry := by
  refine (learn_cases proposer).imp_right fun ⟨nack, member, _, same⟩ => ?_
  obtain ⟨kind, inst, sent⟩ := tally.nacks nack member
  obtain ⟨index, entry, atIndex, found, contents⟩ := refines.nack_carries wire replies sent kind
  have here : proposer.inst = index := WithBot.coe_injective (inst.symm.trans atIndex)
  refine ⟨entry, here ▸ found, ?_⟩
  rw [same]
  exact contents

/-- Two majorities of grants for one instance belong to one proposer. -/
theorem Decides.decider_unique {decider server index : ℕ} {entry : Entry} {proposer : Proposer}
    (decides : Decides cfg (group.proposers decider) index entry) (wire : Wire cfg group)
    (replies : Replies cfg group)
    (granted : Majority cfg.acceptorIds (proposer.Seen (IsGrant · index)))
    (received : ∀ msg, msg.signature ∈ proposer.msgHistory → (server, msg) ∈ group.sent) :
    decider = server := by
  obtain ⟨acceptor, _, ⟨left, leftGrant, leftSeen⟩, ⟨right, rightGrant, rightSeen⟩⟩ :=
    Majority.intersect decides.grants granted
  exact (replies.grantOnce decider server acceptor index left right
    (wire.sent_of_seen leftSeen).1 (received right rightSeen) leftGrant rightGrant).1

/-- How a step of the group changes the log: not at all, or a proposer in
PROPOSING that has executed the whole log decides its own entry. -/
inductive Grown (cfg : Config) (group : Group) (log : List Entry) : List Entry → Prop
  | same : Grown cfg group log log
  | decided (server : ℕ) (runs : group.proposerRuns cfg server)
      (state : (group.proposers server).state = .PROPOSING)
      (caughtUp : (group.proposers server).inst = log.length) :
      Grown cfg group log (log ++ [(group.proposers server).ownEntry])

/-- A proposer that has executed the whole log decides the next entry. -/
theorem Refines.append (refines : Refines cfg group ledger) {server : ℕ} {after : Proposer}
    (proposers : next.proposers = Function.update group.proposers server after)
    (broadcasts : next.broadcasts = group.broadcasts)
    (frame : Frame (group.proposers server) after) (state : after.state = .ACCEPT)
    (learnt : after.Learnt after.ownEntry)
    (caughtUp : (group.proposers server).inst = ledger.log.length)
    (grants : Majority cfg.acceptorIds (after.Seen (IsGrant · (group.proposers server).inst))) :
    Refines cfg next { ledger with log := ledger.log ++ [after.ownEntry] } where
  position := by
    intro other
    change ledger.position other = _
    rw [refines.position, proposers]
    by_cases same : other = server
    · subst same
      rw [Function.update_self, frame.inst]
    · rw [Function.update_of_ne same]
  replicas := by
    intro other
    rw [proposers]
    by_cases same : other = server
    · subst same
      rw [Function.update_self]
      refine ((refines.replicas other).grow _).frame frame (fun _ => .inl learnt) fun _ => ?_
      exact ⟨after.ownEntry, by simp [caughtUp], learnt⟩
    · rw [Function.update_of_ne same]
      exact (refines.replicas other).grow _
  decided := by
    intro index entry found
    rw [proposers]
    rcases getElem?_concat_cases found with ⟨inside, old⟩ | ⟨last, rfl⟩
    · obtain ⟨decider, decides⟩ := refines.decided index entry old
      refine ⟨decider, ?_⟩
      by_cases same : decider = server
      · subst same
        rw [Function.update_self]
        exact decides.frame frame (fun here => absurd here (by omega)) (by simp [state])
      · rw [Function.update_of_ne same]
        exact decides
    · have here : index = (group.proposers server).inst := last.trans caughtUp.symm
      refine ⟨server, ?_⟩
      rw [Function.update_self]
      exact ⟨here ▸ grants, .inr ⟨here.trans frame.inst.symm, learnt, by simp [state]⟩⟩
  accepts := by
    intro msg member isAccept
    rw [broadcasts] at member
    exact (refines.accepts msg member isAccept).grow _

/-! ### Resolving an instance -/

/-- Recording the entry of the current instance. -/
theorem Replica.recorded {log : List Entry} {proposer : Proposer} {entry : Entry} {msg : Message}
    (replica : Replica log proposer) (count : proposer.logfile.length = proposer.inst)
    (found : log[proposer.inst]? = some entry) (learnt : proposer.Learnt entry)
    (client : msg.clientId = some entry.2) :
    (proposer.recorded msg).logfile.length = proposer.inst + 1 ∧
      (∀ index, (proposer.recorded msg).instanceResolutions.lookup index =
        (log.take (proposer.inst + 1))[index]?.map Entry.resolution) ∧
      ∀ index, (proposer.recorded msg).logfile[index]? =
        (log.take (proposer.inst + 1))[index]?.map fun entry => Entry.logLine entry index := by
  obtain ⟨command, learntClient⟩ := Prod.mk.inj learnt
  have older {index : ℕ} (different : index ≠ proposer.inst) :
      (log.take (proposer.inst + 1))[index]? = (log.take proposer.inst)[index]? := by
    rw [List.getElem?_take, List.getElem?_take]
    rcases Nat.lt_or_gt_of_ne different with below | above
    · rw [if_pos below, if_pos (Nat.lt_succ_of_lt below)]
    · rw [if_neg (by omega), if_neg (by omega)]
  have newest : (log.take (proposer.inst + 1))[proposer.inst]? = some entry := by
    rw [List.getElem?_take, if_pos (Nat.lt_succ_self _), found]
  refine ⟨by simp [Proposer.recorded, count], ?_, ?_⟩
  · intro index
    by_cases same : index = proposer.inst
    · subst same
      rw [newest]
      simp [Proposer.recorded, command, client, Entry.resolution]
    · rw [older same, ← count, ← replica.resolutions]
      simp [Proposer.recorded, AList.lookup_insert_ne same]
  · intro index
    by_cases same : index = proposer.inst
    · subst same
      rw [newest]
      simp [Proposer.recorded, ← count, command, learntClient, Entry.logLine]
    · rw [older same, ← count, ← replica.lines]
      rcases Nat.lt_or_gt_of_ne same with below | above
      · simp [Proposer.recorded, List.getElem?_append_left (count ▸ below)]
      · rw [List.getElem?_eq_none (by simp [Proposer.recorded]; omega),
          List.getElem?_eq_none (by omega)]

/-- The resolution of an instance is recorded but its execution fails. -/
theorem Refines.failed (refines : Refines cfg group ledger) {server : ℕ} {before : Proposer}
    {entry : Entry} {msg : Message} {error : Raised}
    (proposers : next.proposers =
      Function.update group.proposers server ((before.recorded msg).raise error))
    (broadcasts : next.broadcasts = group.broadcasts)
    (frame : Frame (group.proposers server) before) (running : before.status = .running)
    (found : ledger.log[before.inst]? = some entry) (learnt : before.Learnt entry)
    (client : msg.clientId = some entry.2)
    (result : executeCommand before.lockSet before.learntCommand = .error error) :
    Refines cfg next ledger := by
  have replica := (refines.replicas server).frame frame
    (fun _ => .inr ⟨entry, frame.inst ▸ found, learnt⟩)
    (fun _ => ⟨entry, frame.inst ▸ found, learnt⟩)
  have count : before.logfile.length = before.inst := by
    rcases replica.progress with ⟨count, _⟩ | ⟨_, _, _, _, status⟩
    · exact count
    · exact absurd (running.symm.trans status) (by simp)
  obtain ⟨length, resolutions, lines⟩ := replica.recorded count found learnt client
  have command := (Prod.mk.inj learnt).1
  rw [command] at result
  have assertion : error = .executeAssertion := executeCommand_error result
  have fails : lockService.apply before.lockSet entry = none := by
    simp [lockService, result, Except.toOption]
  refine ⟨?_, ?_, ?_, ?_⟩
  · intro other
    rw [refines.position, proposers]
    by_cases same : other = server
    · subst same
      rw [Function.update_self]
      exact frame.inst.symm
    · rw [Function.update_of_ne same]
  · intro other
    rw [proposers]
    by_cases same : other = server
    · subst same
      rw [Function.update_self]
      have inside := (List.getElem?_eq_some_iff.mp found).1
      refine ⟨replica.lockSet, .stuck entry found fails length ?_, ?_, ?_, ?_,
        fun _ => .inr ⟨entry, found, learnt⟩, fun _ => ⟨entry, found, learnt⟩⟩
      · rw [assertion]
        rfl
      · exact length ▸ inside
      · intro index
        rw [show ((before.recorded msg).raise error).logfile.length = _ from length]
        exact resolutions index
      · intro index
        rw [show ((before.recorded msg).raise error).logfile.length = _ from length]
        exact lines index
    · rw [Function.update_of_ne same]
      exact refines.replicas other
  · intro index other member
    obtain ⟨decider, decides⟩ := refines.decided index other member
    refine ⟨decider, ?_⟩
    rw [proposers]
    by_cases same : decider = server
    · subst same
      rw [Function.update_self]
      refine ⟨decides.grants.mono fun _ _ seen => seen.mono frame.history, ?_⟩
      rcases decides.keeps with earlier | ⟨here, _⟩
      · exact .inl (frame.inst ▸ earlier)
      · refine .inr ⟨here.trans frame.inst.symm, ?_, fun _ => by simp [Proposer.raise]⟩
        have same : other = entry := by
          rw [here, ← frame.inst, found] at member
          exact (Option.some.inj member).symm
        exact same ▸ learnt
    · rw [Function.update_of_ne same]
      exact decides
  · rw [broadcasts]
    exact refines.accepts

/-- The resolution of an instance is recorded and executed. -/
theorem Refines.executed (refines : Refines cfg group ledger) {server : ℕ} {before : Proposer}
    {entry : Entry} {msg : Message} {lockSet : List ℤ}
    (proposers : next.proposers =
      Function.update group.proposers server (before.executed msg lockSet))
    (broadcasts : next.broadcasts = group.broadcasts)
    (frame : Frame (group.proposers server) before) (running : before.status = .running)
    (resting : before.state = .IDLE ∨ before.state = .READY)
    (found : ledger.log[before.inst]? = some entry) (learnt : before.Learnt entry)
    (client : msg.clientId = some entry.2)
    (result : executeCommand before.lockSet before.learntCommand = .ok lockSet) :
    (Ledger.machine lockService).step ledger (.apply server) = some { ledger with
        position := Function.update ledger.position server (ledger.position server + 1) } ∧
      Refines cfg next { ledger with
        position := Function.update ledger.position server (ledger.position server + 1) } := by
  have replica := (refines.replicas server).frame frame
    (fun _ => .inr ⟨entry, frame.inst ▸ found, learnt⟩)
    (fun _ => ⟨entry, frame.inst ▸ found, learnt⟩)
  have count : before.logfile.length = before.inst := by
    rcases replica.progress with ⟨count, _⟩ | ⟨_, _, _, _, status⟩
    · exact count
    · exact absurd (running.symm.trans status) (by simp)
  obtain ⟨length, resolutions, lines⟩ := replica.recorded count found learnt client
  have inside := (List.getElem?_eq_some_iff.mp found).1
  have position : ledger.position server = before.inst := by
    rw [refines.position, frame.inst]
  have applied : lockService.replay (ledger.log.take (before.inst + 1)) = some lockSet := by
    rw [Service.replay_take_succ found replica.lockSet]
    have command := (Prod.mk.inj learnt).1
    rw [command] at result
    simp [lockService, result, Except.toOption]
  refine ⟨Ledger.apply_step (position ▸ inside) (by rw [position, applied]; rfl), ?_, ?_, ?_, ?_⟩
  · intro other
    rw [proposers]
    by_cases same : other = server
    · subst same
      simp only [Function.update_self, position]
      rfl
    · simp only [Function.update_of_ne same, refines.position]
  · intro other
    rw [proposers]
    by_cases same : other = server
    · subst same
      rw [Function.update_self]
      refine ⟨applied, .current length ?_, length ▸ inside, ?_, ?_, fun _ => .inl rfl, ?_⟩
      · simp only [Proposer.executed]
        split <;> simp [running]
      · intro index
        rw [show (before.executed msg lockSet).logfile.length = _ from length]
        exact resolutions index
      · intro index
        rw [show (before.executed msg lockSet).logfile.length = _ from length]
        exact lines index
      · intro accepting
        rcases resting with isIdle | isReady <;>
          simp [Proposer.executed, Proposer.recorded, *] at accepting
    · rw [Function.update_of_ne same]
      exact refines.replicas other
  · intro index other member
    obtain ⟨decider, decides⟩ := refines.decided index other member
    refine ⟨decider, ?_⟩
    rw [proposers]
    by_cases same : decider = server
    · subst same
      rw [Function.update_self]
      refine ⟨decides.grants.mono fun _ _ seen => seen.mono frame.history, .inl ?_⟩
      have passed : (before.executed msg lockSet).inst = before.inst + 1 := rfl
      have framed := frame.inst
      rcases decides.keeps with earlier | ⟨here, _⟩ <;> omega
    · rw [Function.update_of_ne same]
      exact decides
  · rw [broadcasts]
    exact refines.accepts

/-! ### One step -/

/-- A move that learns, decides and resolves nothing. -/
theorem Refines.quiet (refines : Refines cfg group ledger) {server : ℕ} {after : Proposer}
    (proposers : next.proposers = Function.update group.proposers server after)
    (busy : (group.proposers server).state ≠ .IDLE)
    (frame : Frame (group.proposers server) after)
    (command : after.learntCommand = (group.proposers server).learntCommand)
    (client : after.learntClient = (group.proposers server).learntClient)
    (own : after.ownEntry = (group.proposers server).ownEntry)
    (accepting : after.state = .ACCEPT ∨ after.state = .ACCEPTING →
      (group.proposers server).state = .ACCEPT ∨ (group.proposers server).state = .ACCEPTING)
    (idle : after.state = .IDLE → after.status ≠ .running)
    (accepts : ∀ msg ∈ next.broadcasts, msg ∈ group.broadcasts ∨
      (msg.msgType = .ACCEPT → CarriesDecided ledger.log msg)) : Refines cfg next ledger := by
  have replica := refines.replicas server
  have same (entry : Entry) : after.Learnt entry ↔ (group.proposers server).Learnt entry := by
    unfold Proposer.Learnt
    rw [command, client]
  refine refines.frame proposers frame (fun _ => ?_) (fun state => ?_)
    (fun entry _ learnt _ => (same entry).mpr learnt) (fun state => .inr (idle state)) accepts
  · simpa only [same, own] using replica.busy busy
  · simpa only [same] using replica.accepting (accepting state)

/-- An acknowledgement carries the client of the entry of its instance. -/
theorem Refines.ack_client (refines : Refines cfg group ledger) (wire : Wire cfg group)
    (replies : Replies cfg group) {server : ℕ} {msg : Message} {entry : Entry}
    (queued : msg ∈ group.proposerQueue server) (ack : CountedAck (group.proposers server) msg)
    (found : ledger.log[(group.proposers server).inst]? = some entry) :
    msg.clientId = some entry.2 := by
  obtain ⟨acceptor, request, answered⟩ :=
    replies.answers server msg (wire.sent_of_queued queued ack.kind) ack.kind
  rcases answered.kind with ⟨_, isAccept, _, client⟩ | ⟨isReply, _⟩
  · obtain ⟨index, decided, atIndex, there, contents⟩ := refines.accepts request
      (wire.requests acceptor request answered.sent (by simp [isAccept, acceptorMsgTypes]))
      isAccept
    have here : (group.proposers server).inst = index :=
      WithBot.coe_injective (ack.inst.symm.trans (answered.inst.trans atIndex))
    obtain rfl := Option.some.inj (found.symm.trans (here ▸ there))
    exact client.trans (Prod.mk.inj contents).2
  · rcases isReply with isAck | isNack
    · exact absurd (ack.msgType.symm.trans isAck) (by simp)
    · exact absurd (ack.msgType.symm.trans isNack) (by simp)

/-- A proposer wins PROPOSING and is not blocked. -/
private theorem Refines.won (refines : Refines cfg group ledger) (wire : Wire cfg group)
    (replies : Replies cfg group) {server address : ℕ} {msg : Message}
    (tally : ProposingTally cfg group.sent server
      (((group.proposers server).remember msg).countReply address msg))
    (proposers : next.proposers = Function.update group.proposers server
      { (((group.proposers server).remember msg).countReply address msg).learn with
        state := .ACCEPT })
    (broadcasts : next.broadcasts = group.broadcasts)
    (runs : group.proposerRuns cfg server)
    (state : (group.proposers server).state = .PROPOSING)
    (sent : (server, msg) ∈ group.sent)
    (many : cfg.groupSize / 2 < (group.proposers server).responseCnt + 1)
    (free : ¬ (((group.proposers server).remember msg).countReply address msg).learn.blocked) :
    ∃ actions final, (Ledger.machine lockService).runFrom ledger actions = some final ∧
      Refines cfg next final ∧ Grown cfg group ledger.log final.log := by
  set counted := ((group.proposers server).remember msg).countReply address msg with countedDef
  have replica := refines.replicas server
  have toCounted : Frame (group.proposers server) counted :=
    ⟨rfl, rfl, rfl, rfl, fun _ => List.mem_cons_of_mem _, .inl rfl⟩
  have toLearn : Frame (group.proposers server) { counted.learn with state := .ACCEPT } :=
    (toCounted.trans (.learn counted) (by obtain ⟨_, _, same⟩ := learn_eq counted; rw [same])).trans
      ⟨rfl, rfl, rfl, rfl, fun _ member => member, .inl rfl⟩ rfl
  have stay (entry : Entry) (found : ledger.log[(group.proposers server).inst]? = some entry)
      (learnt : counted.learn.Learnt entry) : Refines cfg next ledger := by
    refine refines.frame proposers toLearn (fun _ => .inr ⟨entry, found, learnt⟩)
      (fun _ => ⟨entry, found, learnt⟩) (fun other there _ _ => ?_) (fun isIdle => by cases isIdle)
      (fun other member => .inl (broadcasts ▸ member))
    obtain rfl := Option.some.inj (found.symm.trans there)
    exact learnt
  rcases refines.learn wire replies tally with ⟨noNacks, same⟩ | ⟨entry, found, learnt⟩
  · cases found : ledger.log[(group.proposers server).inst]? with
    | some entry =>
        obtain ⟨decider, decides⟩ := refines.decided _ entry found
        obtain ⟨grants, total, granted⟩ := tally.grants
        have majority : Majority cfg.acceptorIds (counted.Seen (IsGrant · counted.inst)) := by
          refine granted.fewer ?_
          rw [noNacks, List.length_nil, Nat.add_zero] at total
          have one : counted.responseCnt = (group.proposers server).responseCnt + 1 := rfl
          rw [Finset.card_range]
          omega
        have received : ∀ other, other.signature ∈ counted.msgHistory →
            (server, other) ∈ group.sent := by
          intro other member
          rcases List.mem_cons.mp member with isMsg | old
          · exact Message.signature_injective isMsg ▸ sent
          · exact (wire.sent_of_seen old).1
        have unique : decider = server := decides.decider_unique wire replies majority received
        rw [unique] at decides
        rcases decides.keeps with earlier | ⟨_, learnt, _⟩
        · exact absurd earlier (lt_irrefl _)
        · exact ⟨[], ledger, rfl, stay entry found (by rw [same]; exact learnt), .same⟩
    | none =>
        have own : counted.learn.Learnt counted.learn.ownEntry := by
          rw [same]
          rcases replica.busy (by simp [state]) with own | ⟨entry, there, _⟩
          · exact own
          · exact absurd (found.symm.trans there) (by simp)
        have caughtUp : (group.proposers server).inst = ledger.log.length :=
          le_antisymm replica.inst_le (List.getElem?_eq_none_iff.mp found)
        obtain ⟨grants, total, granted⟩ := tally.grants
        have majority : Majority cfg.acceptorIds
            (counted.Seen (IsGrant · (group.proposers server).inst)) := by
          refine granted.fewer ?_
          rw [noNacks, List.length_nil, Nat.add_zero] at total
          have one : counted.responseCnt = (group.proposers server).responseCnt + 1 := rfl
          rw [Finset.card_range]
          omega
        have admitted : Ledger.Admitted lockService ledger.log counted.learn.ownEntry := by
          refine ⟨(group.proposers server).lockSet, ?_, fun isLock held => free ?_⟩
          · have applied := replica.lockSet
            rwa [caughtUp, List.take_length] at applied
          · refine ⟨(Proposer.ownLearnt_iff _).mpr own, isLock, ?_⟩
            rw [(Frame.learn counted).lockSet]
            exact held
        refine ⟨[.append server counted.learn.ownEntry], _, Machine.runFrom_cons
          (Ledger.append_step ((refines.position server).trans caughtUp) admitted) rfl, ?_⟩
        have granted := majority.mono fun _ _ seen => seen.mono (Frame.learn counted).history
        have appended := refines.append proposers broadcasts toLearn rfl own caughtUp granted
        refine ⟨appended, ?_⟩
        have own : counted.learn.ownEntry = (group.proposers server).ownEntry := by
          rw [same]
          rfl
        exact own ▸ .decided server runs state caughtUp
  · exact ⟨[], ledger, rfl, stay entry found learnt, .same⟩

/-- A resolution is one entry applied, or a failed execution. -/
private theorem Refines.resolve (refines : Refines cfg group ledger) (wire : Wire cfg group)
    (replies : Replies cfg group) {server : ℕ} {msg : Message} {state : ProposerState}
    (proposers : next.proposers = Function.update group.proposers server
      (((group.proposers server).won cfg.groupSize msg state).resolve msg))
    (broadcasts : next.broadcasts = group.broadcasts)
    (running : (group.proposers server).status = .running)
    (waits : (group.proposers server).state = .ACCEPTING)
    (resting : state = .IDLE ∨ state = .READY) (queued : msg ∈ group.proposerQueue server)
    (ack : CountedAck (group.proposers server) msg) :
    ∃ actions final, (Ledger.machine lockService).runFrom ledger actions = some final ∧
      Refines cfg next final ∧ Grown cfg group ledger.log final.log := by
  obtain ⟨entry, found, learnt⟩ := (refines.replicas server).accepting (.inr waits)
  have client := refines.ack_client wire replies queued ack found
  have frame : Frame (group.proposers server)
      ((group.proposers server).won cfg.groupSize msg state) :=
    ⟨rfl, rfl, rfl, rfl, fun _ => List.mem_cons_of_mem _, .inl rfl⟩
  rcases resolve_cases ((group.proposers server).won cfg.groupSize msg state) msg with
    ⟨error, result, same⟩ | ⟨lockSet, result, same⟩
  · rw [same] at proposers
    exact ⟨[], ledger, rfl, refines.failed proposers broadcasts frame running found learnt client
      result, .same⟩
  · rw [same] at proposers
    obtain ⟨applied, refined⟩ := refines.executed proposers broadcasts frame running resting found
      learnt client result
    exact ⟨[.apply server], _, Machine.runFrom_cons applied rfl, refined, .same⟩

/-- A move of a proposer is at most one action of the ledger. -/
private theorem Refines.move (refines : Refines cfg group ledger) (wire : Wire cfg group)
    (replies : Replies cfg group) (tally : Tally cfg group) {server : ℕ}
    {queue : List Message} {taken : Option Message} {result : Proposer × Output}
    (runs : group.proposerRuns cfg server)
    (queued : ∀ msg ∈ taken, msg ∈ group.proposerQueue server)
    (move : ProposerMove cfg.groupSize server (group.proposers server) taken result) :
    ∃ actions final, (Ledger.machine lockService).runFrom ledger actions = some final ∧
      Refines cfg ((group.setProposerQueue server queue).commit server result) final ∧
      Grown cfg group ledger.log final.log := by
  set next := (group.setProposerQueue server queue).commit server result with nextDef
  have proposers : next.proposers = Function.update group.proposers server result.1 := by
    simp [nextDef]
  have broadcasts : next.broadcasts = group.broadcasts ++ result.2.broadcasts := by
    simp [nextDef]
  have replica := refines.replicas server
  have running := runs.2.2
  have stay (refined : Refines cfg next ledger) :
      ∃ actions final, (Ledger.machine lockService).runFrom ledger actions = some final ∧
        Refines cfg next final ∧ Grown cfg group ledger.log final.log :=
    ⟨[], ledger, rfl, refined, .same⟩
  have same : Frame (group.proposers server) (group.proposers server) := .refl _
  have silent (quiet : result.2.broadcasts = []) : next.broadcasts = group.broadcasts := by
    rw [broadcasts, quiet, List.append_nil]
  have older (quiet : result.2.broadcasts = []) : ∀ msg ∈ next.broadcasts,
      msg ∈ group.broadcasts ∨ (msg.msgType = .ACCEPT → CarriesDecided ledger.log msg) :=
    fun msg member => .inl (silent quiet ▸ member)
  cases move with
  | ready fails state =>
      refine stay (refines.quiet proposers (by simp [state])
        ⟨rfl, rfl, rfl, rfl, fun _ member => member, .inl rfl⟩ rfl rfl rfl
        (by simp [Proposer.ready]) (by simp [Proposer.ready]) fun msg member => ?_)
      rw [broadcasts] at member
      refine (List.mem_append.mp member).imp_right fun new isAccept => ?_
      obtain rfl := List.mem_singleton.mp new
      simp [Proposer.prepareMsg] at isAccept
  | accept fails state present =>
      refine stay (refines.quiet proposers (by simp [state])
        ⟨rfl, rfl, rfl, rfl, fun _ member => member, .inl rfl⟩ rfl rfl rfl
        (fun _ => .inl state) (by simp) fun msg member => ?_)
      rw [broadcasts] at member
      refine (List.mem_append.mp member).imp_right fun new _ => ?_
      obtain rfl := List.mem_singleton.mp new
      obtain ⟨entry, found, learnt⟩ := replica.accepting (.inl state)
      exact ⟨_, entry, rfl, found, learnt⟩
  | acceptRaised state missing =>
      exact stay (refines.quiet proposers (by simp [state])
        (.raise _ _ running (by simp)) rfl rfl rfl (fun still => still)
        (by simp [Proposer.raise, state]) (older rfl))
  | proposingTimeout state | acceptingTimeout state =>
      exact stay (refines.quiet proposers (by simp [state])
        ⟨rfl, rfl, rfl, rfl, fun _ member => member, .inl rfl⟩ rfl rfl rfl
        (by simp [Proposer.abandon, Proposer.acceptingTimeout])
        (by simp [Proposer.abandon, Proposer.acceptingTimeout]) (older rfl))
  | proposing address msg state after outcome =>
      have busy : (group.proposers server).state ≠ .IDLE := by simp [state]
      cases outcome with
      | refused | exited =>
          exact stay (refines.quiet proposers busy
            ⟨rfl, rfl, rfl, rfl, fun _ member => member, .inl rfl⟩ rfl rfl rfl
            (by simp [Proposer.abandon]) (by simp [Proposer.abandon]) (older rfl))
      | unchanged =>
          exact stay (refines.quiet proposers busy same rfl rfl rfl (fun still => still)
            (fun idle => absurd idle busy) (older rfl))
      | passed =>
          exact stay (refines.quiet proposers busy (.remember _ msg) rfl rfl rfl
            (fun still => still) (fun idle => absurd idle busy) (older rfl))
      | raised =>
          exact stay (refines.quiet proposers busy (.raise _ _ running (by simp)) rfl rfl rfl
            (fun still => still) (fun idle => absurd idle busy) (older rfl))
      | counted =>
          exact stay (refines.quiet proposers busy
            ⟨rfl, rfl, rfl, rfl, fun _ => List.mem_cons_of_mem _, .inl rfl⟩ rfl rfl rfl
            (fun still => still) (fun idle => absurd idle busy) (older rfl))
      | blocked reply many held =>
          have counted := (tally.proposing server state).count wire replies (queued msg rfl) reply
            address
          set proposer := ((group.proposers server).remember msg).countReply address msg
          have frame : Frame (group.proposers server) (proposer.learn.abandon cfg.groupSize) := by
            obtain ⟨value, clientId, learnt⟩ := learn_eq proposer
            rw [learnt]
            exact ⟨rfl, rfl, rfl, rfl, fun _ => List.mem_cons_of_mem _, .inl rfl⟩
          rcases refines.learn wire replies counted with ⟨_, unchanged⟩ | ⟨entry, found, learnt⟩
          · rw [unchanged] at frame proposers
            exact stay (refines.quiet proposers busy frame rfl rfl rfl
              (by simp [Proposer.abandon]) (by simp [Proposer.abandon]) (older rfl))
          · refine stay (refines.frame proposers frame (fun _ => .inr ⟨entry, found, learnt⟩)
              (by simp [Proposer.abandon]) (fun other there _ _ => ?_)
              (by simp [Proposer.abandon]) (older rfl))
            obtain rfl := Option.some.inj (found.symm.trans there)
            exact learnt
      | won reply many free =>
          have counted := (tally.proposing server state).count wire replies (queued msg rfl) reply
            address
          exact refines.won wire replies counted proposers (silent rfl) runs state
            (wire.sent_of_queued (queued msg rfl) reply.kind) many free
  | accepting msg state result outcome =>
      have busy : (group.proposers server).state ≠ .IDLE := by simp [state]
      cases outcome with
      | unchanged =>
          exact stay (refines.quiet proposers busy same rfl rfl rfl (fun still => still)
            (fun idle => absurd idle busy) (older rfl))
      | passed =>
          exact stay (refines.quiet proposers busy (.remember _ msg) rfl rfl rfl
            (fun still => still) (fun idle => absurd idle busy) (older rfl))
      | exited =>
          exact stay (refines.quiet proposers busy
            ⟨rfl, rfl, rfl, rfl, fun _ member => member, .inl rfl⟩ rfl rfl rfl
            (fun still => still) (fun idle => absurd idle busy) (older rfl))
      | raisedLater later changed either =>
          rcases either with rfl | rfl
          · exact stay (refines.quiet proposers busy (.raise _ _ running (by simp)) rfl rfl rfl
              (fun still => still) (fun idle => absurd idle busy) (older rfl))
          · have frame : Frame (group.proposers server)
                (((group.proposers server).remember msg).raise .laterInstance) :=
              ⟨rfl, rfl, rfl, rfl, fun _ => List.mem_cons_of_mem _,
                .inr ⟨running, by simp [Proposer.raise], by simp [Proposer.raise]⟩⟩
            exact stay (refines.quiet proposers busy frame rfl rfl rfl
              (fun still => still) (fun idle => absurd idle busy) (older rfl))
      | raisedOther =>
          exact stay (refines.quiet proposers busy (.raise _ _ running (by simp)) rfl rfl rfl
            (fun still => still) (fun idle => absurd idle busy) (older rfl))
      | counted =>
          exact stay (refines.quiet proposers busy
            ⟨rfl, rfl, rfl, rfl, fun _ => List.mem_cons_of_mem _, .inl rfl⟩ rfl rfl rfl
            (fun still => still) (fun idle => absurd idle busy) (older rfl))
      | lost error ack many own kind =>
          have notAssertion : error ≠ .executeAssertion := by
            rcases kind with rfl | ⟨rfl, _⟩ <;> simp
          exact stay (refines.quiet proposers busy
            ⟨rfl, rfl, rfl, rfl, fun _ => List.mem_cons_of_mem _, .inr ⟨running,
              by simp [Proposer.raise], by simpa [Proposer.raise] using notAssertion⟩⟩
            rfl rfl rfl (by simp [Proposer.raise, Proposer.won])
            (fun _ => by simp [Proposer.raise]) (older rfl))
      | own ack many =>
          exact refines.resolve wire replies proposers (silent rfl) running state (.inl rfl)
            (queued msg rfl) ack
      | other ack many =>
          exact refines.resolve wire replies proposers (silent rfl) running state (.inr rfl)
            (queued msg rfl) ack

/-- A step of the group is at most one action of the ledger. -/
theorem Refines.matched (refines : Refines cfg group ledger) (wire : Wire cfg group)
    (replies : Replies cfg group) (tally : Tally cfg group)
    (transition : Transition cfg group label next) :
    ∃ actions final, (Ledger.machine lockService).runFrom ledger actions = some final ∧
      Refines cfg next final ∧ Grown cfg group ledger.log final.log := by
  cases transition with
  | network next move =>
      exact ⟨[], ledger, rfl, refines.keep_same move.proposers move.broadcasts, .same⟩
  | clientSend | clientRecv | acceptor =>
      exact ⟨[], ledger, rfl, refines.keep_same rfl rfl, .same⟩
  | acceptClient server index runs idle | closeClient server index runs idle =>
      exact ⟨[], ledger, rfl, refines.frame rfl
        ⟨rfl, rfl, rfl, rfl, fun _ member => member, .inl rfl⟩
        (fun state => absurd idle state) (by simp [idle]) (fun _ _ learnt _ => learnt)
        (fun _ => .inl idle) fun _ => .inl, .same⟩
  | idleExit server msg rest runs idle =>
      exact ⟨[], ledger, rfl, refines.frame rfl
        ⟨rfl, rfl, rfl, rfl, fun _ member => member, .inr ⟨runs.2.2, by simp, by simp⟩⟩
        (fun state => absurd idle state) (by simp [idle]) (fun _ _ learnt _ => learnt)
        (fun _ => .inl idle) fun _ => .inl, .same⟩
  | recvClient server index command runs idle =>
      exact ⟨[], ledger, rfl, refines.frame rfl
        ⟨rfl, rfl, rfl, rfl, fun _ member => member, .inl rfl⟩ (fun _ => .inl rfl)
        (by simp [Proposer.receiveCommand]) (fun _ _ _ settled => absurd runs.2.2 (settled idle))
        (fun _ => .inl idle) fun _ => .inl, .same⟩
  | proposer server queue taken result runs fewer queued move =>
      exact refines.move wire replies tally runs queued move

/-- Every run of the group is a run of the ledger, and what each pair of matching
steps keeps holds at the end of both. -/
theorem refines_run {property : Group → Ledger Entry → Prop}
    (start : property cfg.initial (Ledger.machine lockService).init)
    (keep : ∀ group ledger label next final, cfg.Reachable group → Refines cfg group ledger →
      property group ledger → group.step cfg label = some next → Refines cfg next final →
      Grown cfg group ledger.log final.log → property next final)
    {labels : List Label} (run : cfg.machine.Run labels group) :
    ∃ actions ledger, (Ledger.machine lockService).Run actions ledger ∧
      Refines cfg group ledger ∧ property group ledger := by
  have matched : ∀ state image label next, cfg.machine.Reachable state →
      (Ledger.machine lockService).Reachable image →
      (Refines cfg state image ∧ property state image) →
      cfg.machine.step state label = some next → ∃ final,
        (Ledger.machine lockService).Leads (fun _ => True) image final ∧
          Refines cfg next final ∧ property next final := by
    intro state image label next reached _ ⟨refines, holds⟩ taken
    obtain ⟨actions, final, actionsRun, refined, grown⟩ := refines.matched (wire_reachable reached)
      (replies_reachable reached) (tally_reachable reached) (transition_of_step taken)
    exact ⟨final, ⟨actions, actionsRun, fun _ _ => trivial⟩, refined,
      keep state image label next final reached refines holds taken refined grown⟩
  have simulated : ∃ actions ledger, (Ledger.machine lockService).Run actions ledger ∧
      (∀ used ∈ actions, True) ∧ Refines cfg group ledger ∧ property group ledger := by
    refine Machine.Run.simulate ?_ matched run
    exact ⟨Refines.initial cfg, start⟩
  obtain ⟨actions, ledger, ledgerRun, _, holds⟩ := simulated
  exact ⟨actions, ledger, ledgerRun, holds⟩

/-- Every reachable state refines a sound ledger. -/
theorem refines_reachable (reached : cfg.Reachable group) :
    ∃ ledger, Ledger.Sound lockService ledger ∧ Refines cfg group ledger := by
  obtain ⟨labels, run⟩ := reached
  have simulated : ∃ actions ledger, (Ledger.machine lockService).Run actions ledger ∧
      Refines cfg group ledger ∧ True :=
    refines_run trivial (fun _ _ _ _ _ _ _ _ _ _ _ => trivial) run
  obtain ⟨actions, ledger, ledgerRun, refines, _⟩ := simulated
  exact ⟨ledger, Ledger.sound_reachable ⟨actions, ledgerRun⟩, refines⟩

/-! ### The log of one proposer -/

/-- `instance_resolutions` in the order of the instances. -/
def Proposer.log (proposer : Proposer) : List (Value × Option ℤ) :=
  (proposer.instanceResolutions.keys.insertionSort (· ≤ ·)).filterMap fun index =>
    proposer.instanceResolutions.lookup index

/-- A proposer has recorded a beginning of the common log. -/
theorem Replica.log_eq {log : List Entry} {proposer : Proposer} (replica : Replica log proposer) :
    proposer.log = (log.take proposer.logfile.length).map Entry.resolution := by
  have recorded (index : ℕ) : index ∈ proposer.instanceResolutions.keys ↔
      index ∈ List.range proposer.logfile.length := by
    rw [← AList.mem_keys, ← AList.lookup_isSome, replica.resolutions, List.mem_range,
      Option.isSome_map, List.getElem?_take]
    have bound := replica.bound
    by_cases inside : index < proposer.logfile.length
    · simp [inside, Nat.lt_of_lt_of_le inside bound]
    · simp [inside]
  have keys : proposer.instanceResolutions.keys.insertionSort (· ≤ ·) =
      List.range proposer.logfile.length := by
    refine List.Perm.eq_of_pairwise' (List.pairwise_insertionSort (· ≤ ·) _)
      List.pairwise_le_range ?_
    refine (List.perm_insertionSort _ _).trans ?_
    exact (List.perm_ext_iff_of_nodup (AList.keys_nodup _) List.nodup_range).mpr recorded
  have length : ((log.take proposer.logfile.length).map Entry.resolution).length =
      proposer.logfile.length := by
    simpa using replica.bound
  have collected := filterMap_range_getElem?
    ((log.take proposer.logfile.length).map Entry.resolution)
  rw [length] at collected
  unfold Proposer.log
  rw [keys]
  simpa only [replica.resolutions, List.getElem?_map] using collected

theorem Replica.log_getElem? {log : List Entry} {proposer : Proposer}
    (replica : Replica log proposer) (index : ℕ) :
    proposer.log[index]? = proposer.instanceResolutions.lookup index := by
  rw [replica.log_eq, List.getElem?_map, replica.resolutions]

theorem Replica.log_length {log : List Entry} {proposer : Proposer}
    (replica : Replica log proposer) : proposer.log.length = proposer.logfile.length := by
  rw [replica.log_eq]
  simpa using replica.bound

/-! ### Agreement -/

/-- What a proposer has recorded for an instance is the entry of the log. -/
theorem Refines.resolution (refines : Refines cfg group ledger) {server index : ℕ}
    {value : Value × Option ℤ}
    (recorded : (group.proposers server).instanceResolutions.lookup index = some value) :
    ∃ entry, ledger.log[index]? = some entry ∧ value = Entry.resolution entry := by
  rw [(refines.replicas server).resolutions index, List.getElem?_take] at recorded
  split at recorded
  · obtain ⟨entry, found, rfl⟩ := Option.map_eq_some_iff.mp recorded
    exact ⟨entry, found, rfl⟩
  · cases recorded

/-- Two proposers that have recorded a resolution for one instance have recorded
the same command and client. -/
theorem resolutions_agree (reached : cfg.Reachable group) {first second index : ℕ}
    {left right : Value × Option ℤ}
    (leftRecorded : (group.proposers first).instanceResolutions.lookup index = some left)
    (rightRecorded : (group.proposers second).instanceResolutions.lookup index = some right) :
    left = right := by
  obtain ⟨ledger, _, refines⟩ := refines_reachable reached
  obtain ⟨entry, found, rfl⟩ := refines.resolution leftRecorded
  obtain ⟨other, there, rfl⟩ := refines.resolution rightRecorded
  rw [Option.some.inj (found.symm.trans there)]

/-- A group of three with two clients that lock resource 7. -/
def twoLocks : Config := .connected 3 2 lockSeven lockSeven_created

/-- Server 0 resolves instance 0; server 1 then learns the same entry from the
PREPARE_NACK of server 2 and resolves it too. -/
def learntRun : List Label :=
  [.acceptClient 0 0, .clientSend 0, .recvClient 0, .send 0 [], .connection 0 .keep,
    .connection 0 .keep, .acceptor 1 true, .acceptor 2 true, .connection 0 .keep,
    .connection 0 .keep, .get 0 0 false, .get 0 1 false, .send 0 [], .connection 0 .keep,
    .connection 0 .keep, .acceptor 1 true, .acceptor 2 true, .connection 0 .keep,
    .connection 0 .keep, .get 0 0 false, .get 0 1 false,
    .acceptClient 1 1, .clientSend 1, .recvClient 1, .send 1 [], .connection 0 .keep,
    .connection 0 .keep, .acceptor 0 true, .acceptor 2 true, .connection 0 .keep,
    .connection 0 .keep, .get 1 0 false, .get 1 1 false, .send 1 [], .connection 0 .keep,
    .connection 0 .keep, .acceptor 0 true, .acceptor 2 true, .connection 0 .keep,
    .connection 0 .keep, .get 1 0 false, .get 1 1 false]

/-- Both have recorded instance 0. -/
theorem resolutions_agree_learnt : ∃ left right,
    ((twoLocks.after learntRun).proposers 0).instanceResolutions.lookup 0 = some left ∧
      ((twoLocks.after learntRun).proposers 1).instanceResolutions.lookup 0 = some right ∧
        left = right := by
  have first : ((twoLocks.after learntRun).proposers 0).instanceResolutions.lookup 0 =
      some (Entry.resolution (⟨.LOCK, 7⟩, 0)) := by decide
  have second : ((twoLocks.after learntRun).proposers 1).instanceResolutions.lookup 0 =
      some (Entry.resolution (⟨.LOCK, 7⟩, 0)) := by decide
  exact ⟨_, _, first, second, resolutions_agree (Config.reachable_after _ _) first second⟩

end Log

end CSE550.Paxos
