import CSE550.Paxos.Accepted
import CSE550.Paxos.Clients

/-!
Owns how a proposer comes up to the instance of another server when nothing more
is lost: an idle one reads a command of its client, and one that is behind resolves
the instances that the other server has passed, with the values that a majority has
accepted.

Does not own what a proposer does at its instance.
-/

namespace CSE550.Paxos

open CSE550.Lib

/-! ### Who can come -/

/-- The idle server can read the command of the client. -/
structure Unread (cfg : Config) (group : Group) (server index : ℕ) (command : Command) :
    Prop where
  next : (cfg.commands index)[(group.clients index).read]? = some command
  sent : (group.clients index).read < (group.clients index).sent
  place : (group.proposers server).client = some index ∨
    ((group.proposers server).client = none ∧ index < cfg.clientCount ∧
      cfg.clientServer index = server ∧ (group.clients index).connection = .waiting)

/-- A running proposer that has the client's command or can read it. -/
inductive HasTask (cfg : Config) (group : Group) (server : ℕ) (entry : Entry) : Prop
  | busy (runs : group.proposerRuns cfg server) (busy : (group.proposers server).state ≠ .IDLE)
      (own : (group.proposers server).ownEntry = entry)
  | idle (runs : group.proposerRuns cfg server) (idle : (group.proposers server).state = .IDLE)
      (index : ℕ) (unread : Unread cfg group server index entry.1)
      (client : cfg.clientId index = entry.2)

/-- The helper can come to the server's instance with the entry: it is there or behind
with a majority of available acceptors, and the entry is none of those that the server
has recorded since. -/
structure Climbs (cfg : Config) (group : Group) (server helper : ℕ) (entry : Entry) : Prop where
  task : HasTask cfg group helper entry
  notAbove : (group.proposers helper).inst ≤ (group.proposers server).inst
  majority : (group.proposers helper).inst < (group.proposers server).inst →
    Majority cfg.acceptorIds (Available cfg helper group)
  foreign : ∀ index, (group.proposers helper).inst ≤ index →
    index < (group.proposers server).inst →
      (group.proposers server).instanceResolutions.lookup index ≠ some (Entry.resolution entry)

/-! ### What the others keep -/

theorem Links.refl (group : Group) : Links group group :=
  ⟨fun _ => rfl, rfl, fun _ => rfl, fun _ => rfl, rfl⟩

theorem Links.trans {first second third : Group} (left : Links first second)
    (right : Links second third) : Links first third where
  connections := fun server => (right.connections server).trans (left.connections server)
  stopped := right.stopped.trans left.stopped
  acceptorStatus := fun acceptor =>
    (right.acceptorStatus acceptor).trans (left.acceptorStatus acceptor)
  acceptorConnections := fun acceptor =>
    (right.acceptorConnections acceptor).trans (left.acceptorConnections acceptor)
  acceptorQueue := right.acceptorQueue.trans left.acceptorQueue

/-- The proposer keeps its task; an idle one does not move. -/
structure Rested (before after : Proposer) : Prop where
  task : SameTask before after
  idle : before.state = .IDLE → after = before

theorem Rested.trans {first second third : Proposer} (left : Rested first second)
    (right : Rested second third) : Rested first third where
  task := left.task.trans right.task
  idle := by
    intro isIdle
    have same := left.idle isIdle
    exact (right.idle (by rwa [same])).trans same

theorem Carries.rested {before after : Group} (carries : Carries before after) (server : ℕ) :
    Rested (before.proposers server) (after.proposers server) :=
  ⟨carries.task server, carries.idle server⟩

/-- Only the helper has gone on: the others keep their tasks and their clients, and the
acceptors their records of the instance. -/
structure Alone (cfg : Config) (helper inst : ℕ) (before after : Group) : Prop where
  continues : cfg.Continues before after
  links : Links before after
  others : ∀ other ≠ helper, Rested (before.proposers other) (after.proposers other)
  clients : ∀ index, cfg.clientServer index ≠ helper → after.clients index = before.clients index
  records : ∀ acceptor, (after.acceptors acceptor).acceptHistory.lookup (inst : WithBot ℕ) =
    (before.acceptors acceptor).acceptHistory.lookup (inst : WithBot ℕ)

theorem Alone.refl (cfg : Config) (helper inst : ℕ) (group : Group) :
    Alone cfg helper inst group group :=
  ⟨.refl _, .refl _, fun _ _ => ⟨.refl _, fun _ => rfl⟩, fun _ _ => rfl, fun _ => rfl⟩

theorem Alone.trans {cfg : Config} {helper inst : ℕ} {first second third : Group}
    (left : Alone cfg helper inst first second) (right : Alone cfg helper inst second third) :
    Alone cfg helper inst first third where
  continues := left.continues.trans right.continues
  links := left.links.trans right.links
  others := fun other away => (left.others other away).trans (right.others other away)
  clients := fun index away => (right.clients index away).trans (left.clients index away)
  records := fun acceptor => (right.records acceptor).trans (left.records acceptor)

section Climb

variable {cfg : Config} {group before after : Group} {server helper inst : ℕ} {entry : Entry}

/-- A proposer serves clients of its own server. -/
theorem served_at_home (reached : cfg.Reachable group) {index : ℕ}
    (serving : (group.proposers server).client = some index) : cfg.clientServer index = server := by
  revert server index
  refine @Machine.Reachable.invariant _ _ _ (fun state => ∀ {server index : ℕ},
    (state.proposers server).client = some index → cfg.clientServer index = server) ?_ ?_ _ reached
  · intro server index serving
    cases serving
  intro state label next _ home taken server index serving
  have onlyIn {other : ℕ} {changed : Proposer}
      (own : changed.client = some index → cfg.clientServer index = other)
      (updated : (Function.update state.proposers other changed server).client = some index) :
      cfg.clientServer index = server := by
    by_cases same : server = other
    · subst same
      rw [Function.update_self] at updated
      exact own updated
    · rw [Function.update_of_ne same] at updated
      exact home updated
  cases transition_of_step taken with
  | network _ move => exact home (move.proposers ▸ serving)
  | clientSend | clientRecv | acceptor => exact home serving
  | acceptClient other accepted runs idle free known target =>
      refine onlyIn (fun own => ?_) serving
      obtain rfl := Option.some.inj own
      exact target
  | closeClient other => exact onlyIn (by simp) serving
  | recvClient other | idleExit other =>
      refine onlyIn ?_ serving
      exact fun own => home own
  | proposer other queue found result runs fewer queued move =>
      rw [Group.commit_proposers] at serving
      exact onlyIn (fun own => home (move.client.2.1.client ▸ own)) serving

theorem HasTask.keep (task : HasTask cfg before helper entry) (reached : cfg.Reachable before)
    (links : Links before after)
    (rested : Rested (before.proposers helper) (after.proposers helper))
    (clients : ∀ index, cfg.clientServer index = helper →
      after.clients index = before.clients index) : HasTask cfg after helper entry := by
  have runsOn (runs : before.proposerRuns cfg helper) : after.proposerRuns cfg helper := by
    rcases runs with ⟨known, up, running⟩
    exact ⟨known, by rw [links.stopped, up], by rw [rested.task.status, running]⟩
  cases task with
  | busy runs busy own =>
      exact .busy (runsOn runs) (rested.task.busy busy) (rested.task.ownEntry.trans own)
  | idle runs idle index unread client =>
      have same := rested.idle idle
      have home : cfg.clientServer index = helper := by
        rcases unread.place with serving | ⟨_, _, home, _⟩
        · exact served_at_home reached serving
        · exact home
      refine .idle (runsOn runs) (by rwa [same]) index ⟨?_, ?_, ?_⟩ client
      · rw [clients index home]
        exact unread.next
      · rw [clients index home]
        exact unread.sent
      · rw [same, clients index home]
        exact unread.place

/-- The help stays as long as the server and the helper keep their tasks. -/
theorem Climbs.keep (climbs : Climbs cfg before server helper entry)
    (reached : cfg.Reachable before) (links : Links before after)
    (own : SameTask (before.proposers server) (after.proposers server))
    (rested : Rested (before.proposers helper) (after.proposers helper))
    (clients : ∀ index, cfg.clientServer index = helper →
      after.clients index = before.clients index) : Climbs cfg after server helper entry where
  task := climbs.task.keep reached links rested clients
  notAbove := by
    rw [own.inst, rested.task.inst]
    exact climbs.notAbove
  majority := by
    rw [own.inst, rested.task.inst]
    exact fun behind => (climbs.majority behind).mono fun _ _ available => available.stays links
  foreign := by
    rw [own.inst, own.resolutions, rested.task.inst]
    exact climbs.foreign

/-! ### An idle proposer reads a command -/

/-- The server has the command, at the instance where it was idle. -/
structure Reads (cfg : Config) (server : ℕ) (entry : Entry) (before after : Group) : Prop where
  alone : ∀ inst, Alone cfg server inst before after
  runs : after.proposerRuns cfg server
  busy : (after.proposers server).state ≠ .IDLE
  inst : (after.proposers server).inst = (before.proposers server).inst
  own : (after.proposers server).ownEntry = entry

/-- A step of an idle proposer with its client. -/
theorem alone_of_client {index : ℕ} {client : Client} {proposer : Proposer} {label : Label}
    (taken : cfg.machine.step group label =
      some ((group.setClient index client).setProposer server proposer))
    (progress : label.isProgress = true) (home : cfg.clientServer index = server)
    (connections : proposer.serverConnections = (group.proposers server).serverConnections)
    (inst : ℕ) :
    Alone cfg server inst group ((group.setClient index client).setProposer server proposer) where
  continues := .step taken progress
  links := by
    refine ⟨fun other => ?_, rfl, fun _ => rfl, fun _ => rfl, rfl⟩
    by_cases same : other = server
    · subst same
      simpa [Group.setProposer] using connections
    · simp [Group.setProposer, Group.setClient, same]
  others := by
    intro other away
    have unchanged : ((group.setClient index client).setProposer server proposer).proposers other =
        group.proposers other := Function.update_of_ne away _ _
    rw [unchanged]
    exact ⟨.refl _, fun _ => rfl⟩
  clients := by
    intro other away
    have different : other ≠ index := by
      rintro rfl
      exact away home
    exact Function.update_of_ne different _ _
  records := fun _ => rfl

/-- A proposer with a connected client reads the command. -/
theorem reads_served {index : ℕ} (reached : cfg.Reachable group)
    (runs : group.proposerRuns cfg server) (idle : (group.proposers server).state = .IDLE)
    (serving : (group.proposers server).client = some index)
    (next : (cfg.commands index)[(group.clients index).read]? = some entry.1)
    (sent : (group.clients index).read < (group.clients index).sent)
    (client : cfg.clientId index = entry.2) :
    ∃ after, Reads cfg server entry group after := by
  have taken : cfg.machine.step group (.recvClient server) =
      some ((group.setClient index
        { group.clients index with read := (group.clients index).read + 1 }).setProposer server
          ((group.proposers server).receiveCommand entry.1 (cfg.clientId index))) := by
    simp only [Config.machine, Group.step, serving, next]
    exact if_pos ⟨runs, idle, sent⟩
  refine ⟨_, alone_of_client taken rfl (served_at_home reached serving) rfl, ?_, ?_, ?_, ?_⟩
  · simpa [Group.proposerRuns, Group.setProposer, Group.setClient, Proposer.receiveCommand]
      using runs
  · simp [Group.setProposer, Proposer.receiveCommand]
  · simp [Group.setProposer, Proposer.receiveCommand]
  · simp [Group.setProposer, Proposer.receiveCommand, Proposer.ownEntry, client]

theorem Unread.read {index : ℕ} (unread : Unread cfg group server index entry.1)
    (reached : cfg.Reachable group) (runs : group.proposerRuns cfg server)
    (idle : (group.proposers server).state = .IDLE) (client : cfg.clientId index = entry.2) :
    ∃ after, Reads cfg server entry group after := by
  rcases unread.place with serving | ⟨free, known, home, waits⟩
  · exact reads_served reached runs idle serving unread.next unread.sent client
  -- the client is still waiting for its connection
  have taken : cfg.machine.step group (.acceptClient server index) =
      some ((group.setClient index
        { group.clients index with connection := .serving }).setProposer server
          { group.proposers server with client := some index }) := by
    simp only [Config.machine, Group.step]
    exact if_pos ⟨runs, idle, free, known, home, waits⟩
  obtain ⟨middle, accepts, proposer, waiting⟩ : ∃ middle,
      (∀ inst, Alone cfg server inst group middle) ∧
      middle.proposers server = { group.proposers server with client := some index } ∧
      middle.clients index = { group.clients index with connection := .serving } :=
    ⟨_, alone_of_client taken rfl home rfl, Function.update_self _ _ _,
      Function.update_self index _ group.clients⟩
  have links := (accepts 0).links
  have runsOn : middle.proposerRuns cfg server := by
    rcases runs with ⟨inside, up, running⟩
    exact ⟨inside, by rw [links.stopped, up], by rw [proposer, running]⟩
  rcases reads_served ((accepts 0).continues.reachable reached) runsOn (by rw [proposer, idle])
      (by rw [proposer]) (by rw [waiting]; exact unread.next) (by rw [waiting]; exact unread.sent)
      client with ⟨after, reads⟩
  refine ⟨after, fun inst => (accepts inst).trans (reads.alone inst), reads.runs, reads.busy, ?_,
    reads.own⟩
  rw [reads.inst, proposer]

/-! ### A proposer that is behind resolves an instance -/

/-- The value of an instance that another server has passed can be executed. -/
theorem executes_passed (reached : cfg.Reachable group) (server : ℕ)
    (accepting : (group.proposers helper).state = .ACCEPTING)
    (behind : (group.proposers helper).inst < (group.proposers server).inst) :
    ∃ entry lockSet, (group.proposers helper).Learnt entry ∧
      (group.proposers server).instanceResolutions.lookup (group.proposers helper).inst =
        some (Entry.resolution entry) ∧
      executeCommand (group.proposers helper).lockSet (.command entry.1) = .ok lockSet := by
  rcases refines_reachable reached with ⟨ledger, _, refines⟩
  have ahead := refines.replicas server
  have own := refines.replicas helper
  rcases own.accepting (.inr accepting) with ⟨entry, found, learnt⟩
  have legal :
      (lockService.replay (ledger.log.take (group.proposers server).inst)).isSome = true := by
    rw [ahead.lockSet]
    rfl
  have inside : (ledger.log.take (group.proposers server).inst)[(group.proposers helper).inst]? =
      some entry := by
    rw [List.getElem?_take, if_pos behind, found]
  have replayed : lockService.replay ((ledger.log.take (group.proposers server).inst).take
      (group.proposers helper).inst) = some (group.proposers helper).lockSet := by
    rw [List.take_take, min_eq_left behind.le]
    exact own.lockSet
  rcases executes_next legal inside replayed with ⟨lockSet, executes, _⟩
  have within : (group.proposers helper).inst < (group.proposers server).logfile.length := by
    rcases ahead.progress with ⟨count, _⟩ | ⟨_, _, _, count, _⟩
    · omega
    · omega
  refine ⟨entry, lockSet, learnt, ?_, executes⟩
  rw [ahead.resolutions, List.getElem?_take, if_pos within, found]
  rfl

/-- The helper has gone on by one instance, with the same command. -/
structure Rises (cfg : Config) (helper inst : ℕ) (before after : Group) : Prop where
  alone : Alone cfg helper inst before after
  runs : after.proposerRuns cfg helper
  busy : (after.proposers helper).state ≠ .IDLE
  next : (after.proposers helper).inst = (before.proposers helper).inst + 1
  own : (after.proposers helper).ownEntry = (before.proposers helper).ownEntry

/-- A resolution with an entry of another client. -/
theorem EndsResolved.rises (ends : EndsResolved cfg helper before after)
    (reached : cfg.Reachable before) (runs : before.proposerRuns cfg helper)
    (behind : (before.proposers helper).inst < (before.proposers server).inst)
    (foreign : (before.proposers server).instanceResolutions.lookup
      (before.proposers helper).inst ≠ some (Entry.resolution (before.proposers helper).ownEntry)) :
    Rises cfg helper (before.proposers server).inst before after := by
  have continues := ends.continues
  rcases ends with ⟨last, msg, rest, goes, accepting, queue, ack, step, elsewhere, concluded⟩
  have task := goes.carries.task helper
  have ahead := goes.carries.task server
  rcases executes_passed (goes.continues.reachable reached) server accepting
      (by rw [task.inst, ahead.inst]; exact behind) with
    ⟨entry, lockSet, learnt, recorded, executes⟩
  have notOwn : ¬ (last.proposers helper).ownLearnt := by
    intro own
    obtain rfl := learnt.unique ((Proposer.ownLearnt_iff _).mp own)
    rw [task.inst, task.ownEntry, ahead.resolutions] at recorded
    exact foreign recorded
  have executed : after.proposers helper =
      ((last.proposers helper).won cfg.groupSize msg .READY).executed msg lockSet := by
    rw [concluded, Proposer.concluded, if_neg notOwn]
    exact resolve_ok (by exact learnt) (by exact executes) msg
  rcases Group.step_get_iff.mp step with ⟨other, later, result, _, _, takes, rfl⟩
  have silent : result.2.acks = [] := by
    cases takes with
    | proposing proposing => exact absurd (proposing.symm.trans accepting) (by decide)
    | accepting state =>
        have move : ProposerMove cfg.groupSize helper (last.proposers helper) (some other) _ :=
          .accepting other state _ (accepting_outcome cfg.groupSize helper _ other false)
        cases move.client.2.2 with
        | quiet _ _ none => exact none
        | resolved _ _ _ _ _ _ _ kind =>
            rcases kind with ⟨own, _⟩ | ⟨_, _, none⟩
            · exact absurd own notOwn
            · exact none
  have links := goes.carries.links
  refine ⟨⟨continues, links.trans ⟨fun other => ?_, by simp, by simp, by simp, by simp⟩,
    fun other away => ?_, fun index away => ?_, fun acceptor => elsewhere acceptor _ ?_⟩,
    ?_, ?_, ?_, ?_⟩
  · by_cases same : other = helper
    · subst same
      rw [executed]
      rfl
    · simp [same]
  · refine (goes.carries.rested other).trans ?_
    rw [Group.commit_proposers, Function.update_of_ne away]
    exact ⟨.refl _, fun _ => rfl⟩
  · rw [Group.commit_clients, silent, ← goes.carries.clients]
    split <;> simp [Group.setProposerQueue]
  · exact fun same => absurd (WithBot.coe_injective same) behind.ne'
  · rcases runs with ⟨inside, up, running⟩
    refine ⟨inside, ?_, ?_⟩
    · rw [Group.commit_stopped]
      exact (congrFun links.stopped helper).trans up
    · rw [executed]
      simp [Proposer.executed, Proposer.recorded, Proposer.won, Proposer.remember, task.status,
        running]
  · rw [executed]
    simp [Proposer.executed, Proposer.recorded, Proposer.won]
  · rw [executed, ← task.inst]
    rfl
  · rw [executed, ← task.ownEntry]
    rfl

/-- With a majority of available acceptors, a proposer that is behind another server
resolves its instance. -/
theorem Busy.rise (busy : Busy cfg helper group)
    (behind : (group.proposers helper).inst < (group.proposers server).inst)
    (majority : Majority cfg.acceptorIds (Available cfg helper group))
    (foreign : (group.proposers server).instanceResolutions.lookup
      (group.proposers helper).inst ≠ some (Entry.resolution (group.proposers helper).ownEntry)) :
    ∃ after, Rises cfg helper (group.proposers server).inst group after := by
  rcases (resolved_accepted busy.reached server behind).intersect majority with
    ⟨acceptor, _, accepted, available⟩
  rcases majority with ⟨chosen, _, enough, all⟩
  rw [Finset.card_range] at enough
  rcases busy.conclude available accepted chosen.nodup_toList
      (by rw [Finset.length_toList]; omega) (fun other member =>
        all other (Finset.mem_toList.mp member)) with ⟨final, ends⟩
  exact ⟨final, ends.rises busy.reached busy.runs behind foreign⟩

/-! ### All the way -/

/-- The helper has come to the instance with the command. -/
structure Arrives (cfg : Config) (helper inst : ℕ) (entry : Entry) (before after : Group) :
    Prop where
  alone : Alone cfg helper inst before after
  busy : Busy cfg helper after
  inst : (after.proposers helper).inst = inst
  own : (after.proposers helper).ownEntry = entry

/-- One instance higher the help is as before. -/
theorem Climbs.rises (climbs : Climbs cfg before server helper entry)
    (behind : (before.proposers helper).inst < (before.proposers server).inst)
    (own : (before.proposers helper).ownEntry = entry)
    (rises : Rises cfg helper (before.proposers server).inst before after) :
    (after.proposers server).inst = (before.proposers server).inst ∧
      Climbs cfg after server helper entry := by
  have away : server ≠ helper := by
    rintro rfl
    exact lt_irrefl _ behind
  have ahead := (rises.alone.others server away).task
  refine ⟨ahead.inst, .busy rises.runs rises.busy (rises.own.trans own), ?_, fun _ => ?_, ?_⟩
  · rw [ahead.inst, rises.next]
    exact behind
  · exact (climbs.majority behind).mono fun _ _ available => available.stays rises.alone.links
  · rw [ahead.inst, ahead.resolutions, rises.next]
    exact fun index above below => climbs.foreign index (by omega) below

/-- A helper with its command comes to the server's instance. -/
theorem Climbs.arrives (climbs : Climbs cfg group server helper entry)
    (busy : Busy cfg helper group) (own : (group.proposers helper).ownEntry = entry) :
    ∃ after, Arrives cfg helper (group.proposers server).inst entry group after := by
  obtain ⟨count, distance⟩ : ∃ count,
      (group.proposers helper).inst + count = (group.proposers server).inst :=
    ⟨_, Nat.add_sub_cancel' climbs.notAbove⟩
  induction count generalizing group with
  | zero => exact ⟨group, .refl _ _ _ _, busy, distance, own⟩
  | succ count inductionHypothesis =>
      have behind : (group.proposers helper).inst < (group.proposers server).inst := by omega
      rcases busy.rise behind (climbs.majority behind)
          (by rw [own]; exact climbs.foreign _ le_rfl behind) with ⟨middle, rises⟩
      rcases climbs.rises behind own rises with ⟨same, climbsOn⟩
      have reached := rises.alone.continues.reachable busy.reached
      rcases inductionHypothesis climbsOn ⟨reached, rises.runs, rises.busy⟩ (rises.own.trans own)
          (by rw [rises.next, same]; omega) with ⟨after, arrives⟩
      rw [same] at arrives
      exact ⟨after, rises.alone.trans arrives.alone, arrives.busy, arrives.inst, arrives.own⟩

/-- A continuation in which the server keeps its task and every helper stays one. -/
structure Advances (cfg : Config) (server : ℕ) (before after : Group) : Prop where
  continues : cfg.Continues before after
  links : Links before after
  task : SameTask (before.proposers server) (after.proposers server)
  climbs : ∀ helper, (∃ entry, Climbs cfg before server helper entry) →
    ∃ entry, Climbs cfg after server helper entry

theorem Advances.refl (cfg : Config) (server : ℕ) (group : Group) :
    Advances cfg server group group := ⟨.refl _, .refl _, .refl _, fun _ => id⟩

theorem Advances.trans {first second third : Group} (left : Advances cfg server first second)
    (right : Advances cfg server second third) : Advances cfg server first third where
  continues := left.continues.trans right.continues
  links := left.links.trans right.links
  task := left.task.trans right.task
  climbs := fun helper climbs => right.climbs helper (left.climbs helper climbs)

theorem Goes.advances (goes : Goes cfg before after) (reached : cfg.Reachable before)
    (server : ℕ) : Advances cfg server before after where
  continues := goes.continues
  links := goes.carries.links
  task := goes.carries.task server
  climbs := by
    rintro helper ⟨entry, climbs⟩
    exact ⟨entry, climbs.keep reached goes.carries.links (goes.carries.task server)
      (goes.carries.rested helper) fun _ _ => by rw [goes.carries.clients]⟩

/-- Another server that has come to the server's instance. -/
theorem Arrives.advances (arrives : Arrives cfg helper (before.proposers server).inst entry before
      after)
    (reached : cfg.Reachable before) (away : server ≠ helper) :
    Advances cfg server before after where
  continues := arrives.alone.continues
  links := arrives.alone.links
  task := (arrives.alone.others server away).task
  climbs := by
    have ahead := (arrives.alone.others server away).task
    rintro other ⟨wanted, climbs⟩
    by_cases same : other = helper
    · subst same
      have here : (after.proposers other).inst = (after.proposers server).inst := by
        rw [arrives.inst, ahead.inst]
      refine ⟨entry, .busy arrives.busy.runs arrives.busy.busy arrives.own, here.le, ?_, ?_⟩
      · exact fun behind => absurd here behind.ne
      · intro index above below
        omega
    · exact ⟨wanted, climbs.keep reached arrives.alone.links ahead
        (arrives.alone.others other same) fun index home =>
          arrives.alone.clients index (home ▸ same)⟩

/-- The helper is at the server's instance with its command, and the server and the
other helpers can go on as before. -/
structure Comes (cfg : Config) (server helper : ℕ) (entry : Entry) (before after : Group) :
    Prop where
  advances : Advances cfg server before after
  busy : Busy cfg helper after
  inst : (after.proposers helper).inst = (after.proposers server).inst
  own : (after.proposers helper).ownEntry = entry
  records : ∀ acceptor, (after.acceptors acceptor).acceptHistory.lookup
      ((after.proposers server).inst : WithBot ℕ) =
    (before.acceptors acceptor).acceptHistory.lookup ((after.proposers server).inst : WithBot ℕ)

theorem Arrives.comes (arrives : Arrives cfg helper (before.proposers server).inst entry before
      after)
    (reached : cfg.Reachable before) (away : server ≠ helper) :
    Comes cfg server helper entry before after := by
  have advances := arrives.advances reached away
  refine ⟨advances, arrives.busy, ?_, arrives.own, ?_⟩
  · rw [arrives.inst, advances.task.inst]
  · rw [advances.task.inst]
    exact arrives.alone.records

/-- Who can come to the server's instance does so. -/
theorem Climbs.comes (climbs : Climbs cfg group server helper entry)
    (busyServer : Busy cfg server group) : ∃ after, Comes cfg server helper entry group after := by
  cases climbs.task with
  | busy runs busy own =>
      have helperBusy : Busy cfg helper group := ⟨busyServer.reached, runs, busy⟩
      by_cases same : server = helper
      · subst same
        exact ⟨group, .refl _ _ _, helperBusy, rfl, own, fun _ => rfl⟩
      · rcases climbs.arrives helperBusy own with ⟨after, arrives⟩
        exact ⟨after, arrives.comes busyServer.reached same⟩
  | idle runs idle index unread client =>
      have away : server ≠ helper := by
        rintro rfl
        exact busyServer.busy idle
      rcases unread.read busyServer.reached runs idle client with ⟨middle, reads⟩
      have alone := reads.alone (group.proposers server).inst
      have ahead := (alone.others server away).task
      have reached := alone.continues.reachable busyServer.reached
      have climbsOn : Climbs cfg middle server helper entry := by
        refine ⟨.busy reads.runs reads.busy reads.own, ?_, ?_, ?_⟩
        · rw [reads.inst, ahead.inst]
          exact climbs.notAbove
        · rw [reads.inst, ahead.inst]
          exact fun behind =>
            (climbs.majority behind).mono fun _ _ available => available.stays alone.links
        · rw [reads.inst, ahead.inst, ahead.resolutions]
          exact climbs.foreign
      rcases climbsOn.arrives ⟨reached, reads.runs, reads.busy⟩ reads.own with ⟨after, arrives⟩
      rw [ahead.inst] at arrives
      have whole : Arrives cfg helper (group.proposers server).inst entry group after :=
        ⟨alone.trans arrives.alone, arrives.busy, arrives.inst, arrives.own⟩
      exact ⟨after, whole.comes busyServer.reached away⟩

end Climb

end CSE550.Paxos
