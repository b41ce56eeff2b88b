import CSE550.Paxos.Replay
import CSE550.Paxos.Rounds

/-!
Owns what a group without faults can do: every schedule of the clients'
commands that one lock server could execute is the log of some run, in which no
message is lost or copied, nobody stops and every command is acknowledged.

A server that serves a command first learns and resolves the entries the others
have decided since its last one, then has its own entry accepted.
-/

namespace CSE550.Paxos

open CSE550.Lib

/-! ### Between commands -/

/-- The servers and acceptors of a quiet group against the log: each server has
recorded and executed a beginning of it, a majority of the acceptors has
accepted each of its entries, and nobody has asked for a later instance. -/
structure Stable (cfg : Config) (log : List Entry) (group : Group) : Prop where
  quiet : Quiet cfg group
  bound : ∀ server, (group.proposers server).inst ≤ log.length
  recorded : ∀ server index entry, log[index]? = some entry →
    index < (group.proposers server).inst →
      (group.proposers server).instanceResolutions.lookup index = some (Entry.resolution entry)
  lockSet : ∀ server, lockService.replay (log.take (group.proposers server).inst) =
    some (group.proposers server).lockSet
  complete : ∀ index < log.length, ∃ server < cfg.groupSize,
    index < (group.proposers server).inst
  settled : ∀ acceptor (index : WithBot ℕ) record,
    (group.acceptors acceptor).acceptHistory.lookup index = some record → record.accp ≠ noNumber
  accepted : ∀ index : ℕ, index < log.length →
    Majority cfg.acceptorIds (HasAccepted group · index)
  fresh : ∀ acceptor (index : ℕ), log.length ≤ index → Unseen group acceptor index

section Stable

variable {cfg : Config} {log : List Entry} {group after : Group} {server inst : ℕ}

/-- A majority of the other servers. -/
def Config.others (cfg : Config) (server : ℕ) : List ℕ :=
  ((List.range cfg.groupSize).erase server).take (cfg.groupSize / 2 + 1)

theorem Config.others_length {cfg : Config} {server : ℕ} (three : 3 ≤ cfg.groupSize)
    (known : server < cfg.groupSize) : (cfg.others server).length = cfg.groupSize / 2 + 1 := by
  have length := List.length_erase_of_mem (List.mem_range.mpr known)
  rw [List.length_range] at length
  rw [Config.others, List.length_take, length]
  omega

theorem Stable.electorate (stable : Stable cfg log group) (three : 3 ≤ cfg.groupSize)
    (known : server < cfg.groupSize) (inst : ℕ) :
    Electorate cfg server inst (cfg.others server) group where
  distinct := (List.nodup_range.erase _).sublist (List.take_sublist _ _)
  inside := by
    intro acceptor member
    obtain ⟨different, inRange⟩ := List.nodup_range.mem_erase_iff.mp (List.mem_of_mem_take member)
    exact ⟨List.mem_range.mp inRange, different⟩
  enough := Config.others_length three known
  settled := fun acceptor _ record found => stable.settled acceptor inst record found

/-- One of the others has accepted an entry of the log. -/
theorem Stable.accepted_by_other (stable : Stable cfg log group) (three : 3 ≤ cfg.groupSize)
    (known : server < cfg.groupSize) (inside : inst < log.length) :
    ∃ acceptor ∈ cfg.others server, HasAccepted group acceptor inst := by
  have electorate := stable.electorate three known inst
  have many : Majority cfg.acceptorIds (· ∈ cfg.others server) := by
    refine ⟨(cfg.others server).toFinset, ?_, ?_, by simp⟩
    · intro acceptor member
      exact Finset.mem_range.mpr (electorate.inside acceptor (List.mem_toFinset.mp member)).1
    · rw [List.toFinset_card_of_nodup electorate.distinct, electorate.enough, Finset.card_range]
  obtain ⟨acceptor, _, accepted, member⟩ := (stable.accepted inst inside).intersect many
  exact ⟨acceptor, member, accepted⟩

/-- A command that can be executed is no LOCK of a held resource. -/
theorem free_of_executes {lockSet next : List ℤ} {command : Command}
    (executes : executeCommand lockSet (.command command) = .ok next) :
    ¬ (command.commandType = .LOCK ∧ command.resourceId ∈ lockSet) := by
  rintro ⟨isLock, held⟩
  simp [executeCommand, isLock, held] at executes

theorem getElem?_of_initial {log longer : List Entry} {index : ℕ} {entry : Entry}
    (grown : log <+: longer) (inside : index < log.length) (found : longer[index]? = some entry) :
    log[index]? = some entry := by
  obtain ⟨more, rfl⟩ := grown
  rwa [List.getElem?_append_left inside] at found

/-- The round of a server that resolves its instance with an entry of the log, or
with the next one. -/
theorem Stable.concluded {longer : List Entry} {quorum : List ℕ} {entry : Entry}
    {lockSet : List ℤ} (stable : Stable cfg log group) (known : server < cfg.groupSize)
    (electorate : Electorate cfg server inst quorum group)
    (works : Works cfg server inst quorum group after) (quiet : Quiet cfg after)
    (concluded : Concluded server inst entry lockSet group after)
    (accepts : ∀ acceptor ∈ quorum, HasAccepted after acceptor inst)
    (atInst : (group.proposers server).inst = inst) (grown : log <+: longer)
    (found : longer[inst]? = some entry) (short : longer.length ≤ max log.length (inst + 1))
    (replayed : lockService.replay (longer.take (inst + 1)) = some lockSet) :
    Stable cfg longer after := by
  have long := grown.length_le
  have inside : inst < longer.length := (List.getElem?_eq_some_iff.mp found).1
  have bound := stable.bound server
  have shared {index : ℕ} (below : index ≤ log.length) : longer.take index = log.take index := by
    obtain ⟨more, rfl⟩ := grown
    exact List.take_append_of_le_length below
  have beyond {index : ℕ} (within : index < longer.length) (outside : log.length ≤ index) :
      index = inst := by omega
  refine ⟨quiet, fun other => ?_, fun other index recorded there earlier => ?_, fun other => ?_,
    fun index within => ?_, fun acceptor index record there => ?_, fun index within => ?_,
    fun acceptor index outside => ?_⟩
  · by_cases same : other = server
    · rw [same, concluded.inst]
      exact inside
    · rw [works.others other same]
      exact (stable.bound other).trans long
  · by_cases same : other = server
    · subst same
      rw [concluded.inst] at earlier
      rw [concluded.resolutions]
      by_cases here : index = inst
      · subst here
        obtain rfl := Option.some.inj (there.symm.trans found)
        exact AList.lookup_insert _
      · rw [AList.lookup_insert_ne here]
        exact stable.recorded other index recorded
          (getElem?_of_initial grown (by omega) there) (by omega)
    · rw [works.others other same] at earlier ⊢
      have below := stable.bound other
      exact stable.recorded other index recorded
        (getElem?_of_initial grown (by omega) there) earlier
  · by_cases same : other = server
    · rw [same, concluded.inst, concluded.lockSet]
      exact replayed
    · rw [works.others other same, shared (stable.bound other)]
      exact stable.lockSet other
  · by_cases old : index < log.length
    · obtain ⟨other, inGroup, has⟩ := stable.complete index old
      by_cases same : other = server
      · refine ⟨server, known, ?_⟩
        rw [concluded.inst]
        rw [same] at has
        omega
      · exact ⟨other, inGroup, by rw [works.others other same]; exact has⟩
    · refine ⟨server, known, ?_⟩
      rw [concluded.inst]
      exact (beyond within (by omega)).le.trans_lt (Nat.lt_succ_self _)
  · by_cases here : index = (inst : WithBot ℕ)
    · by_cases member : acceptor ∈ quorum
      · obtain ⟨other, known, something⟩ := accepts acceptor member
        rw [here] at there
        rw [Option.some.inj (there.symm.trans known)]
        exact something
      · rw [works.untouched acceptor member] at there
        exact stable.settled acceptor index record there
    · rw [works.records acceptor index here] at there
      exact stable.settled acceptor index record there
  · by_cases here : index = inst
    · subst here
      refine ⟨quorum.toFinset, ?_, ?_, fun acceptor member =>
        accepts acceptor (List.mem_toFinset.mp member)⟩
      · intro acceptor member
        exact Finset.mem_range.mpr (electorate.inside acceptor (List.mem_toFinset.mp member)).1
      · rw [List.toFinset_card_of_nodup electorate.distinct, electorate.enough, Finset.card_range]
    · have old : index < log.length := by
        by_contra outside
        exact here (beyond within (by omega))
      refine AtLeast.mono (stable.accepted index old) fun acceptor _ accepted => ?_
      unfold HasAccepted
      rw [works.records acceptor index fun same => here (WithBot.coe_injective same)]
      exact accepted
  · have away : index ≠ inst := by omega
    unfold Unseen
    rw [works.records acceptor index fun same => away (WithBot.coe_injective same)]
    exact stable.fresh acceptor index (by omega)

end Stable

/-! ### One command -/

/-- The server has the command of its client to propose, and none of the entries it
has not recorded is that command. -/
structure Turn (cfg : Config) (log : List Entry) (server : ℕ) (own : Entry) (group : Group) :
    Prop where
  stable : Stable cfg log group
  ready : (group.proposers server).state = .READY
  isOwn : (group.proposers server).ownEntry = own
  learnt : (group.proposers server).Learnt own
  foreign : ∀ (index : ℕ) entry, (group.proposers server).inst ≤ index →
    log[index]? = some entry → entry ≠ own

/-- The server has executed its command and acknowledged it. -/
structure Acknowledges (cfg : Config) (server : ℕ) (before after : Group) : Prop where
  continues : cfg.Continues before after
  others : ∀ other ≠ server, after.proposers other = before.proposers other
  idle : (after.proposers server).state = .IDLE
  client : (after.proposers server).client = (before.proposers server).client
  clients : ∃ ack, ∀ index, after.clients index =
    if (before.proposers server).client = some index then
      { before.clients index with acks := (before.clients index).acks ++ [ack] }
    else before.clients index

section Turn

variable {cfg : Config} {log : List Entry} {group : Group} {server : ℕ} {own : Entry}

/-- A server behind the log resolves the next entry of it. -/
theorem Turn.catchUp (turn : Turn cfg log server own group) (three : 3 ≤ cfg.groupSize)
    (known : server < cfg.groupSize) (legal : (lockService.replay log).isSome = true)
    (behind : (group.proposers server).inst < log.length) :
    ∃ after, cfg.Continues group after ∧
      (∀ other ≠ server, after.proposers other = group.proposers other) ∧
      Turn cfg log server own after ∧
      (after.proposers server).inst = (group.proposers server).inst + 1 ∧
      (after.proposers server).client = (group.proposers server).client ∧
      after.clients = group.clients := by
  have stable := turn.stable
  have electorate := stable.electorate three known (group.proposers server).inst
  obtain ⟨entry, found⟩ : ∃ entry, log[(group.proposers server).inst]? = some entry :=
    ⟨_, List.getElem?_eq_getElem behind⟩
  obtain ⟨lockSet, executes, replayed⟩ := executes_next legal found (stable.lockSet server)
  have notOwn := turn.foreign _ entry le_rfl found
  have isKnown : Known group server (group.proposers server).inst (cfg.others server) entry := by
    obtain ⟨other, _, has⟩ := stable.complete _ behind
    refine .inr ⟨other, ?_, stable.recorded other _ entry found has⟩
    rintro rfl
    exact absurd has (lt_irrefl _)
  obtain ⟨after, works, quiet, concluded, accepts⟩ := stable.quiet.round known turn.ready rfl
    electorate (.inl (stable.accepted_by_other three known behind)) isKnown
    (fun same => absurd (same.trans turn.isOwn) notOwn) executes
  have next := stable.concluded known electorate works quiet concluded accepts rfl
    List.prefix_rfl found (le_max_left _ _) replayed
  rcases concluded.goesOn with ⟨_, ready, clients⟩ | ⟨same, _⟩
  · have sameOwn := concluded.ownEntry.trans turn.isOwn
    refine ⟨after, works.continues, works.others, ⟨next, ready, sameOwn, ?_, ?_⟩, concluded.inst,
      concluded.client, clients⟩
    · exact sameOwn ▸ concluded.learnt
    · intro index other beyond there
      rw [concluded.inst] at beyond
      exact turn.foreign index other (by omega) there
  · exact absurd (same.trans turn.isOwn) notOwn

/-- A server that has executed the log has its own command decided. -/
theorem Turn.decide (turn : Turn cfg log server own group) (three : 3 ≤ cfg.groupSize)
    (known : server < cfg.groupSize) (legal : (lockService.replay (log ++ [own])).isSome = true)
    (caughtUp : (group.proposers server).inst = log.length) :
    ∃ after, Acknowledges cfg server group after ∧ Stable cfg (log ++ [own]) after ∧
      (after.proposers server).inst = log.length + 1 := by
  have stable := turn.stable
  have electorate := stable.electorate three known log.length
  have found : (log ++ [own])[log.length]? = some own := by simp
  have here := stable.lockSet server
  rw [caughtUp, List.take_length] at here
  obtain ⟨lockSet, executes, replayed⟩ := executes_next legal found
    (by rw [List.take_left']; exact here; rfl)
  have free : (group.proposers server).Free own := by
    intro _
    have isCommand : (group.proposers server).clientCommand = own.1 :=
      congrArg Prod.fst turn.isOwn
    rw [isCommand]
    exact free_of_executes executes
  obtain ⟨after, works, quiet, concluded, accepts⟩ := stable.quiet.round known turn.ready caughtUp
    electorate (.inr turn.learnt)
    (.inl fun acceptor _ => stable.fresh acceptor log.length le_rfl) free executes
  have next := stable.concluded known electorate works quiet concluded accepts caughtUp
    (List.prefix_append log [own]) found (by simp) replayed
  rcases concluded.goesOn with ⟨other, _⟩ | ⟨_, idle, clients⟩
  · exact absurd turn.isOwn.symm other
  · exact ⟨after, ⟨works.continues, works.others, idle, concluded.client, clients⟩, next,
      concluded.inst⟩

/-- A server with a command that can be executed after the log serves it. -/
theorem Turn.serve (turn : Turn cfg log server own group) (three : 3 ≤ cfg.groupSize)
    (known : server < cfg.groupSize) (legal : (lockService.replay (log ++ [own])).isSome = true) :
    ∃ after, Acknowledges cfg server group after ∧ Stable cfg (log ++ [own]) after ∧
      (after.proposers server).inst = log.length + 1 := by
  have older := replay_initial_isSome legal
  have rounds : ∀ (count : ℕ) (group : Group), Turn cfg log server own group →
      (group.proposers server).inst + count = log.length →
      ∃ after, Acknowledges cfg server group after ∧ Stable cfg (log ++ [own]) after ∧
        (after.proposers server).inst = log.length + 1 := by
    intro count
    induction count with
    | zero => exact fun group turn caughtUp => turn.decide three known legal caughtUp
    | succ count inductionHypothesis =>
        intro group turn behind
        obtain ⟨middle, continues, others, again, inst, client, clients⟩ :=
          turn.catchUp three known older (by omega)
        obtain ⟨after, acknowledges, stable, last⟩ := inductionHypothesis middle again (by omega)
        have acked := acknowledges.clients
        rw [client, clients] at acked
        exact ⟨after, ⟨continues.trans acknowledges.continues, fun other away =>
          (acknowledges.others other away).trans (others other away), acknowledges.idle,
          acknowledges.client.trans client, acked⟩, stable, last⟩
  have bound := turn.stable.bound server
  exact rounds (log.length - (group.proposers server).inst) group turn (by omega)

end Turn

/-! ### The clients -/

/-- Steps without a fault: nothing is lost or copied, nobody stops, no write fails and
no EXIT arrives. A wait on a queue may time out. -/
def Label.isFaultless : Label → Bool
  | .acceptClient _ _ | .recvClient _ | .clientSend _ | .clientRecv _ => true
  | label => label.isProgress

abbrev Config.Proceeds (cfg : Config) (group final : Group) : Prop :=
  cfg.machine.Leads (·.isFaultless = true) group final

theorem Config.Continues.proceeds {cfg : Config} {group final : Group}
    (continues : cfg.Continues group final) : cfg.Proceeds group final := by
  obtain ⟨labels, run, allowed⟩ := continues
  refine ⟨labels, run, fun used member => ?_⟩
  have isProgress := allowed used member
  cases used <;> simp_all [Label.isFaultless]

/-- The client has sent so many commands, all of them read, acknowledged and received. -/
structure Client.Caught (client : Client) (count : ℕ) : Prop where
  sent : client.sent = count
  read : client.read = count
  acks : client.acks.length = count
  got : client.got = count

/-- Between two commands of a schedule: every server is idle, every client has what it
has asked for, and the log is what the clients were served. -/
structure AtRest (cfg : Config) (served : ℕ → ℕ) (log : List Entry) (group : Group) : Prop where
  stable : Stable cfg log group
  idle : ∀ server, (group.proposers server).state = .IDLE
  caught : ∀ index < cfg.clientCount, (group.clients index).Caught (served index)
  connected : ∀ index < cfg.clientCount, ((group.clients index).connection = .waiting ∧
      (group.proposers (cfg.clientServer index)).client = none) ∨
    (group.proposers (cfg.clientServer index)).client = some index
  foreign : ∀ index < cfg.clientCount, ∀ (position : ℕ) entry,
    (group.proposers (cfg.clientServer index)).inst ≤ position →
      log[position]? = some entry → entry.2 ≠ cfg.clientId index

/-- A proposer that talks to its client. -/
structure Talks (before after : Proposer) : Prop where
  status : after.status = before.status
  done : after.done = before.done
  inst : after.inst = before.inst
  connections : after.serverConnections = before.serverConnections
  resolutions : after.instanceResolutions = before.instanceResolutions
  lockSet : after.lockSet = before.lockSet

theorem Talks.refl (proposer : Proposer) : Talks proposer proposer :=
  ⟨rfl, rfl, rfl, rfl, rfl, rfl⟩

section Clients

variable {cfg : Config} {log : List Entry} {group next : Group} {server index : ℕ}
  {served : ℕ → ℕ}

/-- Talking to clients leaves the servers and the log alone. -/
theorem Stable.talk {label : Label} (stable : Stable cfg log group)
    (taken : cfg.machine.step group label = some next)
    (proposers : ∀ server, Talks (group.proposers server) (next.proposers server))
    (acceptors : next.acceptors = group.acceptors) (stopped : next.stopped = group.stopped)
    (proposerQueue : next.proposerQueue = group.proposerQueue)
    (acceptorQueue : next.acceptorQueue = group.acceptorQueue) : Stable cfg log next where
  quiet :=
    { reached := stable.quiet.reached.step taken
      up := by rw [stopped]; exact stable.quiet.up
      running := fun server known => by
        rw [(proposers server).status]; exact stable.quiet.running server known
      alive := fun server known => by
        rw [(proposers server).done]; exact stable.quiet.alive server known
      reaches := fun server known => by
        rw [(proposers server).connections]; exact stable.quiet.reaches server known
      acceptors := by rw [acceptors]; exact stable.quiet.acceptors
      answers := by rw [acceptors]; exact stable.quiet.answers
      proposerQueue := by rw [proposerQueue]; exact stable.quiet.proposerQueue
      acceptorQueue := by rw [acceptorQueue]; exact stable.quiet.acceptorQueue }
  bound := fun server => by rw [(proposers server).inst]; exact stable.bound server
  recorded := fun server => by
    rw [(proposers server).inst, (proposers server).resolutions]; exact stable.recorded server
  lockSet := fun server => by
    rw [(proposers server).inst, (proposers server).lockSet]; exact stable.lockSet server
  complete := fun index inside => by
    obtain ⟨server, inGroup, has⟩ := stable.complete index inside
    exact ⟨server, inGroup, by rw [(proposers server).inst]; exact has⟩
  settled := by rw [acceptors]; exact stable.settled
  accepted := fun index inside => by
    refine AtLeast.mono (stable.accepted index inside) fun acceptor _ accepted => ?_
    unfold HasAccepted
    rw [acceptors]
    exact accepted
  fresh := fun acceptor index beyond => by
    unfold Unseen
    rw [acceptors]
    exact stable.fresh acceptor index beyond

/-- A step that changes one proposer as far as its client goes. -/
theorem Stable.talkTo {label : Label} {client : Client} {proposer : Proposer}
    (stable : Stable cfg log group)
    (taken : cfg.machine.step group label =
      some ((group.setClient index client).setProposer server proposer))
    (talks : Talks (group.proposers server) proposer) :
    Stable cfg log ((group.setClient index client).setProposer server proposer) := by
  refine stable.talk taken (fun other => ?_) rfl rfl rfl rfl
  by_cases same : other = server
  · subst same
    simpa using talks
  · simpa [same, Group.setClient] using Talks.refl _

/-- The clients connect to different servers of the group. -/
structure Config.OnOwnServers (cfg : Config) : Prop where
  inside : ∀ index < cfg.clientCount, cfg.clientServer index < cfg.groupSize
  apart : ∀ first < cfg.clientCount, ∀ second < cfg.clientCount,
    cfg.clientServer first = cfg.clientServer second → first = second

/-- A waiting client is accepted by its idle server. -/
theorem AtRest.connect (rest : AtRest cfg served log group) (own : cfg.OnOwnServers)
    (inside : index < cfg.clientCount) :
    ∃ after, cfg.Proceeds group after ∧ AtRest cfg served log after ∧
      (after.proposers (cfg.clientServer index)).client = some index := by
  rcases rest.connected index inside with ⟨waits, free⟩ | serving
  · have runs := rest.stable.quiet.proposerRuns (own.inside index inside)
    have taken : cfg.machine.step group (.acceptClient (cfg.clientServer index) index) =
        some ((group.setClient index { group.clients index with
          connection := .serving }).setProposer (cfg.clientServer index)
            { group.proposers (cfg.clientServer index) with client := some index }) :=
      if_pos ⟨runs, rest.idle _, free, inside, rfl, waits⟩
    have away {other : ℕ} (known : other < cfg.clientCount) (different : other ≠ index) :
        cfg.clientServer other ≠ cfg.clientServer index :=
      fun same => different (own.apart other known index inside same)
    have stable := rest.stable.talkTo taken ⟨rfl, rfl, rfl, rfl, rfl, rfl⟩
    refine ⟨_, .step taken rfl, ⟨stable, ?_, ?_, ?_, ?_⟩, by simp⟩
    · intro server
      exact (read_update Proposer.state (by rfl) server).trans (rest.idle server)
    · intro other known
      by_cases same : other = index
      · subst same
        have caught := rest.caught other known
        exact ⟨by simpa using caught.sent, by simpa using caught.read, by simpa using caught.acks,
          by simpa using caught.got⟩
      · simpa [same] using rest.caught other known
    · intro other known
      by_cases same : other = index
      · subst same
        exact .inr (by simp)
      · simpa [same, away known same, Group.setClient] using rest.connected other known
    · intro other known position entry beyond found
      refine rest.foreign other known position entry ?_ found
      by_cases same : other = index
      · subst same
        simpa using beyond
      · simpa [away known same, Group.setClient] using beyond
  · exact ⟨group, .refl group, rest, serving⟩

/-- A client sends its next command, and its server reads it. -/
theorem AtRest.request (rest : AtRest cfg served log group) (own : cfg.OnOwnServers)
    (inside : index < cfg.clientCount) {command : Command}
    (next : (cfg.commands index)[served index]? = some command)
    (serving : (group.proposers (cfg.clientServer index)).client = some index) :
    ∃ after, cfg.Proceeds group after ∧
      Turn cfg log (cfg.clientServer index) (command, cfg.clientId index) after ∧
      (∀ other ≠ cfg.clientServer index, after.proposers other = group.proposers other) ∧
      (after.proposers (cfg.clientServer index)).client = some index ∧
      after.clients = Function.update group.clients index { group.clients index with
        sent := served index + 1, read := served index + 1 } := by
  have caught := rest.caught index inside
  have more : served index < (cfg.commands index).length :=
    (List.getElem?_eq_some_iff.mp next).1
  have runs := rest.stable.quiet.proposerRuns (own.inside index inside)
  set server := cfg.clientServer index with isServer
  set sent : Group := group.setClient index
    { group.clients index with sent := (group.clients index).sent + 1 } with isSent
  have sends : cfg.machine.step group (.clientSend index) = some sent :=
    if_pos ⟨inside, caught.got.trans caught.sent.symm, by rw [caught.sent]; exact more⟩
  have stable : Stable cfg log sent :=
    rest.stable.talk sends (fun other => Talks.refl _) rfl rfl rfl rfl
  have reads : cfg.machine.step sent (.recvClient server) = some ((sent.setClient index
      { sent.clients index with read := (sent.clients index).read + 1 }).setProposer server
        ((group.proposers server).receiveCommand command (cfg.clientId index))) := by
    have found : (cfg.commands index)[(sent.clients index).read]? = some command := by
      simpa [isSent, caught.read] using next
    have client : (sent.proposers server).client = some index := serving
    have unread : (sent.clients index).read < (sent.clients index).sent := by
      simp [isSent, caught.read, caught.sent]
    simp only [Config.machine, Group.step, client, found]
    exact if_pos ⟨runs, rest.idle server, unread⟩
  have turned := stable.talkTo reads ⟨rfl, rfl, rfl, rfl, rfl, rfl⟩
  have first : cfg.Proceeds group sent := .step sends rfl
  refine ⟨_, first.trans (.step reads rfl), ⟨turned, ?_, ?_, ?_, ?_⟩, ?_, ?_, ?_⟩
  · simp [Proposer.receiveCommand]
  · simp [Proposer.receiveCommand, Proposer.ownEntry]
  · simp [Proposer.receiveCommand, Proposer.Learnt, Entry.resolution]
  · intro position entry beyond found same
    refine rest.foreign index inside position entry ?_ found (same ▸ rfl)
    simpa [Proposer.receiveCommand] using beyond
  · intro other away
    simp [away, isSent, Group.setClient]
  · simpa [Proposer.receiveCommand] using serving
  · simp [isSent, caught.read, caught.sent]

/-- A group at rest serves the next command of a client, when it can be executed after
the log. -/
theorem AtRest.serve (rest : AtRest cfg served log group) (three : 3 ≤ cfg.groupSize)
    (own : cfg.OnOwnServers) (distinct : cfg.DistinctIds) (inside : index < cfg.clientCount)
    {command : Command} (next : (cfg.commands index)[served index]? = some command)
    (legal : (lockService.replay (log ++ [(command, cfg.clientId index)])).isSome = true) :
    ∃ after, cfg.Proceeds group after ∧
      AtRest cfg (Function.update served index (served index + 1))
        (log ++ [(command, cfg.clientId index)]) after := by
  obtain ⟨connects, goes, restOn, serving⟩ := rest.connect own inside
  obtain ⟨asked, asks, turn, others, client, clients⟩ := restOn.request own inside next serving
  obtain ⟨acked, acknowledges, stable, inst⟩ := turn.serve three (own.inside index inside) legal
  obtain ⟨ack, acks⟩ := acknowledges.clients
  rw [client, clients] at acks
  have caught := restOn.caught index inside
  have mine : acked.clients index = { connects.clients index with
      sent := served index + 1, read := served index + 1,
      acks := (connects.clients index).acks ++ [ack] } := by
    rw [acks index, if_pos rfl, Function.update_self]
  have theirs {other : ℕ} (different : other ≠ index) :
      acked.clients other = connects.clients other := by
    rw [acks other, if_neg (fun same => different (Option.some.inj same).symm),
      Function.update_of_ne different]
  have away {other : ℕ} (known : other < cfg.clientCount) (different : other ≠ index) :
      acked.proposers (cfg.clientServer other) = connects.proposers (cfg.clientServer other) := by
    have apart : cfg.clientServer other ≠ cfg.clientServer index :=
      fun same => different (own.apart other known index inside same)
    rw [acknowledges.others _ apart, others _ apart]
  have receives : cfg.machine.step acked (.clientRecv index) = some (acked.setClient index
      { acked.clients index with got := (acked.clients index).got + 1 }) := by
    refine if_pos ⟨inside, ?_⟩
    rw [mine]
    simp [caught.got, caught.acks]
  have last : cfg.Proceeds acked _ := .step receives rfl
  refine ⟨_, ((goes.trans asks).trans acknowledges.continues.proceeds).trans last,
    stable.talk receives (fun other => Talks.refl _) rfl rfl rfl rfl, ?_, ?_, ?_, ?_⟩
  · intro server
    by_cases same : server = cfg.clientServer index
    · rw [same]
      exact acknowledges.idle
    · show (acked.proposers server).state = .IDLE
      rw [acknowledges.others server same, others server same]
      exact restOn.idle server
  · intro other known
    by_cases same : other = index
    · subst same
      rw [Function.update_self]
      refine ⟨?_, ?_, ?_, ?_⟩ <;> simp [mine, caught.acks, caught.got]
    · rw [Function.update_of_ne same]
      simpa [same, theirs same] using restOn.caught other known
  · intro other known
    by_cases same : other = index
    · subst same
      exact .inr (acknowledges.client.trans client)
    · simpa [same, theirs same, away known same, Group.setClient] using
        restOn.connected other known
  · intro other known position entry beyond found
    by_cases same : other = index
    · subst same
      have short := (List.getElem?_eq_some_iff.mp found).1
      change (acked.proposers (cfg.clientServer other)).inst ≤ position at beyond
      rw [inst] at beyond
      rw [List.length_append, List.length_singleton] at short
      omega
    · rcases getElem?_concat_cases found with ⟨_, old⟩ | ⟨_, rfl⟩
      · refine restOn.foreign other known position entry ?_ old
        rw [← away known same]
        exact beyond
      · exact fun equal => same (distinct index inside other known equal).symm

end Clients

/-! ### A schedule -/

/-- The entries of a schedule: each occurrence of a client stands for its next command. -/
def Config.entriesFrom (cfg : Config) (served : ℕ → ℕ) : List ℕ → List Entry
  | [] => []
  | index :: schedule =>
      match (cfg.commands index)[served index]? with
      | some command => (command, cfg.clientId index) ::
          cfg.entriesFrom (Function.update served index (served index + 1)) schedule
      | none => cfg.entriesFrom served schedule

/-- The log of a schedule from the start. -/
def Config.entries (cfg : Config) (schedule : List ℕ) : List Entry :=
  cfg.entriesFrom (fun _ => 0) schedule

section Schedule

variable {cfg : Config} {log : List Entry} {group : Group} {served : ℕ → ℕ}

theorem AtRest.run (rest : AtRest cfg served log group) (three : 3 ≤ cfg.groupSize)
    (own : cfg.OnOwnServers) (distinct : cfg.DistinctIds) {schedule : List ℕ}
    (known : ∀ index ∈ schedule, index < cfg.clientCount)
    (inFile : ∀ index < cfg.clientCount,
      served index + schedule.count index ≤ (cfg.commands index).length)
    (legal : (lockService.replay (log ++ cfg.entriesFrom served schedule)).isSome = true) :
    ∃ after, cfg.Proceeds group after ∧
      AtRest cfg (fun index => served index + schedule.count index)
        (log ++ cfg.entriesFrom served schedule) after := by
  induction schedule generalizing group log served with
  | nil => exact ⟨group, .refl group, by simpa [Config.entriesFrom] using rest⟩
  | cons index schedule inductionHypothesis =>
      have inside := known index (by simp)
      have more : served index < (cfg.commands index).length := by
        have bound := inFile index inside
        rw [List.count_cons_self] at bound
        omega
      have next := List.getElem?_eq_getElem more
      have unfolded : cfg.entriesFrom served (index :: schedule) =
          ((cfg.commands index)[served index], cfg.clientId index) ::
            cfg.entriesFrom (Function.update served index (served index + 1)) schedule := by
        rw [Config.entriesFrom, next]
      rw [unfolded, List.append_cons] at legal ⊢
      obtain ⟨middle, goes, restOn⟩ :=
        rest.serve three own distinct inside next (replay_initial_isSome legal)
      have counts (other : ℕ) : Function.update served index (served index + 1) other +
          schedule.count other = served other + (index :: schedule).count other := by
        by_cases same : other = index
        · subst same
          rw [Function.update_self, List.count_cons_self]
          omega
        · rw [Function.update_of_ne same, List.count_cons_of_ne (Ne.symm same)]
      obtain ⟨after, goesOn, last⟩ := inductionHypothesis restOn
        (fun other member => known other (List.mem_cons_of_mem _ member))
        (fun other known => by rw [counts]; exact inFile other known) legal
      simp only [counts] at last
      exact ⟨after, goes.trans goesOn, last⟩

/-- Before the first command. -/
theorem AtRest.initial (processes : ∀ server other, cfg.proposerConnects server other = true ∧
    cfg.acceptorConnects server other = true) : AtRest cfg (fun _ => 0) [] cfg.initial where
  stable :=
    { quiet :=
        { reached := Machine.reachable_init
          up := fun _ _ => rfl
          running := fun _ _ => rfl
          alive := fun _ _ => rfl
          reaches := fun server _ other known different => by
            simp [Config.initial, Config.initialProposer, processes, known, different]
          acceptors := fun _ _ => rfl
          answers := fun acceptor _ server known => by
            simp [Config.initial, Config.initialAcceptor, processes, known]
          proposerQueue := fun _ => rfl
          acceptorQueue := fun _ => rfl }
      bound := fun _ => le_rfl
      recorded := by simp
      lockSet := fun _ => rfl
      complete := by simp
      settled := by simp [Config.initial, Config.initialAcceptor]
      accepted := by simp
      fresh := fun _ _ _ => rfl }
  idle := fun _ => rfl
  caught := fun _ _ => ⟨rfl, rfl, rfl, rfl⟩
  connected := fun _ _ => .inl ⟨rfl, rfl⟩
  foreign := by simp

/-- The group has carried out the schedule: each client has received an acknowledgement
for each of its commands in it, every server is idle and has recorded a beginning of
the schedule, and one of them all of it. -/
structure CarriedOut (cfg : Config) (schedule : List ℕ) (group : Group) : Prop where
  received : ∀ index < cfg.clientCount, (group.clients index).Caught (schedule.count index)
  servers : ∀ server < cfg.groupSize, (group.proposers server).status = .running ∧
    (group.proposers server).state = .IDLE ∧
    (group.proposers server).log <+: (cfg.entries schedule).map Entry.resolution
  whole : schedule ≠ [] → ∃ server < cfg.groupSize,
    (group.proposers server).log = (cfg.entries schedule).map Entry.resolution

/-- What a server of a stable group has recorded. -/
theorem Stable.log_eq (stable : Stable cfg log group) {server : ℕ}
    (known : server < cfg.groupSize) : (group.proposers server).log =
      (log.take (group.proposers server).inst).map Entry.resolution := by
  obtain ⟨ledger, _, refines⟩ := refines_reachable stable.quiet.reached
  have replica := refines.replicas server
  have length : (group.proposers server).log.length = (group.proposers server).inst :=
    replica.log_length.trans (replica.count (stable.quiet.running server known))
  have bound := stable.bound server
  refine List.ext_getElem? fun index => ?_
  by_cases inside : index < (group.proposers server).inst
  · have found := List.getElem?_eq_getElem (show index < log.length by omega)
    rw [replica.log_getElem?, stable.recorded server index _ found inside, List.getElem?_map,
      List.getElem?_take, if_pos inside, found]
    rfl
  · rw [List.getElem?_eq_none (by omega), List.getElem?_eq_none (by simp; omega)]

theorem AtRest.carriedOut {schedule : List ℕ}
    (rest : AtRest cfg (fun index => 0 + schedule.count index) (cfg.entries schedule) group)
    (some : schedule ≠ [] → cfg.entries schedule ≠ []) : CarriedOut cfg schedule group where
  received := fun index inside => by simpa using rest.caught index inside
  servers := fun server known => by
    refine ⟨rest.stable.quiet.running server known, rest.idle server, ?_⟩
    rw [rest.stable.log_eq known]
    exact (List.take_prefix _ _).map _
  whole := fun nonempty => by
    have positive := List.length_pos_of_ne_nil (some nonempty)
    obtain ⟨server, known, has⟩ :=
      rest.stable.complete ((cfg.entries schedule).length - 1) (by omega)
    refine ⟨server, known, ?_⟩
    rw [rest.stable.log_eq known, List.take_of_length_le (by omega)]

/-- What a running server has recorded can be executed. -/
theorem replay_of_log {entries : List Entry} (reached : cfg.Reachable group) {server : ℕ}
    (running : (group.proposers server).status = .running)
    (recorded : (group.proposers server).log = entries.map Entry.resolution) :
    (lockService.replay entries).isSome = true := by
  obtain ⟨ledger, _, refines⟩ := refines_reachable reached
  have replica := refines.replicas server
  have same := replica.log_eq
  rw [recorded, replica.count running] at same
  have isLog : entries = ledger.log.take (group.proposers server).inst :=
    List.map_injective_iff.mpr (fun _ _ => Entry.resolution_injective) same
  rw [isLog, replica.lockSet]
  rfl

/-- A schedule of the clients' commands is the log of a run without faults exactly when
one lock server can execute it. -/
theorem schedule_carried_out_iff (three : 3 ≤ cfg.groupSize)
    (processes : ∀ server other, cfg.proposerConnects server other = true ∧
      cfg.acceptorConnects server other = true)
    (own : cfg.OnOwnServers) (distinct : cfg.DistinctIds) {schedule : List ℕ}
    (known : ∀ index ∈ schedule, index < cfg.clientCount)
    (inFile : ∀ index < cfg.clientCount, schedule.count index ≤ (cfg.commands index).length) :
    (∃ labels group, cfg.machine.Run labels group ∧
        (∀ label ∈ labels, label.isFaultless = true) ∧ CarriedOut cfg schedule group) ↔
      (lockService.replay (cfg.entries schedule)).isSome = true := by
  constructor
  · rintro ⟨labels, group, run, _, carriedOut⟩
    by_cases none : schedule = []
    · rw [none]
      rfl
    · obtain ⟨server, inGroup, recorded⟩ := carriedOut.whole none
      exact replay_of_log ⟨labels, run⟩ (carriedOut.servers server inGroup).1 recorded
  · intro legal
    obtain ⟨group, ⟨labels, run, faultless⟩, rest⟩ := (AtRest.initial processes).run three own
      distinct known (by simpa using inFile) (by simpa [Config.entries] using legal)
    refine ⟨labels, group, run, faultless,
      AtRest.carriedOut (by simpa [Config.entries] using rest) fun nonempty => ?_⟩
    cases schedule with
    | nil => exact absurd rfl nonempty
    | cons index schedule =>
        have inside := known index (by simp)
        have bound := inFile index inside
        rw [List.count_cons_self] at bound
        have found : (cfg.commands index)[0]? = some _ := List.getElem?_eq_getElem (by omega)
        simp [Config.entries, Config.entriesFrom, found]

end Schedule

/-- Two clients of a group of three, each of which locks resource 7 and unlocks it. -/
def takingTurns : Config :=
  .connected 3 2 (fun _ => [⟨.LOCK, 7⟩, ⟨.UNLOCK, 7⟩]) (by simp)

/-- They can take turns, and cannot both hold the resource. -/
theorem taking_turns_carried_out :
    (∃ labels group, takingTurns.machine.Run labels group ∧
        (∀ label ∈ labels, label.isFaultless = true) ∧ CarriedOut takingTurns [0, 0, 1, 1] group) ∧
      ¬ ∃ labels group, takingTurns.machine.Run labels group ∧
        (∀ label ∈ labels, label.isFaultless = true) ∧ CarriedOut takingTurns [0, 1] group := by
  have own : takingTurns.OnOwnServers :=
    ⟨fun index inside => Nat.lt_succ_of_lt inside, fun _ _ _ _ same => same⟩
  have distinct : takingTurns.DistinctIds := fun _ _ _ _ same => Int.ofNat_inj.mp same
  have three : 3 ≤ takingTurns.groupSize := le_rfl
  refine ⟨(schedule_carried_out_iff three (fun _ _ => ⟨rfl, rfl⟩) own distinct (by decide)
    (by decide)).mpr (by decide), ?_⟩
  rw [schedule_carried_out_iff three (fun _ _ => ⟨rfl, rfl⟩) own distinct (by decide) (by decide)]
  decide

end CSE550.Paxos
