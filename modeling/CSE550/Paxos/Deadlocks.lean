import CSE550.Lib.Waiting
import CSE550.Paxos.LockSafety
import CSE550.Paxos.Schedules

/-!
Owns the deadlocks of clients: clients that wait for locks of each other, or for locks
of clients that are done or whose server has ended, wait for ever.

Does not own the order in which commands are resolved, but for what a lock server can
execute. Every statement is about clients that lock what they do not hold and unlock what
they hold.
-/

namespace CSE550.Paxos

open CSE550.Lib

/-! ### Waiting -/

/-- The client has sent a LOCK of the resource and not received its acknowledgement. -/
def Group.Wants (cfg : Config) (group : Group) (index : ℕ) (resource : ℤ) : Prop :=
  (group.clients index).sent = (group.clients index).got + 1 ∧
    (cfg.commands index)[(group.clients index).got]? = some ⟨.LOCK, resource⟩

/-- The client has received the CLIENT_ACK of a LOCK of the resource, and its server has
read no UNLOCK of it since. -/
def Group.Keeps (cfg : Config) (group : Group) (index : ℕ) (resource : ℤ) : Prop :=
  ∃ count < (group.clients index).got, (cfg.commands index)[count]? = some ⟨.LOCK, resource⟩ ∧
    ∀ later < (group.clients index).read, count < later →
      (cfg.commands index)[later]? ≠ some ⟨.UNLOCK, resource⟩

instance Group.decidableWants (cfg : Config) (group : Group) (index : ℕ) (resource : ℤ) :
    Decidable (group.Wants cfg index resource) := by
  unfold Group.Wants
  infer_instance

instance Group.decidableKeeps (cfg : Config) (group : Group) (index : ℕ) (resource : ℤ) :
    Decidable (group.Keeps cfg index resource) := by
  unfold Group.Keeps
  infer_instance

/-- The client waits for a lock that another of the clients keeps. -/
abbrev Group.Waits (cfg : Config) (group : Group) (clients : Set ℕ) (index : ℕ) : Prop :=
  WaitsIn (group.Keeps cfg) (group.Wants cfg) clients index

/-- The server of the client has ended, the client is done, or it waits for another one. -/
def Group.Halted (cfg : Config) (group : Group) (clients : Set ℕ) (index : ℕ) : Prop :=
  ¬ group.proposerRuns cfg (cfg.clientServer index) ∨
    (group.clients index).got = (cfg.commands index).length ∨ group.Waits cfg clients index

section Step

variable {cfg : Config} {group next : Group} {label : Label} {log : List Entry}

/-! ### What a step does to a client -/

/-- Where a client is with its commands. -/
structure SamePlace (before after : Client) : Prop where
  sent : after.sent = before.sent
  read : after.read = before.read
  got : after.got = before.got

/-- The steps of one client and its server. -/
inductive ClientStep (cfg : Config) (group next : Group) (index : ℕ) : Prop
  | stays (same : SamePlace (group.clients index) (next.clients index))
  | sends (ready : (group.clients index).got = (group.clients index).sent)
      (more : (group.clients index).sent < (cfg.commands index).length)
      (sent : (next.clients index).sent = (group.clients index).sent + 1)
      (read : (next.clients index).read = (group.clients index).read)
      (got : (next.clients index).got = (group.clients index).got)
  | receives (sent : (next.clients index).sent = (group.clients index).sent)
      (read : (next.clients index).read = (group.clients index).read)
      (got : (next.clients index).got = (group.clients index).got + 1)
      (alone : ∀ other ≠ index, next.clients other = group.clients other)
  | isRead (server : ℕ) (runs : group.proposerRuns cfg server)
      (serving : (group.proposers server).client = some index)
      (unread : (group.clients index).read < (group.clients index).sent)
      (sent : (next.clients index).sent = (group.clients index).sent)
      (read : (next.clients index).read = (group.clients index).read + 1)
      (got : (next.clients index).got = (group.clients index).got)

theorem samePlace_refl (client : Client) : SamePlace client client := ⟨rfl, rfl, rfl⟩

theorem clientStep (taken : group.step cfg label = some next) (index : ℕ) :
    ClientStep cfg group next index := by
  cases transition_of_step taken with
  | network next move =>
      apply ClientStep.stays
      rw [move.clients]
      exact samePlace_refl _
  | clientSend other known ready more named =>
      by_cases equal : index = other
      · subst equal
        exact .sends ready more (by simp) (by simp) (by simp)
      · exact .stays (by simp [equal, samePlace_refl])
  | clientRecv other known more =>
      by_cases equal : index = other
      · subst equal
        exact .receives (by simp) (by simp) (by simp) fun other different => by simp [different]
      · exact .stays (by simp [equal, samePlace_refl])
  | acceptClient | closeClient =>
      exact .stays ⟨read_update Client.sent (by rfl) index, read_update Client.read (by rfl) index,
        read_update Client.got (by rfl) index⟩
  | recvClient server other command runs idle serving unread found =>
      by_cases equal : index = other
      · subst equal
        exact .isRead server runs serving unread (by simp) (by simp) (by simp)
      · exact .stays (by simp [equal, samePlace_refl])
  | idleExit | acceptor => exact .stays (samePlace_refl _)
  | proposer server queue found result =>
      apply ClientStep.stays
      rw [Group.commit_clients]
      split
      · exact ⟨rfl, rfl, rfl⟩
      · exact samePlace_refl _

/-- A proposer that has ended does not start again. -/
theorem proposerRuns_of_step (taken : group.step cfg label = some next) {server : ℕ}
    (runs : next.proposerRuns cfg server) : group.proposerRuns cfg server := by
  have moved {other : ℕ} {proposer : Proposer} (here : group.proposerRuns cfg other)
      (there : server < cfg.groupSize ∧ group.stopped server = false ∧
        (Function.update group.proposers other proposer server).status = .running) :
      group.proposerRuns cfg server := by
    by_cases equal : server = other
    · exact equal ▸ here
    · rwa [Function.update_of_ne equal] at there
  cases transition_of_step taken with
  | network next move =>
      obtain ⟨known, up, status⟩ := runs
      refine ⟨known, ?_, move.proposers ▸ status⟩
      by_contra stopped
      have was := move.stopped server (by simpa using stopped)
      exact absurd (was.symm.trans up) (by simp)
  | clientSend | clientRecv | acceptor => exact runs
  | acceptClient other index here => exact moved here runs
  | closeClient other index here => exact moved here runs
  | recvClient other index command here => exact moved here runs
  | idleExit other msg rest here => exact moved here runs
  | proposer other queue found result here =>
      simp only [Group.proposerRuns, Group.commit_stopped, Group.commit_proposers] at runs
      exact moved here runs

/-! ### No two clients keep one lock -/

/-- A client that has sent only what its server has read. -/
theorem ClientProgress.unsent {index : ℕ} {client : Client} {proposer : Proposer}
    (progress : ClientProgress cfg log index client proposer) :
    ClientProgress cfg log index { client with sent := client.read } proposer where
  sent := progress.read.trans progress.sent
  read := le_rfl
  got := progress.got
  acked := progress.acked.imp_right fun pending => pending.talk rfl rfl
  recorded := progress.recorded
  pending := by
    intro position entry found own beyond
    obtain ⟨here, isOwn, pending⟩ := progress.pending position entry found own beyond
    exact ⟨here, isOwn, pending.talk rfl rfl⟩
  acks := progress.acks

theorem Clients.unsent (clients : Clients cfg log group) (index : ℕ) :
    Clients cfg log (group.setClient index
      { group.clients index with sent := (group.clients index).read }) := by
  refine ⟨clients.serving, fun server state => ?_, fun other inside => ?_, clients.known⟩
  · obtain ⟨client, pending⟩ := clients.busy server state
    refine ⟨client, ?_⟩
    by_cases same : client = index
    · subst same
      rw [Group.setClient_clients, Function.update_self]
      exact pending.talk rfl rfl
    · rw [Group.setClient_clients, Function.update_of_ne same]
      exact pending
  · have progress := clients.progress other inside
    by_cases same : other = index
    · subst same
      rw [Group.setClient_clients, Function.update_self]
      exact progress.unsent
    · rw [Group.setClient_clients, Function.update_of_ne same]
      exact progress

/-- What a client keeps, it holds in the log. -/
theorem Clients.keeps_log (clients : Clients cfg log group) {index : ℕ}
    (inside : index < cfg.clientCount) {resource : ℤ} (keeps : group.Keeps cfg index resource) :
    Access.Holds (cfg.clientId index) resource (log.map Entry.access) := by
  apply (clients.unsent index).holds_log inside
  obtain ⟨count, received, isLock, kept⟩ := keeps
  exact ⟨count, by simpa using received, isLock, by simpa using kept⟩

/-- The group is reached by a run whose clients send courteously. -/
def Config.Courteously (cfg : Config) (group : Group) : Prop :=
  ∃ labels, cfg.machine.Run labels group ∧
    cfg.machine.Meets (SendsCourteously cfg) cfg.initial labels

theorem Config.Courteously.step (courteously : cfg.Courteously group)
    (sends : SendsCourteously cfg group label) (taken : group.step cfg label = some next) :
    cfg.Courteously next := by
  obtain ⟨labels, run, meets⟩ := courteously
  refine ⟨labels ++ [label], Machine.runFrom_snoc run taken, ?_⟩
  exact (Machine.meets_append run).mpr ⟨meets, sends, fun _ _ => trivial⟩

theorem Config.Courteously.keeps_unique (courteously : cfg.Courteously group)
    (distinct : cfg.DistinctIds) {first second : ℕ} {resource : ℤ}
    (firstInside : first < cfg.clientCount) (secondInside : second < cfg.clientCount)
    (left : group.Keeps cfg first resource) (right : group.Keeps cfg second resource) :
    first = second := by
  obtain ⟨labels, run, meets⟩ := courteously
  obtain ⟨ledger, sound, refines, clients⟩ := clients_reachable distinct ⟨labels, run⟩
  have courteous := courteous_of_polite (polite_run run meets) clients
  have guarded := guarded_of_sound sound clients.isCommand
  exact distinct first firstInside second secondInside
    (Access.holds_unique courteous guarded (clients.keeps_log firstInside left)
      (clients.keeps_log secondInside right))

/-! ### One more step -/

/-- A client's numbers are in order. -/
theorem ClientProgress.ordered {index : ℕ} {client : Client} {proposer : Proposer}
    (progress : ClientProgress cfg log index client proposer) :
    client.got ≤ client.read ∧ client.read ≤ client.sent ∧
      client.sent ≤ (cfg.commands index).length := by
  refine ⟨?_, progress.read, progress.sent⟩
  have got := progress.got
  rcases progress.acked with acked | pending
  · omega
  · have unacked := pending.unacked
    omega

variable {clients : Set ℕ}

/-- A halted client keeps its locks. -/
theorem Group.Keeps.step (isLog : Clients cfg log group)
    (taken : group.step cfg label = some next) {index : ℕ} {resource : ℤ}
    (inside : index < cfg.clientCount) (halted : group.Halted cfg clients index)
    (keeps : group.Keeps cfg index resource) : next.Keeps cfg index resource := by
  obtain ⟨count, received, isLock, kept⟩ := keeps
  have ordered := (isLog.progress index inside).ordered
  cases clientStep taken index with
  | stays same => exact ⟨count, same.got ▸ received, isLock, same.read ▸ kept⟩
  | sends ready more sent read got => exact ⟨count, got ▸ received, isLock, read ▸ kept⟩
  | receives sent read got => exact ⟨count, by omega, isLock, read ▸ kept⟩
  | isRead server runs serving unread sent read got =>
      refine ⟨count, got ▸ received, isLock, fun later bound beyond => ?_⟩
      rcases halted with ended | done | ⟨wanted, ⟨outstanding, isWanted⟩, _⟩
      · exact absurd ((isLog.serving server index serving).2 ▸ runs) ended
      · omega
      · by_cases old : later < (group.clients index).read
        · exact kept later old beyond
        · obtain rfl : later = (group.clients index).got := by omega
          rw [isWanted]
          simp

/-- A client that waits for a halted client is not acknowledged. -/
theorem Group.Waits.step (isLog : Clients cfg log group) (courteously : cfg.Courteously next)
    (distinct : cfg.DistinctIds) (taken : group.step cfg label = some next)
    (known : ∀ index ∈ clients, index < cfg.clientCount)
    (halted : ∀ index ∈ clients, group.Halted cfg clients index) {index : ℕ}
    (member : index ∈ clients) (waits : group.Waits cfg clients index) :
    next.Waits cfg clients index ∧ (next.clients index).sent = (group.clients index).sent ∧
      (next.clients index).got = (group.clients index).got := by
  obtain ⟨resource, ⟨outstanding, isWanted⟩, other, inside, different, keeps⟩ := waits
  have ordered := (isLog.progress index (known index member)).ordered
  have keepsOn := keeps.step isLog taken (known other inside) (halted other inside)
  have same : (next.clients index).sent = (group.clients index).sent ∧
      (next.clients index).got = (group.clients index).got := by
    cases clientStep taken index with
    | stays same => exact ⟨same.sent, same.got⟩
    | sends ready => omega
    | receives sent read got alone =>
        -- the client and the other one would keep the same lock
        have gets : next.Keeps cfg index resource := by
          refine ⟨(group.clients index).got, by omega, isWanted, fun later bound beyond => ?_⟩
          omega
        exact absurd (courteously.keeps_unique distinct (known other inside) (known index member)
          keepsOn gets) different
    | isRead server runs serving unread sent read got => exact ⟨sent, got⟩
  refine ⟨⟨resource, ⟨by omega, ?_⟩, other, inside, different, keepsOn⟩, same⟩
  rw [same.2]
  exact isWanted

/-- Halted clients stay halted. -/
theorem Group.Halted.step (isLog : Clients cfg log group) (courteously : cfg.Courteously next)
    (distinct : cfg.DistinctIds) (taken : group.step cfg label = some next)
    (known : ∀ index ∈ clients, index < cfg.clientCount)
    (halted : ∀ index ∈ clients, group.Halted cfg clients index) {index : ℕ}
    (member : index ∈ clients) : next.Halted cfg clients index := by
  rcases halted index member with ended | done | waits
  · exact .inl fun runs => ended (proposerRuns_of_step taken runs)
  · right
    left
    obtain ⟨labels, run, _⟩ := courteously
    obtain ⟨ledger, _, _, later⟩ := clients_reachable distinct ⟨labels, run⟩
    have ordered := (later.progress index (known index member)).ordered
    cases clientStep taken index with
    | stays same => exact same.got.trans done
    | sends ready more => omega
    | receives sent read got => omega
    | isRead server runs serving unread sent read got => exact got.trans done
  · exact .inr (.inr (waits.step isLog courteously distinct taken known halted member).1)

end Step

/-! ### Every continuation -/

/-- The clients are halted, and those that waited have received nothing. -/
structure StillWaiting (cfg : Config) (start : Group) (clients : Set ℕ) (group : Group) : Prop where
  halted : ∀ index ∈ clients, group.Halted cfg clients index
  waits : ∀ index ∈ clients, start.Waits cfg clients index → group.Waits cfg clients index ∧
    (group.clients index).sent = (start.clients index).sent ∧
    (group.clients index).got = (start.clients index).got

/-- Clients that wait for locks of each other, or of clients that are done or whose server
has ended, wait for ever: in every continuation none of them is acknowledged. -/
theorem waiting_clients_wait_for_ever {cfg : Config} {before later : List Label}
    {group after : Group} {clients : Set ℕ} (distinct : cfg.DistinctIds)
    (run : cfg.machine.Run before group) (continues : cfg.machine.runFrom group later = some after)
    (courteous : cfg.machine.Meets (SendsCourteously cfg) cfg.initial (before ++ later))
    (known : ∀ index ∈ clients, index < cfg.clientCount)
    (halted : ∀ index ∈ clients, group.Halted cfg clients index) :
    StillWaiting cfg group clients after := by
  obtain ⟨courteousBefore, courteousLater⟩ := (Machine.meets_append run).mp courteous
  have keep : ∀ state label next,
      cfg.Courteously state ∧ StillWaiting cfg group clients state →
      SendsCourteously cfg state label → cfg.machine.step state label = some next →
      cfg.Courteously next ∧ StillWaiting cfg group clients next := by
    rintro state label next ⟨courteously, waiting⟩ sends taken
    have nextCourteously := courteously.step sends taken
    obtain ⟨labels, toState, _⟩ := courteously
    obtain ⟨ledger, _, _, isLog⟩ := clients_reachable distinct ⟨labels, toState⟩
    refine ⟨nextCourteously, fun index member => ?_, fun index member waits => ?_⟩
    · exact Group.Halted.step isLog nextCourteously distinct taken known waiting.halted member
    · obtain ⟨waitsHere, sent, got⟩ := waiting.waits index member waits
      obtain ⟨waitsNext, sentNext, gotNext⟩ :=
        waitsHere.step isLog nextCourteously distinct taken known waiting.halted member
      exact ⟨waitsNext, sentNext.trans sent, gotNext.trans got⟩
  exact (courteousLater.keeps continues keep
    ⟨⟨before, run, courteousBefore⟩, halted, fun index _ waits => ⟨waits, rfl, rfl⟩⟩).2

/-- Server 0 stops while its client keeps resource 7, which client 1 waits for. -/
def orphaned : List Label := learntRun ++ [.clientRecv 0, .stop 0]

theorem orphaned_lock_is_waited_for :
    StillWaiting twoLocks (twoLocks.after orphaned) {0, 1}
      (twoLocks.after (orphaned ++ [.send 1 [], .timeout 1])) := by
  have run : twoLocks.machine.Run orphaned (twoLocks.after orphaned) :=
    Config.run_after (by decide)
  have more : twoLocks.machine.Run (orphaned ++ [.send 1 [], .timeout 1])
      (twoLocks.after (orphaned ++ [.send 1 [], .timeout 1])) := Config.run_after (by decide)
  obtain ⟨_, same, continues⟩ := Machine.runFrom_append.mp more
  obtain rfl := Option.some.inj (run.symm.trans same)
  refine waiting_clients_wait_for_ever ?_ run continues (by decide) ?_ ?_
  · intro first _ second _ same
    exact Int.ofNat_inj.mp same
  · rintro index (rfl | rfl) <;> decide
  · rintro index (rfl | rfl)
    · exact .inl (by decide)
    · exact .inr (.inr ⟨7, by decide, 0, by simp, by decide, by decide⟩)

end CSE550.Paxos
