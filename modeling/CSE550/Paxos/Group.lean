import CSE550.Lib.Machine
import CSE550.Paxos.Acceptor
import CSE550.Paxos.Proposer

/-!
Owns the Paxos group as one machine: the servers' proposer and acceptor
processes, the two queues of each server, the messages in flight between the
servers, and the clients of `client.py`.

A label names the process that takes the next step and what its environment
decides: which message arrives, whether it is dropped or pushed twice, whether
a wait times out, whether a write fails. Servers are numbered below
`groupSize` and clients below `clientCount`; the message order of the network
is arbitrary.
-/

namespace CSE550.Paxos

open CSE550.Lib

/-- A group and its clients. -/
structure Config where
  /-- `len(server_list)`. -/
  groupSize : ℕ
  clientCount : ℕ
  clientId : ℕ → ℤ
  /-- The server a client connects to. -/
  clientServer : ℕ → ℕ
  /-- The commands of a client's file, in order. -/
  commands : ℕ → List Command
  /-- `client.create_command` returns LOCK and UNLOCK commands only. -/
  created : ∀ client, ∀ command ∈ commands client, command.commandType ≠ .NONE
  /-- Whether a proposer's start-up connection to a server succeeds. -/
  proposerConnects : ℕ → ℕ → Bool
  /-- Whether an acceptor's start-up connection to a server succeeds. -/
  acceptorConnects : ℕ → ℕ → Bool

/-- How far a client's connection has come. -/
inductive Connection where
  | waiting
  | serving
  | closed
deriving DecidableEq, Repr

/-- The progress of one client through its command list. -/
structure Client where
  connection : Connection
  /-- Commands sent. -/
  sent : ℕ
  /-- Commands its server has read. -/
  read : ℕ
  /-- The CLIENT_ACK messages sent to it, oldest first. -/
  acks : List Message
  /-- CLIENT_ACK messages it has received. -/
  got : ℕ

/-- The state of the group. `sent` and `broadcasts` are histories no process
reads: every message written to an inter-server connection with its receiver,
and the message of every call of `send_to_acceptors`. -/
structure Group where
  proposers : ℕ → Proposer
  acceptors : ℕ → Acceptor
  proposerQueue : ℕ → List Message
  acceptorQueue : ℕ → List Message
  clients : ℕ → Client
  /-- Servers that have stopped for good. -/
  stopped : ℕ → Bool
  flight : List (ℕ × Message)
  sent : List (ℕ × Message)
  broadcasts : List Message

/-- The draw of `connection_process` against `drop_rate` and `dup_rate`. -/
inductive Dice where
  | drop
  | dup
  | keep
deriving DecidableEq, Repr

/-- What `connection_process` pushes for a message: to the proposer queue and to
the acceptor queue. -/
def connectionProcess (dice : Dice) (msg : Message) : List Message × List Message :=
  let copies := match dice with
    | .drop => []
    | .dup => [msg, msg]
    | .keep => [msg]
  match msg.msgType with
  | .PREPARE_ACK | .PREPARE_NACK | .ACCEPT_ACK => (copies, [])
  | .CLIENT => ([msg], [])
  | .PREPARE | .ACCEPT => ([], copies)
  | .EXIT => ([msg], [msg])
  | .CLIENT_ACK => ([], [])

inductive Label where
  /-- A proposer accepts the connection of a client. -/
  | acceptClient (server client : ℕ)
  /-- Receiving on the client connection raises or meets its end. -/
  | closeClient (server : ℕ)
  /-- A proposer reads the next command of its client. -/
  | recvClient (server : ℕ)
  /-- Without a client, a proposer looks at its queue for an EXIT. -/
  | idleGet (server : ℕ)
  /-- READY or ACCEPT: `send_to_acceptors`, raising on the given connections. -/
  | send (server : ℕ) (fails : List ℕ)
  /-- PROPOSING or ACCEPTING: take a message off the queue. -/
  | get (server address : ℕ) (clientGone : Bool)
  /-- PROPOSING or ACCEPTING: the wait on the queue times out. -/
  | timeout (server : ℕ)
  /-- An acceptor takes a message off its queue. -/
  | acceptor (server : ℕ) (delivered : Bool)
  /-- `connection_process` receives the message in flight at `index`. -/
  | connection (index : ℕ) (dice : Dice)
  | lose (index : ℕ)
  | duplicate (index : ℕ)
  | stop (server : ℕ)
  /-- A harness puts an EXIT message on a queue. -/
  | exitProposer (server : ℕ) (clientId : Option ℤ)
  | exitAcceptor (server : ℕ) (clientId : Option ℤ)
  | clientSend (client : ℕ)
  | clientRecv (client : ℕ)
deriving DecidableEq

namespace Group

variable (cfg : Config) (group : Group)

/-- The proposer process of a server that has not stopped still runs. -/
def proposerRuns (server : ℕ) : Prop :=
  server < cfg.groupSize ∧ group.stopped server = false ∧
    (group.proposers server).status = .running

instance (server : ℕ) : Decidable (group.proposerRuns cfg server) := by
  unfold proposerRuns
  infer_instance

/-- The acceptor process of a server that has not stopped still runs. -/
def acceptorRuns (server : ℕ) : Prop :=
  server < cfg.groupSize ∧ group.stopped server = false ∧
    (group.acceptors server).status = .running

instance (server : ℕ) : Decidable (group.acceptorRuns cfg server) := by
  unfold acceptorRuns
  infer_instance

def setProposer (server : ℕ) (proposer : Proposer) : Group :=
  { group with proposers := Function.update group.proposers server proposer }

def setProposerQueue (server : ℕ) (queue : List Message) : Group :=
  { group with proposerQueue := Function.update group.proposerQueue server queue }

def setAcceptorQueue (server : ℕ) (queue : List Message) : Group :=
  { group with acceptorQueue := Function.update group.acceptorQueue server queue }

def setClient (index : ℕ) (client : Client) : Group :=
  { group with clients := Function.update group.clients index client }

/-- Messages written to inter-server connections. -/
def transmit (packets : List (ℕ × Message)) : Group :=
  { group with flight := group.flight ++ packets, sent := group.sent ++ packets }

/-- Carry out what a proposer sends. -/
def emit (server : ℕ) (output : Output) : Group :=
  match output with
  | .silent => group
  | .broadcast msg written =>
      { group.transmit (written.map fun target => (target, msg)) with
        broadcasts := group.broadcasts ++ [msg] }
  | .clientAck msg =>
      match (group.proposers server).client with
      | some index =>
          group.setClient index
            { group.clients index with acks := (group.clients index).acks ++ [msg] }
      | none => group

/-- A proposer's stretch of the loop: its new state and what it sends. -/
def commit (server : ℕ) (result : Proposer × Output) : Group :=
  (group.emit server result.2).setProposer server result.1

/-- An acceptor's turn on a message taken off its queue. -/
def commitAcceptor (server : ℕ) (result : Acceptor × Option (ℕ × Message)) : Group :=
  { group.transmit result.2.toList with
    acceptors := Function.update group.acceptors server result.1 }

/-- One step of the group; undefined when the label is not enabled. -/
def step : Label → Option Group
  | .acceptClient server index =>
      let proposer := group.proposers server
      let client := group.clients index
      if group.proposerRuns cfg server ∧ proposer.state = .IDLE ∧ proposer.client = none ∧
          index < cfg.clientCount ∧ cfg.clientServer index = server ∧
          client.connection = .waiting then
        some ((group.setClient index { client with connection := .serving }).setProposer server
          { proposer with client := some index })
      else none
  | .closeClient server =>
      let proposer := group.proposers server
      match proposer.client with
      | some index =>
          if group.proposerRuns cfg server ∧ proposer.state = .IDLE then
            some ((group.setClient index
              { group.clients index with connection := .closed }).setProposer server
                { proposer with client := none })
          else none
      | none => none
  | .recvClient server =>
      let proposer := group.proposers server
      match proposer.client with
      | some index =>
          let client := group.clients index
          match (cfg.commands index)[client.read]? with
          | some command =>
              if group.proposerRuns cfg server ∧ proposer.state = .IDLE ∧
                  client.read < client.sent then
                some ((group.setClient index
                  { client with read := client.read + 1 }).setProposer server
                    (proposer.receiveCommand command (cfg.clientId index)))
              else none
          | none => none
      | none => none
  | .idleGet server =>
      let proposer := group.proposers server
      match group.proposerQueue server with
      | msg :: rest =>
          if group.proposerRuns cfg server ∧ proposer.state = .IDLE ∧ proposer.client = none then
            if msg.msgType = .EXIT then
              some ((group.setProposerQueue server rest).setProposer server
                { proposer with status := .exited, done := true })
            else some (group.setProposerQueue server (rest ++ [msg]))
          else none
      | [] => none
  | .send server fails =>
      let proposer := group.proposers server
      if group.proposerRuns cfg server then
        match proposer.state with
        | .READY => some (group.commit server (proposer.ready server fails))
        | .ACCEPT => some (group.commit server (proposer.accept server fails))
        | _ => none
      else none
  | .get server address clientGone =>
      let proposer := group.proposers server
      match group.proposerQueue server with
      | msg :: rest =>
          if group.proposerRuns cfg server then
            match proposer.state with
            | .PROPOSING =>
                some ((group.setProposerQueue server rest).commit server
                  (proposer.proposing cfg.groupSize address msg, .silent))
            | .ACCEPTING =>
                some ((group.setProposerQueue server rest).commit server
                  (proposer.accepting cfg.groupSize server msg clientGone))
            | _ => none
          else none
      | [] => none
  | .timeout server =>
      let proposer := group.proposers server
      if group.proposerRuns cfg server then
        match proposer.state with
        | .PROPOSING => some (group.commit server (proposer.abandon cfg.groupSize, .silent))
        | .ACCEPTING =>
            some (group.commit server (proposer.acceptingTimeout cfg.groupSize, .silent))
        | _ => none
      else none
  | .acceptor server delivered =>
      match group.acceptorQueue server with
      | msg :: rest =>
          if group.acceptorRuns cfg server then
            some ((group.setAcceptorQueue server rest).commitAcceptor server
              ((group.acceptors server).process server msg delivered))
          else none
      | [] => none
  | .connection index dice =>
      match group.flight[index]? with
      | some (target, msg) =>
          if target < cfg.groupSize ∧ group.stopped target = false then
            let pushed := connectionProcess dice msg
            some
              { group with
                flight := group.flight.eraseIdx index
                proposerQueue := Function.update group.proposerQueue target
                  (group.proposerQueue target ++ pushed.1)
                acceptorQueue := Function.update group.acceptorQueue target
                  (group.acceptorQueue target ++ pushed.2) }
          else none
      | none => none
  | .lose index =>
      if index < group.flight.length then
        some { group with flight := group.flight.eraseIdx index }
      else none
  | .duplicate index =>
      match group.flight[index]? with
      | some packet => some { group with flight := group.flight ++ [packet] }
      | none => none
  | .stop server => some { group with stopped := Function.update group.stopped server true }
  | .exitProposer server clientId =>
      some (group.setProposerQueue server
        (group.proposerQueue server ++ [exitMessage clientId]))
  | .exitAcceptor server clientId =>
      some (group.setAcceptorQueue server
        (group.acceptorQueue server ++ [exitMessage clientId]))
  | .clientSend index =>
      let client := group.clients index
      if index < cfg.clientCount ∧ client.got = client.sent ∧
          client.sent < (cfg.commands index).length then
        some (group.setClient index { client with sent := client.sent + 1 })
      else none
  | .clientRecv index =>
      let client := group.clients index
      if index < cfg.clientCount ∧ client.got < client.acks.length then
        some (group.setClient index { client with got := client.got + 1 })
      else none

end Group

/-- A proposer before its first client. -/
def Config.initialProposer (cfg : Config) (serverId : ℕ) : Proposer where
  status := .running
  state := .IDLE
  done := false
  client := none
  proposerNum := serverId
  inst := 0
  clientCommand := ⟨.NONE, 0⟩
  origClientId := 0
  learntCommand := .none
  learntClient := none
  responseCnt := 0
  preNacks := []
  msgHistory := []
  -- every server except oneself, where the connection succeeds
  serverConnections := (List.range cfg.groupSize).filter fun target =>
    target ≠ serverId ∧ cfg.proposerConnects serverId target
  instanceResolutions := ∅
  lockSet := []
  logfile := []

/-- An acceptor before its first message. -/
def Config.initialAcceptor (cfg : Config) (serverId : ℕ) : Acceptor where
  status := .running
  acceptHistory := ∅
  msgHistory := []
  serverConnections := (List.range cfg.groupSize).filter fun target =>
    cfg.acceptorConnects serverId target

/-- The group before its first step. -/
def Config.initial (cfg : Config) : Group where
  proposers := cfg.initialProposer
  acceptors := cfg.initialAcceptor
  proposerQueue := fun _ => []
  acceptorQueue := fun _ => []
  clients := fun _ => ⟨.waiting, 0, 0, [], 0⟩
  stopped := fun _ => false
  flight := []
  sent := []
  broadcasts := []

/-- The group as a machine. -/
def Config.machine (cfg : Config) : Machine Group Label where
  init := cfg.initial
  step := fun group label => group.step cfg label

/-- A state some run of the group ends in. -/
abbrev Config.Reachable (cfg : Config) (group : Group) : Prop := cfg.machine.Reachable group

/-- The state a list of labels leads to; the initial state when it is no run. -/
def Config.after (cfg : Config) (labels : List Label) : Group :=
  (cfg.machine.runFrom cfg.initial labels).getD cfg.initial

theorem Config.run_after {cfg : Config} {labels : List Label}
    (enabled : (cfg.machine.runFrom cfg.initial labels).isSome = true) :
    cfg.machine.Run labels (cfg.after labels) := by
  obtain ⟨group, found⟩ := Option.isSome_iff_exists.mp enabled
  unfold Config.after Machine.Run
  rw [found]
  exact found

theorem Config.step_after {cfg : Config} {labels : List Label} {label : Label}
    (enabled : (cfg.machine.runFrom cfg.initial (labels ++ [label])).isSome = true) :
    (cfg.after labels).step cfg label = some (cfg.after (labels ++ [label])) := by
  obtain ⟨group, run, taken⟩ := Machine.run_snoc_iff.mp (Config.run_after enabled)
  have same : cfg.after labels = group := by
    unfold Config.after
    rw [show cfg.machine.runFrom cfg.initial labels = some group from run]
    rfl
  rw [same]
  exact taken

theorem Config.reachable_after (cfg : Config) (labels : List Label) :
    cfg.Reachable (cfg.after labels) := by
  unfold Config.after
  cases found : cfg.machine.runFrom cfg.initial labels with
  | none => exact Machine.reachable_init
  | some group => exact ⟨labels, found⟩

/-- A group whose start-up connections all succeed; client `c` has the id `c`
and connects to server `c`. -/
def Config.connected (groupSize clientCount : ℕ) (commands : ℕ → List Command)
    (created : ∀ client, ∀ command ∈ commands client, command.commandType ≠ .NONE) :
    Config where
  groupSize := groupSize
  clientCount := clientCount
  clientId := fun client => client
  clientServer := fun client => client
  commands := commands
  created := created
  proposerConnects := fun _ _ => true
  acceptorConnects := fun _ _ => true

end CSE550.Paxos
