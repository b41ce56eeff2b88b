import Mathlib.Data.List.Basic
import CSE550.Paxos.Steps

/-!
Owns the passage of one message: from its connection onto a queue and from the
queue into the process, as equations of the steps and as continuations of a
group whose receiving queue is empty.

Does not own which messages are in flight, nor what a process does with one.
-/

namespace CSE550.Paxos

open CSE550.Lib

variable {cfg : Config} {group next : Group} {server : ℕ} {msg : Message}

/-- What a proposer does with a message taken off its queue. -/
inductive Takes (groupSize server address : ℕ) (clientGone : Bool) (proposer : Proposer)
    (msg : Message) : Proposer × Output → Prop
  | proposing (state : proposer.state = .PROPOSING) :
      Takes groupSize server address clientGone proposer msg
        (proposer.proposing groupSize address msg, .silent)
  | accepting (state : proposer.state = .ACCEPTING) :
      Takes groupSize server address clientGone proposer msg
        (proposer.accepting groupSize server msg clientGone)

theorem Group.step_get_iff {address : ℕ} {clientGone : Bool} :
    group.step cfg (.get server address clientGone) = some next ↔
      ∃ msg rest result, group.proposerQueue server = msg :: rest ∧
        group.proposerRuns cfg server ∧
        Takes cfg.groupSize server address clientGone (group.proposers server) msg result ∧
        next = (group.setProposerQueue server rest).commit server result := by
  constructor
  · intro taken
    simp only [Group.step] at taken
    split at taken
    · rename_i msg rest queue
      split at taken
      · rename_i runs
        split at taken
        · exact ⟨msg, rest, _, queue, runs, .proposing ‹_›, (Option.some.inj taken).symm⟩
        · exact ⟨msg, rest, _, queue, runs, .accepting ‹_›, (Option.some.inj taken).symm⟩
        · cases taken
      · cases taken
    · cases taken
  · rintro ⟨msg, rest, result, queue, runs, takes, rfl⟩
    cases takes with
    | proposing state | accepting state =>
        simp only [Group.step, queue, state]
        exact if_pos runs

theorem Group.step_acceptor_iff {delivered : Bool} :
    group.step cfg (.acceptor server delivered) = some next ↔
      ∃ msg rest, group.acceptorQueue server = msg :: rest ∧ group.acceptorRuns cfg server ∧
        next = (group.setAcceptorQueue server rest).commitAcceptor server
          ((group.acceptors server).process server msg delivered) := by
  constructor
  · intro taken
    simp only [Group.step] at taken
    split at taken
    · rename_i msg rest queue
      simp only [Option.ite_none_right_eq_some, Option.some.injEq] at taken
      exact ⟨msg, rest, queue, taken.1, taken.2.symm⟩
    · cases taken
  · rintro ⟨msg, rest, queue, runs, rfl⟩
    simp only [Group.step, queue]
    exact if_pos runs

/-! ### A message passes an empty queue -/

/-- The group once a copy of a packet has left the network. -/
def Group.receive (group : Group) (packet : ℕ × Message) : Group :=
  { group with flight := group.flight.erase packet }

/-- A reply in flight reaches the proposer queue. -/
theorem Group.step_deliver_reply (inFlight : (server, msg) ∈ group.flight)
    (known : server < cfg.groupSize) (up : group.stopped server = false)
    (kind : msg.msgType ∈ proposerMsgTypes) :
    cfg.machine.step group (.connection (group.flight.idxOf (server, msg)) .keep) =
      some ((group.receive (server, msg)).setProposerQueue server
        (group.proposerQueue server ++ [msg])) := by
  have pushed : connectionProcess .keep msg = ([msg], []) := by
    cases msgType : msg.msgType <;> simp_all [connectionProcess, proposerMsgTypes]
  have found := List.getElem?_idxOf inFlight
  simp only [Config.machine, Group.step, found, pushed]
  rw [if_pos ⟨known, up⟩]
  simp [Group.receive, Group.setProposerQueue, List.eraseIdx_idxOf_eq_erase]

/-- A request in flight reaches the acceptor queue. -/
theorem Group.step_deliver_request (inFlight : (server, msg) ∈ group.flight)
    (known : server < cfg.groupSize) (up : group.stopped server = false)
    (kind : msg.msgType ∈ acceptorMsgTypes) :
    cfg.machine.step group (.connection (group.flight.idxOf (server, msg)) .keep) =
      some ((group.receive (server, msg)).setAcceptorQueue server
        (group.acceptorQueue server ++ [msg])) := by
  have pushed : connectionProcess .keep msg = ([], [msg]) := by
    cases msgType : msg.msgType <;> simp_all [connectionProcess, acceptorMsgTypes]
  have found := List.getElem?_idxOf inFlight
  simp only [Config.machine, Group.step, found, pushed]
  rw [if_pos ⟨known, up⟩]
  simp [Group.receive, Group.setAcceptorQueue, List.eraseIdx_idxOf_eq_erase]

variable {allowed : Label → Prop}

/-- A reply in flight is taken at once by a proposer with nothing on its queue. -/
theorem Group.leads_reply {address : ℕ} {clientGone : Bool} {result : Proposer × Output}
    (deliver : ∀ index, allowed (.connection index .keep))
    (get : allowed (.get server address clientGone)) (inFlight : (server, msg) ∈ group.flight)
    (kind : msg.msgType ∈ proposerMsgTypes) (empty : group.proposerQueue server = [])
    (runs : group.proposerRuns cfg server)
    (takes : Takes cfg.groupSize server address clientGone (group.proposers server) msg result) :
    cfg.machine.Leads allowed group ((group.receive (server, msg)).commit server result) := by
  have arrives := Group.step_deliver_reply inFlight runs.1 runs.2.1 kind
  rw [empty, List.nil_append] at arrives
  refine (Machine.Leads.step arrives (deliver _)).trans (Machine.Leads.step ?_ get)
  refine Group.step_get_iff.mpr ⟨msg, [], result, Function.update_self .., runs, takes, ?_⟩
  have emptied : Function.update group.proposerQueue server [] = group.proposerQueue :=
    Function.update_eq_self_iff.mpr empty.symm
  simp [Group.setProposerQueue, Group.receive, emptied]

/-- A request in flight is taken at once by an acceptor with nothing on its queue. -/
theorem Group.leads_request (delivered : Bool)
    (deliver : ∀ index, allowed (.connection index .keep))
    (turn : allowed (.acceptor server delivered)) (inFlight : (server, msg) ∈ group.flight)
    (kind : msg.msgType ∈ acceptorMsgTypes) (empty : group.acceptorQueue server = [])
    (runs : group.acceptorRuns cfg server) :
    cfg.machine.Leads allowed group ((group.receive (server, msg)).commitAcceptor server
      ((group.acceptors server).process server msg delivered)) := by
  have arrives := Group.step_deliver_request inFlight runs.1 runs.2.1 kind
  rw [empty, List.nil_append] at arrives
  refine (Machine.Leads.step arrives (deliver _)).trans (Machine.Leads.step ?_ turn)
  refine Group.step_acceptor_iff.mpr ⟨msg, [], Function.update_self .., runs, ?_⟩
  have emptied : Function.update group.acceptorQueue server [] = group.acceptorQueue :=
    Function.update_eq_self_iff.mpr empty.symm
  simp [Group.setAcceptorQueue, Group.receive, emptied]

end CSE550.Paxos
