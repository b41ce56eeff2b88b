import CSE550.Lib.Machine
import CSE550.WebServer.Sending
import Mathlib.Logic.Function.Basic

/-!
Owns the event loop of `async_serv` as a machine: the slots with their poll
entries, the queues to and from the workers, and the descriptors the operating
system has given out.

A step is one poll, one visit of an entry of `ufds`, the handling of one result, or
one step of a worker. What system calls return is part of the step's label. Each
descriptor is kept with the connection behind it, which the program never sees.

Does not own when a poll reports an entry, nor the bytes in the self-pipe: any
report may come at any time.
-/

namespace CSE550.WebServer

open CSE550.Lib

/-- `MAX_CONNECTIONS`. -/
def maxConnections : ℕ := 65

/-- `THREAD_POOL_SIZE`. -/
def threadPoolSize : ℕ := 4

/-- The values of `states`. -/
inductive SlotState where
  | EMPTY
  | INIT
  | RECV
  | PROC
  | SEND
deriving DecidableEq

/-- What an open descriptor belongs to. -/
inductive Owner where
  /-- The listening socket, the pipe, and whatever else the process has open. -/
  | process
  | connection (number : ℕ)
deriving DecidableEq

/-- A request for a worker: (descriptor, path), and the connection it came from. -/
structure Task where
  fd : ℤ
  path : List UInt8
  origin : Option Owner

/-- What a worker returns for a task; no buffer when the file cannot be opened. -/
structure Result where
  fd : ℤ
  buffer : Option Memory
  origin : Option Owner

/-- Bytes handed to a socket: the request they answer and the connection they go to. -/
structure Sent where
  answers : Option Owner
  onto : Option Owner
  bytes : List UInt8

/-- Where the loop is. -/
inductive Phase where
  | polling
  | visiting (entry : ℕ)
  | results
deriving DecidableEq

/-- Whether the process runs, and which check stopped it. -/
inductive Status where
  | running
  /-- No slot was free. -/
  | exited
  /-- `assert(result.first > 0)`. -/
  | notPositive
  /-- `assert(state_index != -1)`. -/
  | notFound
deriving DecidableEq

/-- The loop's variables, the queues and the descriptors. -/
structure Loop where
  /-- `ufds[i].fd`. -/
  fds : ℕ → ℤ
  /-- `ufds[i].revents & POLLIN`. -/
  readable : ℕ → Bool
  states : ℕ → SlotState
  partialFilepaths : ℕ → List UInt8
  partialSends : ℕ → PartialSend
  /-- The request that the entry of `partial_sends` answers. -/
  answering : ℕ → Option Owner
  taskQueue : List Task
  /-- The tasks whose file a worker is reading. -/
  reading : List Task
  resultQueue : List Result
  owner : ℤ → Option Owner
  /-- How many connections were accepted. -/
  accepted : ℕ
  sent : List Sent
  phase : Phase
  status : Status

/-- What the system calls of one visit return. -/
structure Answers where
  /-- `read` on the pipe. -/
  pipeRead : ℤ
  /-- `accept`; none is -1. -/
  accept : Option ℕ
  /-- Whether `fcntl` succeeds. -/
  fcntl : Bool
  /-- `recv`; none is -1. -/
  recv : Option (List UInt8)
  send : SendOutcome
  /-- What lies behind the array `states`. -/
  beyond : SlotState

/-! ### Visits -/

namespace Loop

/-- `ufds[i].revents = 0`. -/
def clearEvents (loop : Loop) (entry : ℕ) : Loop :=
  { loop with readable := Function.update loop.readable entry false }

/-- `close(fd)`. -/
def close (loop : Loop) (fd : ℤ) : Loop :=
  { loop with owner := Function.update loop.owner fd none }

/-- `states[i] = EMPTY` and `ufds[i].fd = -1`. -/
def release (loop : Loop) (slot : ℕ) : Loop :=
  { loop with
    states := Function.update loop.states slot .EMPTY
    fds := Function.update loop.fds slot (-1) }

/-- The first free slot, from slot 2 on. -/
def freeSlot (loop : Loop) : Option ℕ :=
  (List.range' 2 (maxConnections - 2)).find? fun slot => loop.states slot = .EMPTY

/-- The descriptor of a new connection. -/
def openConnection (loop : Loop) (fd : ℕ) : Loop :=
  { loop with
    owner := Function.update loop.owner fd (some (.connection loop.accepted))
    accepted := loop.accepted + 1 }

/-- A slot for a new connection. -/
def occupy (loop : Loop) (slot : ℕ) (fd : ℕ) : Loop :=
  { loop with
    fds := Function.update loop.fds slot fd
    states := Function.update loop.states slot .INIT
    partialFilepaths := Function.update loop.partialFilepaths slot [] }

/-- The branch for the listening socket. -/
def acceptConnection (loop : Loop) (answers : Answers) : Loop :=
  match answers.accept with
  | none => loop
  | some newFd =>
      let opened := loop.openConnection newFd
      if answers.fcntl then
        match opened.freeSlot with
        | none => { opened with status := .exited }
        | some slot => (opened.occupy slot newFd).clearEvents 0
      else opened

/-- `'\\n'`. -/
def newline : UInt8 := 10

/-- `tpool.queue_task(task)`. -/
def queueTask (loop : Loop) (slot : ℕ) : Loop :=
  { loop with
    states := Function.update loop.states slot .PROC
    taskQueue := loop.taskQueue ++
      [⟨loop.fds slot, loop.partialFilepaths slot, loop.owner (loop.fds slot)⟩] }

/-- The loop over the received bytes. -/
def assemble (slot : ℕ) : List UInt8 → Loop → Loop
  | [], loop => loop
  | byte :: rest, loop =>
      if byte = newline then loop.queueTask slot
      else
        assemble slot rest
          { loop with
            partialFilepaths := Function.update loop.partialFilepaths slot
              (loop.partialFilepaths slot ++ [byte]) }

/-- The branch for RECV. -/
def receive (loop : Loop) (answers : Answers) (slot : ℕ) : Loop :=
  match answers.recv with
  | none => loop
  | some bytes => (assemble slot bytes loop).clearEvents slot

/-- The bytes of one send, noted with the connection they go to. -/
def handOver (loop : Loop) (slot : ℕ) (bytes : List UInt8) : Loop :=
  { loop with
    sent := loop.sent ++
      [⟨loop.answering slot, loop.owner (loop.partialSends slot).fd, bytes⟩] }

/-- The branch for SEND. -/
def sendPart (loop : Loop) (answers : Answers) (slot : ℕ) : Loop :=
  match answers.send with
  | .failed => loop
  | .accepted sentBytes =>
      let visit := sendVisit (loop.partialSends slot) (.accepted sentBytes)
      let handed := loop.handOver slot visit.handed
      if visit.closes then
        ((handed.close (loop.partialSends slot).fd).release slot).clearEvents slot
      else handed.clearEvents slot

/-- What `states[i]` reads. -/
def stateAt (loop : Loop) (answers : Answers) (entry : ℕ) : SlotState :=
  if entry < maxConnections then loop.states entry else answers.beyond

/-- The body of the loop over `ufds`. -/
def visit (loop : Loop) (answers : Answers) (entry : ℕ) : Loop :=
  if entry = maxConnections ∧ loop.readable entry then
    if answers.pipeRead < 0 then loop else loop.clearEvents entry
  else if entry = 0 then
    if loop.readable 0 then loop.acceptConnection answers else loop
  else
    match loop.stateAt answers entry with
    | .RECV => if loop.readable entry then loop.receive answers entry else loop
    | .SEND => loop.sendPart answers entry
    | _ => loop

/-- The state transition after the visits. -/
def startReceiving (loop : Loop) : Loop :=
  { loop with
    states := fun slot =>
      if 1 ≤ slot ∧ slot < maxConnections ∧ loop.states slot = .INIT then .RECV
      else loop.states slot }

/-- The phase after a visit. -/
def advance (loop : Loop) (entry : ℕ) : Loop :=
  if entry < maxConnections then { loop with phase := .visiting (entry + 1) }
  else { loop.startReceiving with phase := .results }

/-! ### Results -/

/-- The search for a descriptor in `ufds`. -/
def stateIndex (loop : Loop) (fd : ℤ) : Option ℕ :=
  (List.range maxConnections).find? fun slot => loop.fds slot = fd

/-- A result in a slot: closed without a buffer, or ready to be sent. -/
def store (loop : Loop) (slot : ℕ) (result : Result) : Loop :=
  match result.buffer with
  | none => ((loop.close result.fd).release slot).clearEvents slot
  | some buffer =>
      { loop with
        partialSends := Function.update loop.partialSends slot (.ofResult result.fd buffer)
        answering := Function.update loop.answering slot result.origin
        states := Function.update loop.states slot .SEND }

/-- The body of the loop over the results. -/
def handleResult (loop : Loop) (result : Result) : Loop :=
  if result.fd > 0 then
    match loop.stateIndex result.fd with
    | none => { loop with status := .notFound }
    | some slot => loop.store slot result
  else { loop with status := .notPositive }

end Loop

/-! ### The machine -/

/-- The labels of the steps. -/
inductive Event where
  | poll (readable : ℕ → Bool)
  | visit (answers : Answers)
  | result
  /-- A worker takes a task. -/
  | take
  /-- A worker has read, or failed to open, the file of a task it took. -/
  | finish (index : ℕ) (buffer : Option Memory)

/-- An accepted descriptor is not open yet. -/
def Loop.Fresh (loop : Loop) (answers : Answers) : Prop :=
  ∀ fd ∈ answers.accept, loop.owner (fd : ℤ) = none

instance freshDecidable (loop : Loop) (answers : Answers) : Decidable (loop.Fresh answers) := by
  unfold Loop.Fresh
  infer_instance

/-- One step of the loop or of a worker; none when it is not the turn of the step.
While the results are handled, the workers cannot queue one. -/
def Loop.step (loop : Loop) (event : Event) : Option Loop :=
  if loop.status = .running then
    match event, loop.phase with
    | .poll readable, .polling => some { loop with readable := readable, phase := .visiting 0 }
    | .visit answers, .visiting entry =>
        if loop.Fresh answers then some ((loop.visit answers entry).advance entry) else none
    | .result, .results =>
        match loop.resultQueue with
        | [] => some { loop with phase := .polling }
        | result :: rest => some ({ loop with resultQueue := rest }.handleResult result)
    | .take, _ =>
        match loop.taskQueue with
        | [] => none
        | task :: rest =>
            if loop.reading.length < threadPoolSize then
              some { loop with taskQueue := rest, reading := loop.reading ++ [task] }
            else none
    | .finish index buffer, _ =>
        if loop.phase = .results then none
        else
          match loop.reading[index]? with
          | none => none
          | some task =>
              some { loop with
                reading := loop.reading.eraseIdx index
                resultQueue := loop.resultQueue ++ [⟨task.fd, buffer, task.origin⟩] }
    | _, _ => none
  else none

/-- What a step can do. -/
inductive Transition (loop : Loop) : Event → Loop → Prop
  | poll (readable : ℕ → Bool) (turn : loop.phase = .polling) :
      Transition loop (.poll readable) { loop with readable := readable, phase := .visiting 0 }
  | visit (answers : Answers) (entry : ℕ) (turn : loop.phase = .visiting entry)
      (fresh : loop.Fresh answers) :
      Transition loop (.visit answers) ((loop.visit answers entry).advance entry)
  | idle (turn : loop.phase = .results) (empty : loop.resultQueue = []) :
      Transition loop .result { loop with phase := .polling }
  | result (result : Result) (rest : List Result) (turn : loop.phase = .results)
      (queue : loop.resultQueue = result :: rest) :
      Transition loop .result ({ loop with resultQueue := rest }.handleResult result)
  | take (task : Task) (rest : List Task) (queue : loop.taskQueue = task :: rest) :
      Transition loop .take { loop with taskQueue := rest, reading := loop.reading ++ [task] }
  | finish (index : ℕ) (buffer : Option Memory) (task : Task)
      (found : loop.reading[index]? = some task) :
      Transition loop (.finish index buffer) { loop with
        reading := loop.reading.eraseIdx index
        resultQueue := loop.resultQueue ++ [⟨task.fd, buffer, task.origin⟩] }

/-- Every step is one of these. -/
theorem Loop.transition_of_step {loop next : Loop} {event : Event}
    (taken : loop.step event = some next) : Transition loop event next := by
  unfold Loop.step at taken
  split at taken
  · split at taken
    · rename_i readable turn
      cases taken
      exact .poll readable turn
    · rename_i answers entry turn
      split at taken
      · rename_i fresh
        cases taken
        exact .visit answers entry turn fresh
      · cases taken
    · rename_i turn
      split at taken
      · rename_i empty
        cases taken
        exact .idle turn empty
      · rename_i result rest queue
        cases taken
        exact .result result rest turn queue
    · split at taken
      · cases taken
      · rename_i task rest queue
        split at taken
        · cases taken
          exact .take task rest queue
        · cases taken
    · rename_i index buffer
      split at taken
      · cases taken
      · split at taken
        · cases taken
        · rename_i task found
          cases taken
          exact .finish index buffer task found
    · cases taken
  · cases taken

/-- What `async_serv` starts with: its descriptors, and the poll entries that it
does not initialise. -/
structure Setup where
  socketFd : ℤ
  pipeFd : ℤ
  opened : ℤ → Bool
  stackFds : ℕ → ℤ
  stackReadable : ℕ → Bool
  socketOpen : opened socketFd = true

/-- The state before the first poll. -/
def Setup.start (setup : Setup) : Loop where
  fds := fun entry =>
    if entry = 0 then setup.socketFd
    else if entry = maxConnections then setup.pipeFd
    else setup.stackFds entry
  readable := fun entry => if entry = maxConnections then false else setup.stackReadable entry
  states := fun _ => .EMPTY
  partialFilepaths := fun _ => []
  partialSends := fun _ => ⟨0, 0, fun _ => 0⟩
  answering := fun _ => none
  taskQueue := []
  reading := []
  resultQueue := []
  owner := fun fd => if setup.opened fd then some .process else none
  accepted := 0
  sent := []
  phase := .polling
  status := .running

/-- The event loop with the workers. -/
def Setup.machine (setup : Setup) : Machine Loop Event where
  init := setup.start
  step := Loop.step

/-! ### The entry that is visited -/

theorem phase_handleResult (loop : Loop) (result : Result) :
    (loop.handleResult result).phase = loop.phase := by
  unfold Loop.handleResult Loop.store
  split
  · split
    · rfl
    · split <;> rfl
  · rfl

/-- A visit is one of an entry of `ufds`. -/
theorem bounded_of_transition {loop next : Loop} {event : Event}
    (transition : Transition loop event next)
    (bounded : ∀ entry, loop.phase = .visiting entry → entry ≤ maxConnections) :
    ∀ entry, next.phase = .visiting entry → entry ≤ maxConnections := by
  intro entry visits
  cases transition with
  | poll readable turn =>
      cases visits
      exact Nat.zero_le _
  | visit answers visited turn fresh =>
      unfold Loop.advance at visits
      split at visits
      · cases visits
        omega
      · cases visits
  | idle turn empty => cases visits
  | result result rest turn queue =>
      rw [phase_handleResult] at visits
      exact bounded entry visits
  | take task rest queue => exact bounded entry visits
  | finish index buffer task found => exact bounded entry visits

/-- The loop over `ufds` visits the entries up to the pipe. -/
theorem bounded_of_reachable (setup : Setup) {loop : Loop}
    (reached : setup.machine.Reachable loop) :
    ∀ entry, loop.phase = .visiting entry → entry ≤ maxConnections := by
  apply reached.invariant
  · intro entry visits
    cases visits
  · intro state event next _ bounded taken
    exact bounded_of_transition (Loop.transition_of_step taken) bounded

end CSE550.WebServer
