import CSE550.WebServer.Assembly
import CSE550.WebServer.Service
import Mathlib.Data.List.Nodup

/-!
Owns that the event loop with its workers gives the service: what is seen of a run of the
loop is a run of the service, as long as the search for the slot of a result is not
disturbed.

A connection stands where the loop has it, in a slot or on an errand to a worker and back,
and it is in one place only.
-/

namespace CSE550.WebServer

open CSE550.Lib

/-! ### What is seen of the loop -/

/-- The number of a connection. -/
def Owner.number : Owner → Option ℕ
  | .process => none
  | .connection number => some number

theorem Owner.bind_number {owner : Option Owner} {number : ℕ}
    (isConnection : owner = some (.connection number)) : owner.bind Owner.number = some number := by
  rw [isConnection]
  rfl

/-- What a step of the loop or of a worker does for a connection. -/
def Loop.seen (loop : Loop) (event : Event) : List Action :=
  match event, loop.phase with
  | .visit answers, .visiting entry =>
      if entry = 0 then
        if loop.readable 0 ∧ answers.accept.isSome then [.accept loop.accepted] else []
      else if loop.Receives entry then
        match answers.recv, (loop.owner (loop.fds entry)).bind Owner.number with
        | some bytes, some number => [.hear number bytes]
        | _, _ => []
      else if entry < maxConnections ∧ loop.states entry = .SEND then
        let partialSend := loop.partialSends entry
        match answers.send, (loop.owner partialSend.fd).bind Owner.number with
        | .accepted sentBytes, some number => [.reply number (partialSend.handed sentBytes)]
        | _, _ => []
      else []
  | .finish index buffer, _ =>
      match loop.reading[index]? with
      | none => []
      | some task =>
          match task.origin.bind Owner.number with
          | some number => [.serve number task.path buffer]
          | none => []
  | _, _ => []

/-- What is seen of a run from the start. -/
def Setup.history (setup : Setup) (events : List Event) : List Action :=
  setup.machine.trace Loop.seen setup.start events

/-! ### Where a connection stands -/

/-- What a slot tells of its connection. -/
def Loop.slotStage (loop : Loop) (slot : ℕ) : Option Stage :=
  match loop.states slot with
  | .INIT | .RECV => some (.hearing (loop.partialFilepaths slot))
  | .SEND => some (.served (some (loop.partialSends slot).buffer))
  | .EMPTY | .PROC => none

/-- A request on its way to a worker or back. -/
structure Errand where
  fd : ℤ
  origin : Option Owner
  stage : Stage

def Task.errand (task : Task) : Errand := ⟨task.fd, task.origin, .asked task.path⟩

def Result.errand (result : Result) : Errand := ⟨result.fd, result.origin, .served result.buffer⟩

def Loop.errands (loop : Loop) : List Errand :=
  loop.taskQueue.map Task.errand ++
    (loop.reading.map Task.errand ++ loop.resultQueue.map Result.errand)

/-- The loop shows a connection at a stage: in a slot, or on an errand. -/
def Loop.Shows (loop : Loop) (number : ℕ) (stage : Stage) : Prop :=
  (∃ slot < maxConnections, loop.owner (loop.fds slot) = some (.connection number) ∧
    loop.slotStage slot = some stage) ∨
  ∃ errand ∈ loop.errands, errand.origin = some (.connection number) ∧ errand.stage = stage

/-- Connections have different descriptors, and their numbers are given. -/
structure Owners (loop : Loop) : Prop where
  numbered : ∀ fd number, loop.owner fd = some (.connection number) → number < loop.accepted
  single : ∀ fd other number, loop.owner fd = some (.connection number) →
    loop.owner other = some (.connection number) → fd = other

/-- The loop and the service agree. -/
structure Tracks (loop : Loop) (service : Service) : Prop where
  new : ∀ number, loop.accepted ≤ number → service.stage number = none
  sound : ∀ number stage, loop.Shows number stage → service.stage number = some stage
  /-- What is to be done is somewhere in the loop. -/
  complete : loop.status = .running → ∀ number stage, service.stage number = some stage →
    stage.Pending → loop.Shows number stage
  begins : ∀ slot, (loop.partialSends slot).sendIndex = 0
  sent : loop.sent.map (fun sent => (sent.onto, sent.bytes)) =
    service.replies.map fun reply => (some (.connection reply.1), reply.2)

section Shows

variable {loop next : Loop} {number : ℕ} {stage : Stage}

theorem Loop.used_of_slotStage {slot : ℕ} (shows : loop.slotStage slot = some stage) :
    loop.states slot ≠ .EMPTY ∧ loop.states slot ≠ .PROC := by
  constructor
  · intro isEmpty
    simp [slotStage, isEmpty] at shows
  · intro isProc
    simp [slotStage, isProc] at shows

theorem Loop.outstanding_eq (loop : Loop) :
    loop.outstanding = loop.errands.map fun errand => (errand.fd, errand.origin) := by
  simp only [outstanding, errands, List.map_append, List.map_map]
  rfl

/-- An errand is one of the slot in PROC that has its descriptor. -/
theorem Kept.errand (kept : Kept loop) {errand : Errand} (member : errand ∈ loop.errands) :
    loop.owner errand.fd = errand.origin ∧
      ∃ slot < maxConnections, loop.states slot = .PROC ∧ loop.fds slot = errand.fd := by
  have outstanding : (errand.fd, errand.origin) ∈ loop.outstanding := by
    rw [loop.outstanding_eq]
    exact List.mem_map_of_mem member
  obtain ⟨_, owner, holder⟩ := kept.served _ outstanding
  exact ⟨owner, holder⟩

/-- Errands have different descriptors. -/
theorem Kept.errand_eq (kept : Kept loop) {errand other : Errand} (member : errand ∈ loop.errands)
    (otherMember : other ∈ loop.errands) (same : errand.fd = other.fd) : errand = other := by
  have once := kept.once
  rw [loop.outstanding_eq, List.map_map] at once
  exact List.inj_on_of_nodup_map once member otherMember same

/-- A connection is shown with one descriptor. -/
theorem Kept.holder (kept : Kept loop) (shows : loop.Shows number stage) :
    ∃ slot < maxConnections, loop.owner (loop.fds slot) = some (.connection number) ∧
      loop.states slot ≠ .EMPTY ∧ (loop.slotStage slot = some stage ∨ loop.states slot = .PROC ∧
        ∃ errand ∈ loop.errands, errand.fd = loop.fds slot ∧ errand.stage = stage) := by
  rcases shows with ⟨slot, inside, holds, isStage⟩ | ⟨errand, member, origin, isStage⟩
  · exact ⟨slot, inside, holds, (Loop.used_of_slotStage isStage).1, .inl isStage⟩
  · obtain ⟨owner, slot, inside, proc, same⟩ := kept.errand member
    refine ⟨slot, inside, ?_, by simp [proc], .inr ⟨proc, errand, member, same.symm, isStage⟩⟩
    rw [same, owner, origin]

/-- A connection is shown at one stage. -/
theorem Kept.shows_unique (kept : Kept loop) (owners : Owners loop) {other : Stage}
    (shows : loop.Shows number stage) (otherShows : loop.Shows number other) : stage = other := by
  obtain ⟨slot, inside, holds, used, place⟩ := kept.holder shows
  obtain ⟨slot', inside', holds', used', place'⟩ := kept.holder otherShows
  obtain rfl : slot = slot' :=
    kept.slots.distinct slot inside slot' inside' used used' (owners.single _ _ _ holds holds')
  rcases place with isStage | ⟨proc, errand, member, same, isStage⟩
  · rcases place' with isOther | ⟨proc, _⟩
    · exact Option.some.inj (isStage.symm.trans isOther)
    · exact absurd proc (Loop.used_of_slotStage isStage).2
  · rcases place' with isOther | ⟨_, errand', member', same', isOther⟩
    · exact absurd proc (Loop.used_of_slotStage isOther).2
    · rw [← isStage, ← isOther, kept.errand_eq member member' (same.trans same'.symm)]

/-- A connection without a descriptor is not shown. -/
theorem Kept.not_shows (kept : Kept loop)
    (unowned : ∀ fd, loop.owner fd ≠ some (.connection number)) : ¬ loop.Shows number stage := by
  intro shows
  obtain ⟨slot, _, holds, _⟩ := kept.holder shows
  exact unowned _ holds

/-- A loop that shows the same. -/
structure Loop.Alike (loop next : Loop) : Prop where
  accepted : next.accepted = loop.accepted
  shows : ∀ number stage, next.Shows number stage ↔ loop.Shows number stage
  running : next.status = .running → loop.status = .running
  begins : (∀ slot, (loop.partialSends slot).sendIndex = 0) →
    ∀ slot, (next.partialSends slot).sendIndex = 0
  sent : next.sent = loop.sent

theorem Tracks.alike {service : Service} (tracks : Tracks loop service)
    (alike : loop.Alike next) : Tracks next service where
  new := by
    rw [alike.accepted]
    exact tracks.new
  sound := fun number stage shows => tracks.sound number stage ((alike.shows number stage).mp shows)
  complete := fun running number stage isStage pending =>
    (alike.shows number stage).mpr
      (tracks.complete (alike.running running) number stage isStage pending)
  begins := alike.begins tracks.begins
  sent := by
    rw [alike.sent]
    exact tracks.sent

/-- One connection goes on, and the others are shown as before. -/
theorem Tracks.move {service : Service} (tracks : Tracks loop service) {number : ℕ} {stage : Stage}
    (new : next.accepted = max loop.accepted (number + 1))
    (others : ∀ other ≠ number, ∀ stage, next.Shows other stage ↔ loop.Shows other stage)
    (own : ∀ shown, next.Shows number shown → shown = stage)
    (pending : next.status = .running → stage.Pending → next.Shows number stage)
    (running : next.status = .running → loop.status = .running)
    (begins : ∀ slot, (next.partialSends slot).sendIndex = 0) {replies : List (ℕ × List UInt8)}
    (sent : next.sent.map (fun sent => (sent.onto, sent.bytes)) =
      replies.map fun reply => (some (.connection reply.1), reply.2)) :
    Tracks next { service.move number stage with replies := replies } where
  new := by
    intro other above
    have different : other ≠ number := by omega
    exact (service.move_other stage different).trans (tracks.new other (by omega))
  sound := by
    intro other shown shows
    by_cases same : other = number
    · subst same
      rw [own shown shows]
      exact Service.move_same _ _ _
    · exact (service.move_other stage same).trans
        (tracks.sound other shown ((others other same shown).mp shows))
  complete := by
    intro isRunning other shown isStage isPending
    by_cases same : other = number
    · subst same
      obtain rfl : stage = shown :=
        Option.some.inj ((Service.move_same service other stage).symm.trans isStage)
      exact pending isRunning isPending
    · have before := (service.move_other stage same).symm.trans isStage
      exact (others other same shown).mpr
        (tracks.complete (running isRunning) other shown before isPending)
  begins := begins
  sent := sent

/-- Only one slot changes, which is one connection's before and after, and so do errands
of that connection: half of what the others see. -/
theorem Loop.Shows.elsewhere {slot other : ℕ} (shows : loop.Shows other stage)
    (different : other ≠ number)
    (slots : ∀ away ≠ slot, away < maxConnections → loop.slotStage away ≠ none →
      next.slotStage away = loop.slotStage away ∧
        next.owner (next.fds away) = loop.owner (loop.fds away))
    (before : slot < maxConnections → loop.slotStage slot ≠ none →
      loop.owner (loop.fds slot) = some (.connection number))
    (errands : ∀ errand ∈ loop.errands, errand.origin ≠ some (.connection number) →
      errand ∈ next.errands) : next.Shows other stage := by
  have another : some (Owner.connection other) ≠ some (.connection number) := by
    simpa using different
  rcases shows with ⟨place, inside, holds, isStage⟩ | ⟨errand, member, origin, isStage⟩
  · have shown : loop.slotStage place ≠ none := by simp [isStage]
    have away : place ≠ slot := by
      rintro rfl
      exact another (holds.symm.trans (before inside shown))
    obtain ⟨sameStage, sameOwner⟩ := slots place away inside shown
    exact .inl ⟨place, inside, sameOwner.trans holds, sameStage.trans isStage⟩
  · exact .inr ⟨errand, errands errand member (origin ▸ another), origin, isStage⟩

/-- The others see nothing of a change in one slot and of errands of its connection. -/
theorem Loop.shows_elsewhere {slot other : ℕ} (different : other ≠ number)
    (slots : ∀ away ≠ slot, next.slotStage away = loop.slotStage away)
    (held : ∀ away ≠ slot, away < maxConnections → loop.slotStage away ≠ none →
      next.owner (next.fds away) = loop.owner (loop.fds away))
    (before : slot < maxConnections → loop.slotStage slot ≠ none →
      loop.owner (loop.fds slot) = some (.connection number))
    (after : slot < maxConnections → next.slotStage slot ≠ none →
      next.owner (next.fds slot) = some (.connection number))
    (errands : ∀ errand : Errand, errand.origin ≠ some (.connection number) →
      (errand ∈ next.errands ↔ errand ∈ loop.errands)) :
    next.Shows other stage ↔ loop.Shows other stage := by
  constructor
  · intro shows
    apply shows.elsewhere different
    · intro away notSlot inside shown
      rw [slots away notSlot] at shown
      exact ⟨(slots away notSlot).symm, (held away notSlot inside shown).symm⟩
    · exact after
    · exact fun errand member another => (errands errand another).mp member
  · intro shows
    apply shows.elsewhere different
    · exact fun away notSlot inside shown => ⟨slots away notSlot, held away notSlot inside shown⟩
    · exact before
    · exact fun errand member another => (errands errand another).mpr member

end Shows

/-! ### Owners -/

namespace Owners

variable {loop : Loop}

theorem openConnection (owners : Owners loop) (fd : ℕ) : Owners (loop.openConnection fd) := by
  have owner (other : ℤ) : (loop.openConnection fd).owner other =
      if other = fd then some (.connection loop.accepted) else loop.owner other :=
    Function.update_apply _ _ _ _
  constructor
  · intro other number isConnection
    show number < loop.accepted + 1
    rw [owner] at isConnection
    split at isConnection
    · cases isConnection
      omega
    · have before := owners.numbered other number isConnection
      omega
  · intro left right number leftOwner rightOwner
    rw [owner] at leftOwner rightOwner
    split at leftOwner
    · rename_i leftNew
      split at rightOwner
      · rename_i rightNew
        rw [leftNew, rightNew]
      · cases leftOwner
        have before := owners.numbered right _ rightOwner
        omega
    · split at rightOwner
      · cases rightOwner
        have before := owners.numbered left _ leftOwner
        omega
      · exact owners.single left right number leftOwner rightOwner

theorem close (owners : Owners loop) (fd : ℤ) : Owners (loop.close fd) := by
  have closed (other : ℤ) :
      (loop.close fd).owner other = if other = fd then none else loop.owner other :=
    Function.update_apply _ _ _ _
  have owner {other : ℤ} {number : ℕ}
      (isConnection : (loop.close fd).owner other = some (.connection number)) :
      loop.owner other = some (.connection number) := by
    rw [closed] at isConnection
    split at isConnection
    · cases isConnection
    · exact isConnection
  constructor
  · exact fun other number isConnection => owners.numbered other number (owner isConnection)
  · exact fun left right number leftOwner rightOwner =>
      owners.single left right number (owner leftOwner) (owner rightOwner)

theorem receive (owners : Owners loop) (answers : Answers) (slot : ℕ) :
    Owners (loop.receive answers slot) := by
  obtain ⟨readable, same⟩ := loop.receive_eq answers slot
  rw [same, Loop.assemble_eq]
  split <;> exact ⟨owners.numbered, owners.single⟩

theorem visit (owners : Owners loop) (answers : Answers) (entry : ℕ) :
    Owners (loop.visit answers entry) := by
  unfold Loop.visit
  split
  · split <;> exact ⟨owners.numbered, owners.single⟩
  · split
    · split
      · unfold Loop.acceptConnection
        split
        · exact owners
        · rename_i newFd accepted
          have opened := owners.openConnection newFd
          dsimp only
          split
          · split <;> exact ⟨opened.numbered, opened.single⟩
          · exact opened
      · exact owners
    · split
      · split
        · exact owners.receive answers entry
        · exact owners
      · unfold Loop.sendPart
        split
        · exact owners
        · dsimp only
          split
          · have closed := owners.close (loop.partialSends entry).fd
            exact ⟨closed.numbered, closed.single⟩
          · exact ⟨owners.numbered, owners.single⟩
      · exact owners

theorem handleResult (owners : Owners loop) (result : Result) :
    Owners (loop.handleResult result) := by
  unfold Loop.handleResult
  split
  · split
    · exact ⟨owners.numbered, owners.single⟩
    · unfold Loop.store
      split
      · have closed := owners.close result.fd
        exact ⟨closed.numbered, closed.single⟩
      · exact ⟨owners.numbered, owners.single⟩
  · exact ⟨owners.numbered, owners.single⟩

theorem transition (owners : Owners loop) {event : Event} {next : Loop}
    (transition : Transition loop event next) : Owners next := by
  cases transition with
  | visit answers entry turn fresh =>
      have visited := owners.visit answers entry
      unfold Loop.advance
      split <;> exact ⟨visited.numbered, visited.single⟩
  | result result rest turn queue =>
      have popped : Owners { loop with resultQueue := rest } := ⟨owners.numbered, owners.single⟩
      exact popped.handleResult result
  | poll | idle | take | finish => exact ⟨owners.numbered, owners.single⟩

end Owners

/-! ### Steps -/

/-- Some actions of the service restore the agreement. -/
def Follows (service : Service) (actions : List Action) (next : Loop) : Prop :=
  ∃ final, Service.machine.runFrom service actions = some final ∧ Tracks next final

section Steps

variable {loop : Loop} {service : Service} {number slot : ℕ}

theorem Follows.nothing (tracks : Tracks loop service) : Follows service [] loop :=
  ⟨service, rfl, tracks⟩

theorem Follows.action {action : Action} {final : Service} (taken : service.step action = some final)
    (tracks : Tracks loop final) : Follows service [action] loop :=
  ⟨final, Machine.runFrom_cons taken rfl, tracks⟩

theorem Follows.alike {actions : List Action} {next : Loop} (follows : Follows service actions loop)
    (alike : loop.Alike next) : Follows service actions next := by
  obtain ⟨final, run, tracks⟩ := follows
  exact ⟨final, run, tracks.alike alike⟩

theorem Service.move_self {stage : Stage} (isStage : service.stage number = some stage) :
    service.move number stage = service := by
  rw [Service.move, Function.update_eq_self_iff.mpr isStage.symm]

/-- Reports, the phase and the descriptors of a free slot are not seen. -/
theorem Loop.Alike.unseen (loop : Loop) (readable : ℕ → Bool) (phase : Phase) :
    loop.Alike { loop with readable := readable, phase := phase } :=
  ⟨rfl, fun _ _ => Iff.rfl, id, id, rfl⟩

theorem Loop.Alike.trans {next final : Loop} (first : loop.Alike next)
    (second : next.Alike final) : loop.Alike final where
  accepted := second.accepted.trans first.accepted
  shows := fun number stage => (second.shows number stage).trans (first.shows number stage)
  running := fun running => first.running (second.running running)
  begins := fun begins => second.begins (first.begins begins)
  sent := second.sent.trans first.sent

/-- The transition after the visits is not seen. -/
theorem Loop.Alike.startReceiving (loop : Loop) : loop.Alike loop.startReceiving where
  accepted := rfl
  shows := by
    have slots (slot : ℕ) : loop.startReceiving.slotStage slot = loop.slotStage slot := by
      by_cases starts : 1 ≤ slot ∧ slot < maxConnections ∧ loop.states slot = .INIT
      · simp only [Loop.slotStage, Loop.startReceiving, if_pos starts]
        rw [starts.2.2]
      · simp only [Loop.slotStage, Loop.startReceiving, if_neg starts]
    intro number stage
    simp only [Loop.Shows, slots]
    exact Iff.rfl
  running := id
  begins := id
  sent := rfl

theorem Loop.Alike.advance (loop : Loop) (entry : ℕ) : loop.Alike (loop.advance entry) := by
  unfold Loop.advance
  split
  · exact .unseen loop loop.readable _
  · exact (Loop.Alike.startReceiving loop).trans (.unseen _ _ _)

/-- Errands in another order. -/
theorem Loop.Alike.errands {next : Loop} (perm : next.errands.Perm loop.errands)
    (accepted : next.accepted = loop.accepted) (slots : next.slotStage = loop.slotStage)
    (owner : next.owner = loop.owner) (fds : next.fds = loop.fds)
    (status : next.status = loop.status) (partialSends : next.partialSends = loop.partialSends)
    (sent : next.sent = loop.sent) : loop.Alike next where
  accepted := accepted
  shows := by
    intro number stage
    simp only [Loop.Shows, slots, owner, fds, perm.mem_iff]
  running := by
    rw [status]
    exact id
  begins := by
    rw [partialSends]
    exact id
  sent := sent

/-! ### Connections that come and go -/

/-- A new descriptor is not shown. -/
theorem Kept.shows_openConnection (kept : Kept loop) {fd : ℕ} (fresh : loop.owner fd = none)
    (number : ℕ) (stage : Stage) :
    (loop.openConnection fd).Shows number stage ↔ loop.Shows number stage := by
  have slots (slot : ℕ) (inside : slot < maxConnections) (shows : loop.slotStage slot = some stage) :
      (loop.openConnection fd).owner (loop.fds slot) = loop.owner (loop.fds slot) :=
    (kept.slots.owner_openConnection fresh inside (Loop.used_of_slotStage shows).1).2
  constructor
  · rintro (⟨slot, inside, holds, isStage⟩ | errand)
    · exact .inl ⟨slot, inside, (slots slot inside isStage).symm.trans holds, isStage⟩
    · exact .inr errand
  · rintro (⟨slot, inside, holds, isStage⟩ | errand)
    · exact .inl ⟨slot, inside, (slots slot inside isStage).trans holds, isStage⟩
    · exact .inr errand

/-- A connection that is accepted. -/
theorem Tracks.openConnection (tracks : Tracks loop service) (kept : Kept loop) {fd : ℕ}
    (fresh : loop.owner fd = none) :
    Tracks (loop.openConnection fd) (service.move loop.accepted (.hearing [])) := by
  have shows := kept.shows_openConnection fresh
  apply @Tracks.move _ (loop.openConnection fd) _ tracks
  · show loop.accepted + 1 = max loop.accepted (loop.accepted + 1)
    omega
  · exact fun other _ stage => shows other stage
  · intro shown isShown
    have known := tracks.sound _ _ ((shows _ _).mp isShown)
    rw [tracks.new _ le_rfl] at known
    cases known
  · exact fun _ pending => pending.elim
  · exact id
  · exact tracks.begins
  · exact tracks.sent

/-- A connection whose stage in the service does not change. -/
theorem Tracks.keep {next : Loop} (tracks : Tracks loop service) {stage : Stage}
    (isStage : service.stage number = some stage) (accepted : next.accepted = loop.accepted)
    (others : ∀ other ≠ number, ∀ stage, next.Shows other stage ↔ loop.Shows other stage)
    (own : ∀ shown, next.Shows number shown → shown = stage)
    (pending : next.status = .running → stage.Pending → next.Shows number stage)
    (running : next.status = .running → loop.status = .running)
    (begins : ∀ slot, (next.partialSends slot).sendIndex = 0) (sent : next.sent = loop.sent) :
    Tracks next service := by
  have below : number < loop.accepted := by
    by_contra above
    rw [tracks.new number (by omega)] at isStage
    cases isStage
  have moved : Tracks next { service.move number stage with replies := service.replies } := by
    apply tracks.move _ others own pending running begins
    · rw [sent]
      exact tracks.sent
    · rw [accepted]
      omega
  rwa [Service.move_self isStage] at moved

/-- The connection in its slot. -/
theorem Tracks.occupy (tracks : Tracks loop service) {fd : ℕ} (kept : Kept (loop.occupy slot fd))
    (owners : Owners loop) (free : loop.freeSlot = some slot)
    (holds : loop.owner fd = some (.connection number))
    (known : service.stage number = some (.hearing [])) : Tracks (loop.occupy slot fd) service := by
  obtain ⟨_, inside, isFree, _⟩ := Slots.of_freeSlot free
  have after := Slots.occupy_at loop slot fd
  have place : (loop.occupy slot fd).Shows number (.hearing []) := by
    refine .inl ⟨slot, inside, ?_, ?_⟩
    · rw [(after slot).2, if_pos rfl]
      exact holds
    · simp [Loop.slotStage, Loop.occupy]
  apply tracks.keep known
  · rfl
  · intro other different stage
    apply @Loop.shows_elsewhere _ _ _ _ slot _ different
    · intro away notSlot
      simp [Loop.slotStage, Loop.occupy, notSlot]
    · intro away notSlot _ _
      rw [(after away).2, if_neg notSlot]
      rfl
    · intro _ shown
      simp [Loop.slotStage, isFree] at shown
    · intro _ _
      rw [(after slot).2, if_pos rfl]
      exact holds
    · exact fun _ _ => Iff.rfl
  · intro shown isShown
    exact kept.shows_unique ⟨owners.numbered, owners.single⟩ isShown place
  · exact fun _ _ => place
  · exact id
  · exact tracks.begins
  · rfl

/-- A connection that was closed is not shown. -/
theorem Kept.not_shows_retire (kept : Kept (loop.retire slot)) (owners : Owners loop)
    (holds : loop.owner (loop.fds slot) = some (.connection number)) {stage : Stage} :
    ¬ (loop.retire slot).Shows number stage := by
  apply kept.not_shows
  intro fd isConnection
  by_cases same : fd = loop.fds slot
  · subst same
    simp [Loop.retire, Loop.release, Loop.close] at isConnection
  · rw [Slots.owner_retire same] at isConnection
    exact same (owners.single fd _ number isConnection holds)

/-- The others do not see that a connection is closed. -/
theorem Slots.shows_retire (slots : Slots loop) (inside : slot < maxConnections)
    (used : loop.states slot ≠ .EMPTY)
    (holds : loop.owner (loop.fds slot) = some (.connection number)) {other : ℕ}
    (different : other ≠ number) (stage : Stage) :
    (loop.retire slot).Shows other stage ↔ loop.Shows other stage := by
  have after := Slots.retire_at loop slot
  apply @Loop.shows_elsewhere _ _ _ _ slot _ different
  · intro away notSlot
    simp [Loop.slotStage, Loop.retire, Loop.release, Loop.close, notSlot]
  · intro away notSlot isSlot shown
    obtain ⟨stage, isStage⟩ := Option.ne_none_iff_exists'.mp shown
    rw [(after away).2, if_neg notSlot]
    exact slots.owner_fds_retire inside used isSlot (Loop.used_of_slotStage isStage).1 notSlot
  · exact fun _ _ => holds
  · intro _ shown
    simp [Loop.slotStage, (after slot).1] at shown
  · exact fun _ _ => Iff.rfl

/-! ### Visits -/

section Visits

variable {answers : Answers}

theorem Tracks.acceptConnection (tracks : Tracks loop service) (kept : Kept loop)
    (owners : Owners loop) (fresh : loop.Fresh answers) :
    Follows service (if answers.accept.isSome then [.accept loop.accepted] else [])
      (loop.acceptConnection answers) := by
  have keptNext := kept.acceptConnection fresh
  unfold Loop.acceptConnection at keptNext ⊢
  cases accepted : answers.accept with
  | none => exact .nothing tracks
  | some newFd =>
      have opened := tracks.openConnection kept (fresh newFd accepted)
      have taken : service.step (.accept loop.accepted) =
          some (service.move loop.accepted (.hearing [])) := by
        simp [Service.step, tracks.new _ le_rfl]
      rw [accepted] at keptNext
      simp only [Option.isSome_some, if_true] at keptNext ⊢
      apply Follows.action taken
      split
      · rename_i flagged
        rw [if_pos flagged] at keptNext
        cases free : (loop.openConnection newFd).freeSlot with
        | none =>
            dsimp only
            exact ⟨opened.new, opened.sound, (fun running => by cases running), opened.begins,
              opened.sent⟩
        | some slot =>
            rw [free] at keptNext
            dsimp only at keptNext ⊢
            have keptSlot : Kept ((loop.openConnection newFd).occupy slot newFd) :=
              keptNext.unseen _ _ _ _ keptNext.found
            have placed := opened.occupy keptSlot (owners.openConnection newFd) free
              (Function.update_self _ _ _) (Service.move_same _ _ _)
            exact placed.alike (.unseen _ _ _)
      · exact opened

/-- Bytes that are received. -/
theorem Tracks.assemble (tracks : Tracks loop service) (inside : slot < maxConnections)
    (receives : loop.states slot = .RECV) {bytes : List UInt8} (owners : Owners loop)
    (kept : Kept (Loop.assemble slot bytes loop))
    (holds : loop.owner (loop.fds slot) = some (.connection number)) :
    Follows service [.hear number bytes] (Loop.assemble slot bytes loop) := by
  have known : service.stage number = some (.hearing (loop.partialFilepaths slot)) := by
    apply tracks.sound
    exact .inl ⟨slot, inside, holds, by simp [Loop.slotStage, receives]⟩
  have below := owners.numbered _ _ holds
  have taken : service.step (.hear number bytes) =
      some (service.move number (.hear (loop.partialFilepaths slot) bytes)) := by
    simp [Service.step, known]
  apply Follows.action taken
  rw [Loop.assemble_eq] at kept ⊢
  by_cases complete : Loop.newline ∈ bytes
  · rw [if_pos complete] at kept ⊢
    rw [Stage.hear, if_pos complete]
    have errands : ((loop.extend slot bytes).queueTask slot).errands.Perm
        (⟨loop.fds slot, loop.owner (loop.fds slot), .asked (loop.partialFilepaths slot ++
          bytes.takeWhile (· ≠ Loop.newline))⟩ :: loop.errands) := by
      simp only [Loop.errands, Loop.queueTask, Loop.extend, List.map_append, List.map_cons,
        List.map_nil, List.append_assoc, List.singleton_append, Task.errand, Function.update_self]
      exact List.perm_middle
    have place : ((loop.extend slot bytes).queueTask slot).Shows number
        (.asked (loop.partialFilepaths slot ++ bytes.takeWhile (· ≠ Loop.newline))) :=
      .inr ⟨_, errands.mem_iff.mpr List.mem_cons_self, holds, rfl⟩
    apply @Tracks.move _ ((loop.extend slot bytes).queueTask slot) _ tracks
    · show loop.accepted = _
      omega
    · intro other different stage
      apply @Loop.shows_elsewhere _ _ _ _ slot _ different
      · intro away notSlot
        simp [Loop.slotStage, Loop.queueTask, Loop.extend, notSlot]
      · exact fun _ _ _ _ => rfl
      · exact fun _ _ => holds
      · exact fun _ _ => holds
      · intro errand another
        rw [errands.mem_iff, List.mem_cons]
        constructor
        · rintro (rfl | member)
          · exact absurd holds another
          · exact member
        · exact .inr
    · intro shown isShown
      exact kept.shows_unique ⟨owners.numbered, owners.single⟩ isShown place
    · exact fun _ _ => place
    · exact id
    · exact tracks.begins
    · exact tracks.sent
  · rw [if_neg complete] at kept ⊢
    rw [Stage.hear, if_neg complete]
    have whole : bytes.takeWhile (· ≠ Loop.newline) = bytes := by
      rw [List.takeWhile_eq_self_iff]
      exact fun byte member => decide_eq_true fun isNewline => complete (isNewline ▸ member)
    have place : (loop.extend slot bytes).Shows number
        (.hearing (loop.partialFilepaths slot ++ bytes)) := by
      refine .inl ⟨slot, inside, holds, ?_⟩
      simp only [Loop.slotStage, Loop.extend, receives, Function.update_self, whole]
    apply @Tracks.move _ (loop.extend slot bytes) _ tracks
    · show loop.accepted = _
      omega
    · intro other different stage
      apply @Loop.shows_elsewhere _ _ _ _ slot _ different
      · intro away notSlot
        simp [Loop.slotStage, Loop.extend, notSlot]
      · exact fun _ _ _ _ => rfl
      · exact fun _ _ => holds
      · exact fun _ _ => holds
      · exact fun _ _ => Iff.rfl
    · intro shown isShown
      exact kept.shows_unique ⟨owners.numbered, owners.single⟩ isShown place
    · exact fun _ pending => pending.elim
    · exact id
    · exact tracks.begins
    · exact tracks.sent

/-- A send that does not fail is the reply. -/
theorem Tracks.sendPart (tracks : Tracks loop service) (kept : Kept loop) (owners : Owners loop)
    (inside : slot < maxConnections) (sends : loop.states slot = .SEND)
    (holds : loop.owner (loop.fds slot) = some (.connection number)) {sentBytes : ℕ}
    (accepted : answers.send = .accepted sentBytes) :
    Follows service [.reply number ((loop.partialSends slot).handed sentBytes)]
      (loop.sendPart answers slot) := by
  have used : loop.states slot ≠ .EMPTY := by simp [sends]
  have known : service.stage number = some (.served (some (loop.partialSends slot).buffer)) := by
    apply tracks.sound
    exact .inl ⟨slot, inside, holds, by simp [Loop.slotStage, sends]⟩
  have below := owners.numbered _ _ holds
  have first : Holds (loop.partialSends slot).buffer
      ((loop.partialSends slot).handed sentBytes) := by
    simp [Holds, PartialSend.handed, tracks.begins slot]
  have taken : service.step (.reply number ((loop.partialSends slot).handed sentBytes)) =
      some { service.move number .replied with
        replies := service.replies ++
          [(number, (loop.partialSends slot).handed sentBytes)] } := by
    simp [Service.step, known, first]
  apply Follows.action taken
  obtain ⟨sameFd, answering⟩ := kept.sending slot inside sends
  have handed := kept.handOver inside sends ((loop.partialSends slot).handed sentBytes)
  have retired := handed.retire inside used
    (kept.not_outstanding inside used (by simp [sends]))
  have closes : (loop.partialSends slot).sendIndex + sentBytes ≥ sentBytes := by omega
  have next : loop.sendPart answers slot =
      ((loop.handOver slot ((loop.partialSends slot).handed sentBytes)).retire slot).clearEvents
        slot := by
    simp only [Loop.sendPart, accepted, sendVisit, closes, decide_true, if_true, sameFd]
    rfl
  rw [next]
  have moved : Tracks ((loop.handOver slot ((loop.partialSends slot).handed sentBytes)).retire slot)
      { service.move number .replied with
        replies := service.replies ++ [(number, (loop.partialSends slot).handed sentBytes)] } := by
    apply tracks.move
    · show loop.accepted = _
      omega
    · exact fun other different stage =>
        handed.slots.shows_retire inside used holds different stage
    · intro shown isShown
      exact absurd isShown (retired.not_shows_retire ⟨owners.numbered, owners.single⟩ holds)
    · exact fun _ pending => pending.elim
    · exact id
    · exact tracks.begins
    · show (loop.sent ++ [_]).map _ = _
      rw [List.map_append, List.map_append, tracks.sent, List.map_singleton, List.map_singleton,
        sameFd, holds]
  exact moved.alike (.unseen _ _ _)

/-- A visit that is not disturbed. -/
theorem Tracks.visit (tracks : Tracks loop service) (kept : Kept loop) (owners : Owners loop)
    {entry : ℕ} (turn : loop.phase = .visiting entry) (fresh : loop.Fresh answers)
    (bounded : entry ≤ maxConnections)
    (notFirst : loop.Queues answers entry → loop.fds entry ≠ loop.fds 1)
    (beyond : answers.beyond ≠ .SEND) :
    Follows service (loop.seen (.visit answers)) (loop.visit answers entry) := by
  have keptNext := kept.visit fresh bounded notFirst beyond
  simp only [Loop.seen, turn]
  by_cases isListener : entry = 0
  · subst isListener
    rw [if_pos rfl]
    have notPipe : ¬ (0 = maxConnections ∧ loop.readable 0 = true) := fun pipe => by cases pipe.1
    rw [Loop.visit, if_neg notPipe, if_pos rfl]
    by_cases readable : loop.readable 0 = true
    · rw [if_pos readable]
      simp only [readable, true_and]
      exact tracks.acceptConnection kept owners fresh
    · rw [if_neg readable, if_neg fun both => readable both.1]
      exact .nothing tracks
  · rw [if_neg isListener]
    by_cases receives : loop.Receives entry
    · rw [if_pos receives]
      rw [Loop.visit_of_receives receives] at keptNext ⊢
      obtain ⟨_, inside, state, _⟩ := receives
      obtain ⟨_, number, holds⟩ := kept.slots.held entry inside (by simp [state])
      rw [Owner.bind_number holds]
      unfold Loop.receive at keptNext ⊢
      cases received : answers.recv with
      | none => exact .nothing tracks
      | some bytes =>
          rw [received] at keptNext
          dsimp only at keptNext ⊢
          have assembled : Kept (Loop.assemble entry bytes loop) :=
            keptNext.unseen _ _ _ _ keptNext.found
          exact (tracks.assemble inside state owners assembled holds).alike (.unseen _ _ _)
    · rw [if_neg receives]
      by_cases sends : entry < maxConnections ∧ loop.states entry = .SEND
      · rw [if_pos sends]
        obtain ⟨inside, state⟩ := sends
        obtain ⟨_, number, holds⟩ := kept.slots.held entry inside (by simp [state])
        have visit : loop.visit answers entry = loop.sendPart answers entry := by
          have notPipe : ¬ (entry = maxConnections ∧ loop.readable entry = true) := by omega
          rw [Loop.visit, if_neg notPipe, if_neg isListener, Loop.stateAt, if_pos inside, state]
        have sameFd := (kept.sending entry inside state).1
        rw [visit, sameFd, Owner.bind_number holds]
        cases sent : answers.send with
        | failed =>
            rw [Loop.sendPart, sent]
            exact .nothing tracks
        | accepted sentBytes => exact tracks.sendPart kept owners inside state holds sent
      · rw [if_neg sends]
        have idle : loop.Alike (loop.visit answers entry) := by
          unfold Loop.visit
          rw [if_neg isListener]
          split
          · split
            · exact .unseen loop loop.readable loop.phase
            · exact .unseen loop _ loop.phase
          · rename_i notPipe
            have noReport : loop.stateAt answers entry ≠ .SEND := by
              unfold Loop.stateAt
              split
              · rename_i inside
                exact fun state => sends ⟨inside, state⟩
              · exact beyond
            split
            · rename_i state
              split
              · rename_i readable
                have inside : entry < maxConnections := by
                  have notLast : entry ≠ maxConnections := fun isLast => notPipe ⟨isLast, readable⟩
                  omega
                rw [Loop.stateAt, if_pos inside] at state
                exact absurd ⟨isListener, inside, state, readable⟩ receives
              · exact .unseen loop loop.readable loop.phase
            · rename_i state
              exact absurd state noReport
            · exact .unseen loop loop.readable loop.phase
        exact (Follows.nothing tracks).alike idle

end Visits

/-! ### Workers and results -/

/-- A worker has read, or failed to open, the file of a task. -/
theorem Tracks.finish (tracks : Tracks loop service) (kept : Kept loop) (owners : Owners loop)
    {index : ℕ} {task : Task} (found : loop.reading[index]? = some task) (buffer : Option Memory) :
    Follows service (loop.seen (.finish index buffer)) { loop with
      reading := loop.reading.eraseIdx index
      resultQueue := loop.resultQueue ++ [⟨task.fd, buffer, task.origin⟩] } := by
  obtain ⟨inside, same⟩ := List.getElem?_eq_some_iff.mp found
  have before : loop.errands.Perm (task.errand :: (loop.taskQueue.map Task.errand ++
      ((loop.reading.eraseIdx index).map Task.errand ++ loop.resultQueue.map Result.errand))) := by
    have held := (List.getElem_cons_eraseIdx_perm inside).symm.map Task.errand
    rw [same, List.map_cons] at held
    exact ((held.append_right _).append_left _).trans List.perm_middle
  have after : ({ loop with
      reading := loop.reading.eraseIdx index
      resultQueue := loop.resultQueue ++ [⟨task.fd, buffer, task.origin⟩] } : Loop).errands.Perm
      (⟨task.fd, task.origin, .served buffer⟩ :: (loop.taskQueue.map Task.errand ++
        ((loop.reading.eraseIdx index).map Task.errand ++ loop.resultQueue.map Result.errand))) := by
    simp only [Loop.errands, List.map_append, List.map_cons, List.map_nil, ← List.append_assoc]
    exact List.perm_append_singleton _ _
  have member : task.errand ∈ loop.errands := before.mem_iff.mpr List.mem_cons_self
  have keptNext := kept.moved (Kept.outstanding_finish found buffer)
  obtain ⟨owner, slot, isSlot, proc, sameFd⟩ := kept.errand member
  obtain ⟨_, number, holds⟩ := kept.slots.held slot isSlot (by simp [proc])
  have origin : task.origin = some (.connection number) := by
    rw [show task.origin = loop.owner task.errand.fd from owner.symm, ← sameFd]
    exact holds
  have below := owners.numbered _ _ holds
  have known : service.stage number = some (.asked task.path) :=
    tracks.sound _ _ (.inr ⟨_, member, origin, rfl⟩)
  have taken : service.step (.serve number task.path buffer) =
      some (service.move number (.served buffer)) := by
    simp [Service.step, known]
  simp only [Loop.seen, found, Owner.bind_number origin]
  apply Follows.action taken
  have place : ({ loop with
      reading := loop.reading.eraseIdx index
      resultQueue := loop.resultQueue ++ [⟨task.fd, buffer, task.origin⟩] } : Loop).Shows number
      (.served buffer) :=
    .inr ⟨_, after.mem_iff.mpr List.mem_cons_self, origin, rfl⟩
  apply tracks.move
  · show loop.accepted = _
    omega
  · intro other different stage
    apply @Loop.shows_elsewhere _ _ _ _ maxConnections _ different
    · exact fun _ _ => rfl
    · exact fun _ _ _ _ => rfl
    · exact fun inside => absurd inside (lt_irrefl _)
    · exact fun inside => absurd inside (lt_irrefl _)
    · intro errand another
      rw [after.mem_iff, before.mem_iff, List.mem_cons, List.mem_cons]
      have notNew : errand ≠ ⟨task.fd, task.origin, .served buffer⟩ := by
        rintro rfl
        exact another origin
      have notOld : errand ≠ task.errand := by
        rintro rfl
        exact another origin
      simp only [notNew, notOld, false_or]
  · intro shown isShown
    exact keptNext.shows_unique ⟨owners.numbered, owners.single⟩ isShown place
  · exact fun _ _ => place
  · exact id
  · exact tracks.begins
  · exact tracks.sent

/-- A result that is handled changes the slot of its connection only. -/
theorem Tracks.handleResult (tracks : Tracks loop service) (kept : Kept loop)
    (owners : Owners loop) {result : Result} {rest : List Result}
    (queue : loop.resultQueue = result :: rest) :
    Tracks ({ loop with resultQueue := rest }.handleResult result) service := by
  have errands : loop.errands.Perm
      (result.errand :: ({ loop with resultQueue := rest } : Loop).errands) := by
    simp only [Loop.errands, queue, List.map_cons, ← List.append_assoc]
    exact List.perm_middle
  have member : result.errand ∈ loop.errands := errands.mem_iff.mpr List.mem_cons_self
  have outstanding : (result.fd, result.origin) ∈ loop.outstanding := by
    rw [loop.outstanding_eq]
    exact List.mem_map_of_mem member
  obtain ⟨notFirst, owner, slot, inside, proc, sameFd⟩ := kept.served _ outstanding
  have used : loop.states slot ≠ .EMPTY := by simp [proc]
  obtain ⟨_, number, holds⟩ := kept.slots.held slot inside used
  have origin : result.origin = some (.connection number) := by
    rw [← holds, sameFd]
    exact owner.symm
  have known : service.stage number = some (.served result.buffer) :=
    tracks.sound _ _ (.inr ⟨_, member, origin, rfl⟩)
  have poppedSlots : Slots { loop with resultQueue := rest } :=
    kept.slots.relabel rfl rfl fun _ => Iff.rfl
  have index : ({ loop with resultQueue := rest } : Loop).stateIndex result.fd = some slot := by
    rw [show result.fd = loop.fds slot from sameFd.symm]
    exact poppedSlots.stateIndex_eq inside used (by rwa [show loop.fds slot = result.fd from sameFd])
  have keptNext := kept.handleResult queue
  -- without the result, the others are shown as before
  have popped (other : ℕ) (different : other ≠ number) (stage : Stage) :
      ({ loop with resultQueue := rest } : Loop).Shows other stage ↔ loop.Shows other stage := by
    apply @Loop.shows_elsewhere _ _ _ _ slot _ different
    · exact fun _ _ => rfl
    · exact fun _ _ _ _ => rfl
    · exact fun _ _ => holds
    · exact fun _ _ => holds
    · intro errand another
      have notResult : errand ≠ result.errand := by
        rintro rfl
        exact another origin
      rw [errands.mem_iff, List.mem_cons, or_iff_right notResult]
  unfold Loop.handleResult at keptNext ⊢
  split
  · rename_i positive
    rw [if_pos positive, index] at keptNext
    rw [index]
    dsimp only at keptNext ⊢
    unfold Loop.store at keptNext ⊢
    cases hasBuffer : result.buffer with
    | none =>
        rw [hasBuffer, show result.fd = loop.fds slot from sameFd.symm] at keptNext
        rw [show result.fd = loop.fds slot from sameFd.symm]
        rw [hasBuffer] at known
        dsimp only at keptNext ⊢
        have retired : Kept (({ loop with resultQueue := rest } : Loop).retire slot) :=
          keptNext.unseen _ _ _ _ keptNext.found
        have closed : Tracks (({ loop with resultQueue := rest } : Loop).retire slot) service := by
          apply tracks.keep known
          · rfl
          · intro other different stage
            exact (poppedSlots.shows_retire inside used holds different stage).trans
              (popped other different stage)
          · intro shown isShown
            exact absurd isShown
              (retired.not_shows_retire ⟨owners.numbered, owners.single⟩ holds)
          · exact fun _ pending => pending.elim
          · exact id
          · exact tracks.begins
          · rfl
        exact closed.alike (.unseen _ _ _)
    | some buffer =>
        rw [hasBuffer] at keptNext known
        dsimp only at keptNext ⊢
        have place : ({ loop with
            resultQueue := rest
            partialSends := Function.update loop.partialSends slot (.ofResult result.fd buffer)
            answering := Function.update loop.answering slot result.origin
            states := Function.update loop.states slot .SEND } : Loop).Shows number
              (.served (some buffer)) :=
          .inl ⟨slot, inside, holds, by simp [Loop.slotStage, PartialSend.ofResult]⟩
        apply tracks.keep known
        · rfl
        · intro other different stage
          refine Iff.trans ?_ (popped other different stage)
          apply @Loop.shows_elsewhere _ _ _ _ slot _ different
          · intro away notSlot
            simp [Loop.slotStage, notSlot]
          · exact fun _ _ _ _ => rfl
          · exact fun _ _ => holds
          · exact fun _ _ => holds
          · exact fun _ _ => Iff.rfl
        · intro shown isShown
          exact keptNext.shows_unique ⟨owners.numbered, owners.single⟩ isShown place
        · exact fun _ _ => place
        · exact id
        · intro other
          dsimp only
          by_cases same : other = slot
          · rw [same, Function.update_self]
            rfl
          · rw [Function.update_of_ne same]
            exact tracks.begins other
        · rfl
  · refine ⟨tracks.new, fun other stage shows => ?_, (fun running => by cases running),
      tracks.begins, tracks.sent⟩
    apply tracks.sound
    rcases shows with place | ⟨errand, errandMember, errandOrigin, isStage⟩
    · exact .inl place
    · exact .inr ⟨errand, errands.mem_iff.mpr (List.mem_cons_of_mem _ errandMember), errandOrigin,
        isStage⟩

/-- Every undisturbed step is followed by the service. -/
theorem Tracks.transition (tracks : Tracks loop service) (kept : Kept loop) (owners : Owners loop)
    {event : Event} {next : Loop}
    (bounded : ∀ entry, loop.phase = .visiting entry → entry ≤ maxConnections)
    (undisturbed : Undisturbed loop event) (transition : Transition loop event next) :
    Follows service (loop.seen event) next := by
  cases transition with
  | poll readable turn => exact (Follows.nothing tracks).alike (.unseen _ _ _)
  | visit answers entry turn fresh =>
      obtain ⟨notFirst, beyond⟩ := undisturbed.visit turn
      have visited := tracks.visit kept owners turn fresh (bounded entry turn) notFirst beyond
      exact visited.alike (.advance _ _)
  | idle turn empty => exact (Follows.nothing tracks).alike (.unseen _ loop.readable _)
  | result result rest turn queue => exact .nothing (tracks.handleResult kept owners queue)
  | take task rest queue =>
      apply (Follows.nothing tracks).alike
      apply @Loop.Alike.errands loop
      · simp only [Loop.errands, queue, List.map_append, List.map_cons, List.map_nil,
          List.append_assoc, List.cons_append, List.nil_append]
        rw [← List.append_assoc, ← List.append_assoc]
        exact List.perm_middle
      all_goals rfl
  | finish index buffer task found => exact tracks.finish kept owners found buffer

end Steps

/-! ### Runs -/

theorem tracks_start (setup : Setup) : Tracks setup.start Service.machine.init where
  new := fun _ _ => rfl
  sound := by
    rintro number stage (⟨slot, _, _, isStage⟩ | ⟨errand, member, _⟩)
    · cases isStage
    · cases member
  complete := fun _ number stage isStage => by cases isStage
  begins := fun _ => rfl
  sent := rfl

theorem owners_start (setup : Setup) : Owners setup.start := by
  have noConnection (fd : ℤ) (number : ℕ) :
      setup.start.owner fd ≠ some (.connection number) := by
    simp only [Setup.start]
    split <;> simp
  constructor
  · exact fun fd number isConnection => absurd isConnection (noConnection fd number)
  · exact fun fd _ number isConnection => absurd isConnection (noConnection fd number)

/-- What is seen of an undisturbed run is a run of the service. -/
theorem service_of_run (setup : Setup) {events : List Event} {loop : Loop}
    (run : setup.machine.Run events loop)
    (undisturbed : setup.machine.Meets Undisturbed setup.start events) :
    ∃ service, Service.machine.Run (setup.history events) service ∧
      Tracks loop service ∧ Kept loop ∧ Owners loop := by
  apply @Machine.Run.trace_run _ _ setup.machine _ Loop.seen _ Service.machine Undisturbed
    (fun loop service => Tracks loop service ∧ Kept loop ∧ Owners loop) _ _ _ _ run undisturbed
  · exact ⟨tracks_start setup, kept_start setup, owners_start setup⟩
  · intro state service event next reached related condition taken
    obtain ⟨tracks, kept, owners⟩ := related
    have transition := Loop.transition_of_step taken
    have bounded := bounded_of_reachable setup reached
    obtain ⟨final, continued, agrees⟩ :=
      tracks.transition kept owners bounded condition transition
    exact ⟨final, continued, agrees, kept.transition bounded condition transition,
      owners.transition transition⟩

/-- What is seen of an undisturbed run is a run of the service: a connection stands in the
loop where it stands in the service, in one place, and what was sent are the replies. -/
theorem loop_gives_service (setup : Setup) {events : List Event} {loop : Loop}
    (run : setup.machine.Run events loop)
    (undisturbed : setup.machine.Meets Undisturbed setup.start events) :
    ∃ service, Service.machine.Run (setup.history events) service ∧
      (∀ number stage, loop.Shows number stage → service.stage number = some stage) ∧
      (loop.status = .running → ∀ number stage, service.stage number = some stage →
        stage.Pending → loop.Shows number stage) ∧
      loop.sent.map (fun sent => (sent.onto, sent.bytes)) =
        service.replies.map fun reply => (some (.connection reply.1), reply.2) := by
  obtain ⟨service, serviceRun, tracks, _⟩ := service_of_run setup run undisturbed
  exact ⟨service, serviceRun, tracks.sound, tracks.complete, tracks.sent⟩

/-- The connection of `oneRequest` is read for, and gets its reply of two bytes. -/
def oneReply : List Event :=
  oneRequest ++ [.take, .finish 0 (some (fileBuffer [72, 105]))] ++ List.replicate 63 quiet ++
    [.result, .result] ++ round 2 ⟨0, none, true, none, .accepted 2, .EMPTY⟩

theorem loop_gives_service_once :
    ((setupWith 0).after oneReply).sent.map (fun sent => (sent.onto, sent.bytes)) =
        [(some (.connection 0), [72, 105])] ∧
      ∃ service, Service.machine.Run ((setupWith 0).history oneReply) service ∧
        (∀ number stage, ((setupWith 0).after oneReply).Shows number stage →
          service.stage number = some stage) ∧
        (((setupWith 0).after oneReply).status = .running → ∀ number stage,
          service.stage number = some stage → stage.Pending →
            ((setupWith 0).after oneReply).Shows number stage) ∧
        ((setupWith 0).after oneReply).sent.map (fun sent => (sent.onto, sent.bytes)) =
          service.replies.map fun reply => (some (.connection reply.1), reply.2) :=
  ⟨by decide +kernel, loop_gives_service (setupWith 0) (Setup.run_after (by decide +kernel))
    (by decide +kernel)⟩

theorem Asks.unique {heard path other : List UInt8} (asks : Asks heard path)
    (again : Asks heard other) : path = other :=
  asks.2.symm.trans again.2

section Replies

variable {actions : List Action} {service : Service} {loop : Loop}

/-- Every connection that was sent something has its reply. -/
theorem Tracks.reply (tracks : Tracks loop service) {sent : Sent} (member : sent ∈ loop.sent) :
    ∃ reply ∈ service.replies, sent.onto = some (.connection reply.1) ∧ sent.bytes = reply.2 := by
  have mapped : (sent.onto, sent.bytes) ∈
      loop.sent.map fun sent => (sent.onto, sent.bytes) := List.mem_map_of_mem member
  rw [tracks.sent] at mapped
  obtain ⟨reply, inReplies, same⟩ := List.mem_map.mp mapped
  obtain ⟨onto, bytes⟩ := Prod.mk.inj same
  exact ⟨reply, inReplies, onto.symm, bytes.symm⟩

theorem Tracks.onto (tracks : Tracks loop service) :
    loop.sent.map Sent.onto =
      (service.replies.map Prod.fst).map fun number => some (.connection number) := by
  have pairs := congrArg (List.map Prod.fst) tracks.sent
  rw [List.map_map, List.map_map] at pairs
  rw [List.map_map]
  exact pairs

/-- A reply begins what was read for the path that was asked for. -/
theorem Accounted.asked (accounted : Accounted actions service) {reply : ℕ × List UInt8}
    (member : reply ∈ service.replies) : ∃ path buffer, Asks (heardFrom reply.1 actions) path ∧
      readFor reply.1 actions = [(path, some buffer)] ∧ Holds buffer reply.2 := by
  obtain ⟨isDone, path, buffer, wasRead, holds⟩ := accounted.replies reply member
  have explained := accounted.stages reply.1
  rw [isDone] at explained
  obtain ⟨askedPath, known, asks, read⟩ := explained
  rw [wasRead] at read
  simp only [List.cons.injEq, Prod.mk.injEq, and_true] at read
  obtain ⟨rfl, _⟩ := read
  exact ⟨path, buffer, asks, wasRead, holds⟩

/-- Where a request is that was asked. -/
theorem Tracks.whereabouts (tracks : Tracks loop service) (accounted : Accounted actions service)
    (running : loop.status = .running) {number : ℕ} {path : List UInt8}
    (asks : Asks (heardFrom number actions) path) :
    readFor number actions = [] ∧ loop.Shows number (.asked path) ∨
      readFor number actions = [(path, none)] ∨
      ∃ buffer, readFor number actions = [(path, some buffer)] ∧
        (loop.Shows number (.served (some buffer)) ∨
          ∃ sent ∈ loop.sent, sent.onto = some (.connection number)) := by
  have explained := accounted.stages number
  cases stage : service.stage number with
  | none =>
      rw [stage] at explained
      have silent := explained.1 ▸ asks.1
      cases silent
  | some isStage =>
      rw [stage] at explained
      cases isStage with
      | hearing heard =>
          obtain ⟨same, incomplete, _⟩ := explained
          exact absurd (same ▸ asks.1) incomplete
      | asked known =>
          obtain ⟨again, unread⟩ := explained
          obtain rfl := asks.unique again
          exact .inl ⟨unread, tracks.complete running number _ stage trivial⟩
      | served result =>
          obtain ⟨known, again, wasRead⟩ := explained
          obtain rfl := asks.unique again
          cases result with
          | none => exact .inr (.inl wasRead)
          | some buffer =>
              have shows := tracks.complete running number _ stage trivial
              exact .inr (.inr ⟨buffer, wasRead, .inl shows⟩)
      | replied =>
          obtain ⟨known, buffer, again, wasRead⟩ := explained
          obtain rfl := asks.unique again
          refine .inr (.inr ⟨buffer, wasRead, .inr ?_⟩)
          have onto : some (Owner.connection number) ∈ loop.sent.map Sent.onto := by
            rw [tracks.onto]
            exact List.mem_map_of_mem (accounted.done number stage)
          exact List.mem_map.mp onto

end Replies

/-- In every undisturbed run a connection gets one reply at most, which begins what was
read once for the path it asked for; and a request that was asked is with the workers, was
refused, is to be answered, or was answered. -/
theorem one_reply_per_request (setup : Setup) {events : List Event} {loop : Loop}
    (run : setup.machine.Run events loop)
    (undisturbed : setup.machine.Meets Undisturbed setup.start events) :
    (loop.sent.map Sent.onto).Nodup ∧
    (∀ sent ∈ loop.sent, ∃ number path buffer, sent.onto = some (.connection number) ∧
      Asks (heardFrom number (setup.history events)) path ∧
      readFor number (setup.history events) = [(path, some buffer)] ∧ Holds buffer sent.bytes) ∧
    (loop.status = .running → ∀ number path, Asks (heardFrom number (setup.history events)) path →
      readFor number (setup.history events) = [] ∧ loop.Shows number (.asked path) ∨
      readFor number (setup.history events) = [(path, none)] ∨
      ∃ buffer, readFor number (setup.history events) = [(path, some buffer)] ∧
        (loop.Shows number (.served (some buffer)) ∨
          ∃ sent ∈ loop.sent, sent.onto = some (.connection number))) := by
  obtain ⟨service, serviceRun, tracks, _⟩ := service_of_run setup run undisturbed
  have accounted := accounted_of_run serviceRun
  refine ⟨?_, fun sent member => ?_, fun running number path asks => ?_⟩
  · rw [tracks.onto]
    apply accounted.once.map
    intro left right same
    simpa using same
  · obtain ⟨reply, inReplies, onto, bytes⟩ := tracks.reply member
    obtain ⟨path, buffer, asks, wasRead, holds⟩ := accounted.asked inReplies
    exact ⟨reply.1, path, buffer, onto, asks, wasRead, bytes ▸ holds⟩
  · exact tracks.whereabouts accounted running asks

theorem one_reply_per_request_once :
    heardFrom 0 ((setupWith 0).history oneReply) = [97, 10] ∧
      (((setupWith 0).after oneReply).sent.map Sent.onto).Nodup ∧
      (∀ sent ∈ ((setupWith 0).after oneReply).sent, ∃ number path buffer,
        sent.onto = some (.connection number) ∧
        Asks (heardFrom number ((setupWith 0).history oneReply)) path ∧
        readFor number ((setupWith 0).history oneReply) = [(path, some buffer)] ∧
        Holds buffer sent.bytes) ∧
      ∀ number path, Asks (heardFrom number ((setupWith 0).history oneReply)) path →
        readFor number ((setupWith 0).history oneReply) = [] ∧
          ((setupWith 0).after oneReply).Shows number (.asked path) ∨
        readFor number ((setupWith 0).history oneReply) = [(path, none)] ∨
        ∃ buffer, readFor number ((setupWith 0).history oneReply) = [(path, some buffer)] ∧
          (((setupWith 0).after oneReply).Shows number (.served (some buffer)) ∨
            ∃ sent ∈ ((setupWith 0).after oneReply).sent,
              sent.onto = some (.connection number)) := by
  have running : ((setupWith 0).after oneReply).status = .running := by decide +kernel
  have holds := one_reply_per_request (setupWith 0) (Setup.run_after (by decide +kernel))
    (show (setupWith 0).machine.Meets Undisturbed _ oneReply by decide +kernel)
  exact ⟨by decide +kernel, holds.1, holds.2.1, holds.2.2 running⟩

end CSE550.WebServer
