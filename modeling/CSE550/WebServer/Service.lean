import CSE550.WebServer.EventLoop

/-!
Owns the service that the web server is there for: the bytes of a connection up to the
first newline name a file, the file is read once, and the connection gets one reply that
begins what was read, or none.

The service knows connections only: no slots, no descriptors and no threads. It does not
own what is found at a path, nor how much of it the reply has.
-/

namespace CSE550.WebServer

open CSE550.Lib

/-! ### The service -/

/-- How far a connection has come. -/
inductive Stage where
  /-- The bytes heard have no newline. -/
  | hearing (heard : List UInt8)
  /-- The file at the path is to be read. -/
  | asked (path : List UInt8)
  /-- What was read; none when the file could not be opened. -/
  | served (buffer : Option Memory)
  | replied

/-- The accepted connections, and the replies in their order. -/
structure Service where
  stage : ℕ → Option Stage
  replies : List (ℕ × List UInt8)

/-- What is done for a connection. -/
inductive Action where
  | accept (number : ℕ)
  | hear (number : ℕ) (bytes : List UInt8)
  | serve (number : ℕ) (path : List UInt8) (buffer : Option Memory)
  | reply (number : ℕ) (bytes : List UInt8)

/-- The stage after more bytes. -/
def Stage.hear (heard bytes : List UInt8) : Stage :=
  if Loop.newline ∈ bytes then .asked (heard ++ bytes.takeWhile (· ≠ Loop.newline))
  else .hearing (heard ++ bytes)

/-- Something is still to be done. -/
def Stage.Pending : Stage → Prop
  | .asked _ | .served (some _) => True
  | .hearing _ | .served none | .replied => False

namespace Service

/-- One connection goes on. -/
def move (service : Service) (number : ℕ) (stage : Stage) : Service :=
  { service with stage := Function.update service.stage number (some stage) }

@[simp] theorem move_same (service : Service) (number : ℕ) (stage : Stage) :
    (service.move number stage).stage number = some stage := Function.update_self _ _ _

theorem move_other (service : Service) {number other : ℕ} (stage : Stage)
    (different : other ≠ number) :
    (service.move number stage).stage other = service.stage other :=
  Function.update_of_ne different _ _

instance holdsDecidable (buffer : Memory) (bytes : List UInt8) : Decidable (Holds buffer bytes) := by
  unfold Holds
  infer_instance

/-- One action of the service. -/
def step (service : Service) : Action → Option Service
  | .accept number =>
      match service.stage number with
      | none => some (service.move number (.hearing []))
      | some _ => none
  | .hear number bytes =>
      match service.stage number with
      | some (.hearing heard) => some (service.move number (.hear heard bytes))
      | _ => none
  | .serve number path buffer =>
      match service.stage number with
      | some (.asked asked) =>
          if path = asked then some (service.move number (.served buffer)) else none
      | _ => none
  | .reply number bytes =>
      match service.stage number with
      | some (.served (some buffer)) =>
          if Holds buffer bytes then
            some { service.move number .replied with
              replies := service.replies ++ [(number, bytes)] }
          else none
      | _ => none

/-- The service before any connection. -/
def machine : Machine Service Action where
  init := ⟨fun _ => none, []⟩
  step := step

/-- What an action can do. -/
inductive Does (service : Service) : Action → Service → Prop
  | accept (number : ℕ) (new : service.stage number = none) :
      Does service (.accept number) (service.move number (.hearing []))
  | hear (number : ℕ) (heard bytes : List UInt8)
      (hears : service.stage number = some (.hearing heard)) :
      Does service (.hear number bytes) (service.move number (.hear heard bytes))
  | serve (number : ℕ) (path : List UInt8) (buffer : Option Memory)
      (asked : service.stage number = some (.asked path)) :
      Does service (.serve number path buffer) (service.move number (.served buffer))
  | reply (number : ℕ) (buffer : Memory) (bytes : List UInt8)
      (served : service.stage number = some (.served (some buffer)))
      (holds : Holds buffer bytes) :
      Does service (.reply number bytes) { service.move number .replied with
        replies := service.replies ++ [(number, bytes)] }

theorem does_of_step {service next : Service} {action : Action}
    (taken : service.step action = some next) : service.Does action next := by
  unfold step at taken
  split at taken
  · rename_i number
    split at taken
    · rename_i new
      obtain rfl := Option.some.inj taken
      exact .accept number new
    · cases taken
  · rename_i number bytes
    split at taken
    · rename_i heard hears
      obtain rfl := Option.some.inj taken
      exact .hear number heard bytes hears
    · cases taken
  · rename_i number path buffer
    split at taken
    · rename_i asked stage
      split at taken
      · rename_i same
        subst same
        obtain rfl := Option.some.inj taken
        exact .serve number path buffer stage
      · cases taken
    · cases taken
  · rename_i number bytes
    split at taken
    · rename_i buffer served
      split at taken
      · rename_i holds
        obtain rfl := Option.some.inj taken
        exact .reply number buffer bytes served holds
      · cases taken
    · cases taken

end Service

/-! ### The account of a connection -/

/-- The bytes an action hears from a connection. -/
def Action.heard (number : ℕ) : Action → List UInt8
  | .hear other bytes => if other = number then bytes else []
  | .accept _ | .serve _ _ _ | .reply _ _ => []

/-- What an action reads for a connection: the path and what was found there. -/
def Action.reads (number : ℕ) : Action → List (List UInt8 × Option Memory)
  | .serve other path buffer => if other = number then [(path, buffer)] else []
  | .accept _ | .hear _ _ | .reply _ _ => []

/-- All that was heard from a connection. -/
def heardFrom (number : ℕ) (actions : List Action) : List UInt8 :=
  actions.flatMap (Action.heard number)

/-- All that was read for a connection. -/
def readFor (number : ℕ) (actions : List Action) : List (List UInt8 × Option Memory) :=
  actions.flatMap (Action.reads number)

/-- The bytes ask for a path: what comes before their first newline. -/
def Asks (heard path : List UInt8) : Prop :=
  Loop.newline ∈ heard ∧ heard.takeWhile (· ≠ Loop.newline) = path

/-- What was heard and read until a connection came to its stage. -/
def Explained (heard : List UInt8) (reads : List (List UInt8 × Option Memory)) :
    Option Stage → Prop
  | none => heard = [] ∧ reads = []
  | some (.hearing known) => heard = known ∧ Loop.newline ∉ known ∧ reads = []
  | some (.asked path) => Asks heard path ∧ reads = []
  | some (.served buffer) => ∃ path, Asks heard path ∧ reads = [(path, buffer)]
  | some .replied => ∃ path buffer, Asks heard path ∧ reads = [(path, some buffer)]

/-- The account of the actions of a service. -/
structure Accounted (actions : List Action) (service : Service) : Prop where
  stages : ∀ number, Explained (heardFrom number actions) (readFor number actions)
    (service.stage number)
  /-- Who has a reply is done, and the reply begins what was read. -/
  replies : ∀ reply ∈ service.replies, service.stage reply.1 = some .replied ∧
    ∃ path buffer, readFor reply.1 actions = [(path, some buffer)] ∧ Holds buffer reply.2
  once : (service.replies.map Prod.fst).Nodup
  done : ∀ number, service.stage number = some .replied → number ∈ service.replies.map Prod.fst

section Account

variable {actions : List Action} {service next : Service} {action : Action}

theorem heardFrom_snoc (number : ℕ) (actions : List Action) (action : Action) :
    heardFrom number (actions ++ [action]) = heardFrom number actions ++ action.heard number := by
  simp [heardFrom]

theorem readFor_snoc (number : ℕ) (actions : List Action) (action : Action) :
    readFor number (actions ++ [action]) = readFor number actions ++ action.reads number := by
  simp [readFor]

/-- Bytes after those without a newline ask as `Stage.hear` says. -/
theorem Explained.hear {known bytes : List UInt8} (incomplete : Loop.newline ∉ known) :
    Explained (known ++ bytes) [] (some (Stage.hear known bytes)) := by
  have whole : ∀ byte ∈ known, decide (byte ≠ Loop.newline) = true := by
    intro byte member
    exact decide_eq_true fun same => incomplete (same ▸ member)
  unfold Stage.hear
  split
  · rename_i complete
    refine ⟨⟨List.mem_append_right known complete, ?_⟩, rfl⟩
    rw [List.takeWhile_append_of_pos whole]
  · rename_i still
    refine ⟨rfl, ?_, rfl⟩
    rw [List.mem_append]
    exact not_or.mpr ⟨incomplete, still⟩

/-- The connection of an action goes on; the others stay as they are. -/
theorem Accounted.move (accounted : Accounted actions service) {number : ℕ} {stage : Stage}
    (heard : ∀ other ≠ number, action.heard other = [])
    (reads : ∀ other ≠ number, action.reads other = [])
    (explained : Explained (heardFrom number actions ++ action.heard number)
      (readFor number actions ++ action.reads number) (some stage))
    (notDone : service.stage number ≠ some .replied) (goesOn : stage ≠ .replied) :
    Accounted (actions ++ [action]) (service.move number stage) where
  stages := by
    intro other
    rw [heardFrom_snoc, readFor_snoc]
    by_cases same : other = number
    · subst same
      rw [Service.move_same]
      exact explained
    · rw [heard other same, reads other same, List.append_nil, List.append_nil,
        Service.move_other service stage same]
      exact accounted.stages other
  replies := by
    intro reply member
    obtain ⟨isDone, path, buffer, wasRead, holds⟩ := accounted.replies reply member
    have different : reply.1 ≠ number := by
      intro same
      exact notDone (same ▸ isDone)
    rw [Service.move_other service stage different, readFor_snoc, reads _ different,
      List.append_nil]
    exact ⟨isDone, path, buffer, wasRead, holds⟩
  once := accounted.once
  done := by
    intro other isDone
    by_cases same : other = number
    · subst same
      rw [Service.move_same] at isDone
      exact absurd (Option.some.inj isDone) goesOn
    · rw [Service.move_other service stage same] at isDone
      exact accounted.done other isDone

/-- Every action keeps the account. -/
theorem Accounted.step (accounted : Accounted actions service)
    (does : service.Does action next) : Accounted (actions ++ [action]) next := by
  cases does with
  | accept number new =>
      have explained := accounted.stages number
      rw [new] at explained
      apply accounted.move
      · exact fun _ _ => rfl
      · exact fun _ _ => rfl
      · simp [Action.heard, Action.reads, explained.1, explained.2, Explained]
      · simp [new]
      · simp
  | hear number heard bytes hears =>
      have explained := accounted.stages number
      rw [hears] at explained
      obtain ⟨same, incomplete, unread⟩ := explained
      apply accounted.move
      · exact fun other different => if_neg different.symm
      · exact fun _ _ => rfl
      · rw [same, unread, Action.heard, if_pos rfl]
        exact Explained.hear incomplete
      · simp [hears]
      · unfold Stage.hear
        split <;> simp
  | serve number path buffer asked =>
      have explained := accounted.stages number
      rw [asked] at explained
      obtain ⟨asks, unread⟩ := explained
      apply accounted.move
      · exact fun _ _ => rfl
      · exact fun other different => if_neg different.symm
      · refine ⟨path, ?_, ?_⟩
        · rwa [Action.heard, List.append_nil]
        · rw [unread, Action.reads, if_pos rfl, List.nil_append]
      · simp [asked]
      · simp
  | reply number buffer bytes served holds =>
      have explained := accounted.stages number
      rw [served] at explained
      obtain ⟨path, asks, wasRead⟩ := explained
      have unanswered : number ∉ service.replies.map Prod.fst := by
        intro member
        obtain ⟨reply, inReplies, same⟩ := List.mem_map.mp member
        have isDone := (accounted.replies reply inReplies).1
        rw [same, served] at isDone
        cases isDone
      have moved (other : ℕ) (different : other ≠ number) :
          (service.move number .replied).stage other = service.stage other :=
        Service.move_other service _ different
      constructor
      · intro other
        rw [heardFrom_snoc, readFor_snoc]
        simp only [Action.heard, Action.reads, List.append_nil]
        by_cases same : other = number
        · subst same
          simp only [Service.move_same]
          exact ⟨path, buffer, asks, wasRead⟩
        · rw [moved other same]
          exact accounted.stages other
      · intro reply member
        rw [readFor_snoc, Action.reads, List.append_nil]
        rcases List.mem_append.mp member with isOld | isNew
        · have different : reply.1 ≠ number := by
            intro same
            exact unanswered (same ▸ List.mem_map_of_mem isOld)
          rw [moved _ different]
          exact accounted.replies reply isOld
        · obtain rfl := List.mem_singleton.mp isNew
          exact ⟨Service.move_same _ _ _, path, buffer, wasRead, holds⟩
      · rw [List.map_append, List.map_singleton, List.nodup_append]
        refine ⟨accounted.once, by simp, ?_⟩
        intro earlier member last isLast same
        obtain rfl := List.mem_singleton.mp isLast
        exact unanswered (same ▸ member)
      · intro other isDone
        rw [List.map_append, List.mem_append]
        by_cases same : other = number
        · exact .inr (by simp [same])
        · rw [moved other same] at isDone
          exact .inl (accounted.done other isDone)

theorem accounted_of_run (run : Service.machine.Run actions service) :
    Accounted actions service := by
  refine Machine.Run.induct (motive := Accounted) ?_ ?_ run
  · exact ⟨fun _ => ⟨rfl, rfl⟩, fun _ member => absurd member List.not_mem_nil, List.nodup_nil,
      fun _ isDone => by cases isDone⟩
  · intro before previous action next _ accounted taken
    exact accounted.step (Service.does_of_step taken)

end Account

end CSE550.WebServer
