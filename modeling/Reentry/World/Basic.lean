import Reentry.Execution.Run

/-!
A world of actors that run the code of one image: the heap they share, their mailboxes, and a record of
what they printed and announced. Actors and mailboxes are counted from 0 in the order of their creation.
-/

namespace Reentry

/-- An event on its way, with its payload. -/
structure Message where
  event : Value
  payload : Value
deriving DecidableEq, Repr

/-- What observers have seen of an announced event. Later changes of its parts do not show in it. -/
structure Announcement where
  sender : MachineId
  event : Tree
  payload : Tree
deriving Repr

/-- What lies outside the actors. -/
structure Surroundings where
  /-- Mailbox of each actor, oldest message first. -/
  mailboxes : List (List Message)
  /-- Senders and lines, oldest first. -/
  printed : List (MachineId × String)
  /-- Oldest first. -/
  announced : List Announcement
deriving Repr

namespace Surroundings

def empty : Surroundings := ⟨[], [], []⟩

/-- Adds a message to the end of a mailbox, if there is one of that number. -/
def post? (outside : Surroundings) (mailbox : Nat) (message : Message) : Option Surroundings :=
  if mailbox < outside.mailboxes.length then
    some { outside with mailboxes := outside.mailboxes.modify mailbox (· ++ [message]) }
  else none

/-- Sent events are in the mailbox at once, and share their parts with the sender if it moved them there;
the number of the target is the number of its mailbox. -/
def handle : Handler Surroundings
  | _, .enqueue _ target event payload, outside =>
      match outside.post? target.index.toNat ⟨event, payload⟩ with
      | some outside => .ok outside
      | none => .error (.internal "scheduler" (.noMailbox target))
  | heap, .announce sender event payload, outside =>
      .ok { outside with announced := outside.announced ++ [⟨sender, heap.tree event, heap.tree payload⟩] }
  | _, .print sender message, outside =>
      .ok { outside with printed := outside.printed ++ [(sender, message)] }

end Surroundings

structure World where
  heap : Heap
  actors : List Actor
  outside : Surroundings
  /-- How many calls are active; none between two executions. -/
  depth : Nat

/-- Why something asked of a world was not done. -/
inductive WorldFailure where
  | runtime (cause : RuntimeFailure)
  /-- No such machine type. -/
  | noMachine
  | noActor
  /-- The actor has no saved frame. -/
  | noFrame
  | noField
  | outOfSteps
deriving DecidableEq, Repr

def WorldFailure.ofStop : Stop → WorldFailure
  | .failed cause => .runtime cause
  | .outOfSteps => .outOfSteps

/-- Work on a world that may fail; what was changed before a failure stays. -/
abbrev WorldOp := EStateM WorldFailure World

namespace World

def empty : World := ⟨.empty, [], .empty, 0⟩

/-- A world with the records of past output dropped. -/
def withoutRecords (world : World) : World :=
  { world with outside := { world.outside with printed := [], announced := [] } }

/-- What a run on one actor left behind. -/
def leave (world : World) (number : Nat) (state : Running Surroundings) : World :=
  ⟨state.heap, world.actors.set number state.actor, state.outside, state.depth⟩

variable {α : Type}

/-- Lets one actor of the world do something. -/
def onActor (number : Nat) (work : Exec Surroundings α) : WorldOp α := fun world =>
  match world.actors[number]? with
  | none => .error .noActor world
  | some actor =>
      match work ⟨world.heap, actor, world.outside, world.depth⟩ with
      | .ok result state => .ok result (world.leave number state)
      | .error stop state => .error (.ofStop stop) (world.leave number state)

def ofAlloc (work : Alloc α) : WorldOp α :=
  modifyGet fun world =>
    let (result, heap) := work.run world.heap
    (result, { world with heap })

/-- Adds an actor and its mailbox; gives their number. -/
def add (actor : Actor) : WorldOp Nat :=
  modifyGet fun world =>
    (world.actors.length,
      { world with
        actors := world.actors ++ [actor]
        outside := { world.outside with mailboxes := world.outside.mailboxes ++ [[]] } })

/-- Creates an instance of a machine type. Its identity is its number. -/
def spawn (image : Image) (machine : MachineTypeId) : WorldOp Nat := do
  match image.machine? machine with
  | none => throw .noMachine
  | some decl => add (← ofAlloc (Actor.create ⟨.ofNat (← get).actors.length⟩ machine decl))

/-- Adds a copy of an actor, with the same identity but a mailbox of its own. -/
def fork (number : Nat) : WorldOp Nat := do
  let actor ← onActor number Exec.actor
  add (← ofAlloc actor.fork)

/-- Adds a message to the end of an actor's mailbox. -/
def mail (number : Nat) (message : Message) : WorldOp Unit := do
  let world ← get
  match world.outside.post? number message with
  | some outside => set { world with outside }
  | none => throw .noActor

/-- Delivers the oldest message of the actor's mailbox that it waits for, if there is one. -/
def take (number : Nat) : WorldOp Bool := onActor number do
  let state ← get
  let mailbox := state.outside.mailboxes[number]?.getD []
  match mailbox.find? (state.actor.accepts ·.event) with
  | none => pure false
  | some message =>
      let left := mailbox.eraseP (state.actor.accepts ·.event)
      set { state with
        actor := state.actor.deliver message.event message.payload
        outside := { state.outside with mailboxes := state.outside.mailboxes.set number left } }
      pure true

end World

end Reentry
