import Reentry.Execution.Run

/-!
One branch of an exploration: a single actor that nobody else is scheduled with, and the choices that
were made for it so far. What the actor sends to itself reaches its own receives; what it sends to others
is dropped, and instances that it creates get identities but never run. Branches share no cells, so each
has a heap of its own.
-/

namespace Reentry

/-- What reaches the actor of a branch, and what it has printed. -/
structure SelfMail where
  /-- Events and payloads that the actor has sent to itself, oldest first. -/
  inbox : List (Value × Value)
  output : List String
deriving DecidableEq, Repr

namespace SelfMail

def empty : SelfMail := ⟨[], []⟩

/-- Keeps what the actor sends to itself and what it prints. -/
def handle : Handler SelfMail
  | _, .enqueue sender target event payload, mail =>
      if target = sender then .ok { mail with inbox := mail.inbox ++ [(event, payload)] } else .ok mail
  | _, .announce .., mail => .ok mail
  | _, .print _ message, mail => .ok { mail with output := mail.output ++ [message] }

end SelfMail

structure Branch where
  state : Running SelfMail
  /-- Choices made, oldest first. -/
  choices : List Bool
  /-- How many instances the actor has created. -/
  created : Nat

inductive Ending where
  /-- The result is built only for its text: a result that nobody asks for may be of any size. -/
  | returned (value : Option (Thunk Tree))
  /-- No message is queued that the pending receive accepts. -/
  | blocked
  /-- Goto, raise or pop. -/
  | transition (reason : YieldReason)
  | failed (cause : RuntimeFailure)
  /-- No frame was left although nothing had returned. -/
  | nothingLeft

namespace Ending

def text : Ending → String
  | .returned (some value) => "returned " ++ value.get.text
  | .returned none => "returned"
  | .blocked => "blocked on receive"
  | .transition reason => reason.name
  | .failed cause => "failed: " ++ cause.message
  | .nothingLeft => "failed: nothing left to run"

end Ending

structure Outcome where
  choices : List Bool
  ending : Ending
  output : List String

namespace Outcome

def choiceMark (chosen : Bool) : Char := if chosen then 't' else 'f'

/-- Choices and ending, then what was printed, line by line. -/
def text (outcome : Outcome) : String :=
  "[" ++ String.ofList (outcome.choices.map choiceMark) ++ "] " ++ outcome.ending.text
    ++ String.join (outcome.output.map ("\n  | " ++ ·))

end Outcome

namespace Branch

def withActor (branch : Branch) (change : Actor → Actor) : Branch :=
  { branch with state := { branch.state with actor := change branch.state.actor } }

/-- A copy of the branch in which all that the actor holds, and every queued event and payload, is
copied on its own. -/
def fork (branch : Branch) : Branch :=
  let copies : Alloc (Actor × List (Value × Value)) := do
    let actor ← branch.state.actor.fork
    let inbox ← branch.state.outside.inbox.mapM fun (event, payload) => do
      let event ← event.deepCopy
      pure (event, ← payload.deepCopy)
    pure (actor, inbox)
  let ((actor, inbox), heap) := copies.run branch.state.heap
  { branch with state := { branch.state with heap, actor, outside := { branch.state.outside with inbox } } }

/-- Supplies the choice that the actor waits for. -/
def choose (branch : Branch) (chosen : Bool) : Branch :=
  let supplied := branch.withActor fun actor =>
    { actor with resume := { actor.resume with nondet := some chosen } }
  { supplied with choices := branch.choices ++ [chosen] }

/-- Supplies the identity of a created instance. -/
def create (branch : Branch) : Branch :=
  let supplied := branch.withActor fun actor =>
    { actor with resume := { actor.resume with created := some ⟨.ofNat (branch.created + 1)⟩ } }
  { supplied with created := branch.created + 1 }

/-- Delivers the oldest queued message that the pending receive accepts, if there is one. -/
def deliver? (branch : Branch) : Option Branch := do
  let state := branch.state
  let (event, payload) ← state.outside.inbox.find? (state.actor.accepts ·.1)
  let left := state.outside.inbox.eraseP (state.actor.accepts ·.1)
  some { branch with state :=
    { state with actor := state.actor.deliver event payload, outside := { state.outside with inbox := left } } }

/-- A branch that has come to its end or to a choice. -/
inductive Halt where
  | ended (ending : Ending) (branch : Branch)
  | choosing (branch : Branch)

/-- Resumes the actor until the branch ends or a choice is needed. At most so many executions are tried;
a branch that needs more, or an execution that needs too many steps, gives nothing. -/
def advance (config : RunConfig SelfMail) : Nat → Branch → Option Halt
  | 0, _ => none
  | rounds + 1, branch =>
      match branch.state.actor.stack with
      | [] => some (.ended .nothingLeft branch)
      | frame :: _ =>
          match config.execute frame.function branch.state with
          | .error .outOfSteps _ => none
          | .error (.failed cause) state => some (.ended (.failed cause) { branch with state })
          | .ok continuation state =>
              let branch := { branch with state }
              match continuation with
              | .completed value _ => some (.ended (.returned (value.map fun value => .mk fun _ => state.heap.tree value)) branch)
              | .suspended .send => advance config rounds branch
              | .suspended .nondet => some (.choosing branch)
              | .suspended (.new ..) => advance config rounds branch.create
              | .suspended .receive =>
                  match branch.deliver? with
                  | some branch => advance config rounds branch
                  | none => some (.ended .blocked branch)
              | .suspended reason =>
                  some (.ended (.transition reason) (branch.withActor fun actor => { actor with stack := [] }))

def outcome (branch : Branch) (ending : Ending) : Outcome :=
  ⟨branch.choices, ending, branch.state.outside.output⟩

end Branch

end Reentry
