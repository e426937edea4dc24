import Reentry.Proofs.Execution.Watch

/-!
Two ways to run a call with a scheduler that answers. On the trampoline each suspension unwinds the whole
call: every caller saves its frame and leaves, the scheduler answers, and the function on top of the stack
is executed again. In direct style nothing is unwound: a callee runs in place, and an answer is taken in
place where it is asked for, after which the call simply goes on. Only when the answers have run out does
a call in direct style save its frames and leave.
-/

namespace Reentry

/-- An answer of the scheduler: how it changes the world when the call waits for it. -/
abbrev Reply (σ : Type) := Running σ → Running σ

namespace Reply

variable {σ : Type}

/-- Hands over an event that a receive waits for. -/
def deliver (event payload : Value) : Reply σ := fun state => { state with actor := state.actor.deliver event payload }

def choose (chosen : Bool) : Reply σ := fun state =>
  { state with actor := { state.actor with resume := { state.actor.resume with nondet := some chosen } } }

def create (created : MachineId) : Reply σ := fun state =>
  { state with actor := { state.actor with resume := { state.actor.resume with created := some created } } }

end Reply

/-- The state after an answer. An answer neither sees nor changes saved frames and active calls, and the
machine type of the actor stays. -/
def Running.answered {σ : Type} (reply : Reply σ) (state : Running σ) : Running σ :=
  let after := reply { state with actor := { state.actor with stack := [] }, depth := 0 }
  { after with
    actor := { after.actor with stack := state.actor.stack, machine := state.actor.machine }
    depth := state.depth }

/-- A run with the answers that are still to come, the next one first, and the reasons for which the call
has waited, the last one last. -/
structure Talk (σ : Type) where
  state : Running σ
  answers : List (Reply σ)
  asked : List YieldReason

abbrev Talking (σ : Type) := EStateM Stop (Talk σ)

namespace Talking

variable {σ α : Type}

def lift (work : Exec σ α) : Talking σ α := fun talk =>
  match work talk.state with
  | .ok result state => .ok result { talk with state }
  | .error stop state => .error stop { talk with state }

/-- A result with what is left of the talk. -/
def told (answers : List (Reply σ)) (asked : List YieldReason) :
    EStateM.Result Stop (Running σ) α → EStateM.Result Stop (Talk σ) α
  | .ok result state => .ok result ⟨state, answers, asked⟩
  | .error stop state => .error stop ⟨state, answers, asked⟩

/-- Takes the next answer, if there is one. -/
def takeAnswer (reason : YieldReason) : Talking σ Unit := modify fun talk =>
  match talk.answers with
  | [] => talk
  | reply :: rest => ⟨talk.state.answered reply, rest, talk.asked ++ [reason]⟩

def isAnswered : Talking σ Bool := do pure !(← get).answers.isEmpty

/-- Counts a call as active while it runs, however it ends. -/
def counted (call : Talking σ α) : Talking σ α := fun talk =>
  match call { talk with state := { talk.state with depth := talk.state.depth + 1 } } with
  | .ok result talk => .ok result { talk with state := { talk.state with depth := talk.state.depth - 1 } }
  | .error stop talk => .error stop { talk with state := { talk.state with depth := talk.state.depth - 1 } }

end Talking

/-- What the next instruction of a call has to do with suspension. -/
inductive Crossing where
  | call (callee : FunctionId)
  /-- Asks the scheduler. -/
  | ask (question : Question)
  /-- Leaves the call until there is an answer. -/
  | wait (reason : YieldReason)
  /-- Nothing. -/
  | plain

namespace Env

variable {σ : Type} (env : Env σ)

def crossing (act : Activation) : Crossing :=
  match env.routine.body[act.position]?, act.pending with
  | some (.invoke callee), _ => .call callee
  | some (.yield request), _ =>
      match request.question? with
      | some question => .ask question
      | none => .plain
  | some .exit, some (.suspended reason) => if reason.isTerminal then .plain else .wait reason
  | _, _ => .plain

/-- Carries out an instruction in direct style. A question that will be answered saves no frame, and the
exit behind it does not leave. -/
def turn (invoke : FunctionId → Talking σ Continuation) (act : Activation) : Talking σ Flow := do
  let next := { act with position := act.position + 1 }
  match env.crossing act, ← Talking.isAnswered with
  | .call callee, _ => do pure (.next { next with lastCall := some (← invoke callee) })
  | .ask question, true => do
      let reason ← Talking.lift (env.reason next question)
      pure (.next { next with pending := some (.suspended reason) })
  | .wait reason, true => do
      Talking.takeAnswer reason
      pure (.next { next with pending := none })
  | _, _ => Talking.lift (env.move act)

/-- Runs a call in direct style until it is over. -/
def direct (note : Observer σ) (invoke : FunctionId → Talking σ Continuation) :
    Nat → Bool → Activation → Talking σ Continuation
  | 0, _, _ => throw .outOfSteps
  | steps + 1, again, act => do
      Talking.lift (env.look note again act)
      match ← env.turn invoke act with
      | .next after => direct note invoke steps (again && env.isIdle act) after
      | .leave result => pure result

end Env

namespace RunConfig

variable {σ : Type} (config : RunConfig σ) (note : Observer σ)

/-- The surroundings of a routine that runs under observation, at one of the levels of calls. -/
def watchedEnv (levels : Nat) (routine : Routine) : Env σ :=
  ⟨config.image, routine, config.handler, config.watchWithin note levels⟩

/-- Runs a function in direct style, on the frame at the top of the stack. A call inside an expression
cannot be suspended and runs as always. -/
def directWithin : Nat → FunctionId → Talking σ Continuation
  | 0, _ => throw .outOfSteps
  | levels + 1, function => do
      let again := (← get).state.comesBack
      let (routine, act) ← Talking.lift (config.enter function)
      if config.depthLimit ≤ (← get).state.depth then
        Talking.lift (Exec.fail (.callDepthExceeded config.depthLimit))
      else
        let env := config.watchedEnv note levels routine
        Talking.counted (env.direct note (directWithin levels) config.steps again act)

/-- Runs a function in direct style. -/
def direct (function : FunctionId) : Talking σ Continuation :=
  config.directWithin note (config.depthLimit + 1) function

/-- Executes the function of the frame on top of the stack. -/
def watchTop : Exec σ Continuation := do
  match (← Exec.actor).stack with
  | [] => Exec.trap (← Exec.actor).name .emptyStack
  | frame :: _ => config.watchWithin note (config.depthLimit + 1) frame.function

/-- Executes again after each answer, so many times at most. -/
def bounce : Nat → Talking σ Continuation
  | 0 => Talking.lift (config.watchTop note)
  | rounds + 1 => do
      match ← Talking.lift (config.watchTop note) with
      | .completed value locals => pure (.completed value locals)
      | .suspended reason =>
          if reason.isTerminal then pure (.suspended reason)
          else
            Talking.takeAnswer reason
            bounce rounds

/-- Runs the function on top of the stack on the trampoline, until the answers have run out. -/
def trampoline : Talking σ Continuation := do config.bounce note (← get).answers.length

/-- The same with another bound on the steps of a call. -/
def allowing (steps : Nat) : RunConfig σ := { config with steps }

end RunConfig

/-- Whether the instruction has to do with suspension. -/
def Instr.crosses : Instr → Bool
  | .invoke _ | .yield _ | .exit => true
  | _ => false

namespace Talking

variable {σ α : Type} {talk later : Talk σ} {work : Exec σ α} {state : Running σ}

theorem lift_apply (work : Exec σ α) (answers : List (Reply σ)) (asked : List YieldReason) :
    lift work ⟨state, answers, asked⟩ = told answers asked (work state) := by
  unfold lift told
  cases work state <;> rfl

theorem lift_of_ok {result : α} (done : work talk.state = .ok result state) :
    lift work talk = .ok result { talk with state } := by
  rw [lift, done]

theorem lift_of_error {stop : Stop} (failed : work talk.state = .error stop state) :
    lift work talk = .error stop { talk with state } := by
  rw [lift, failed]

theorem lift_eq_ok {result : α} :
    lift work talk = .ok result later ↔ ∃ state, work talk.state = .ok result state ∧ later = { talk with state } := by
  unfold lift
  cases work talk.state with
  | ok value state => grind
  | error stop state => simp

theorem lift_map {β : Type} (change : α → β) : lift (change <$> work) = change <$> lift work := by
  funext talk
  change (match EStateM.map change work talk.state with
    | .ok result state => .ok result { talk with state }
    | .error stop state => .error stop { talk with state }) = EStateM.map change (lift work) talk
  unfold EStateM.map lift
  cases work talk.state <;> rfl

end Talking

namespace Env

variable {σ : Type} {env : Env σ} {act : Activation} {invoke : FunctionId → Talking σ Continuation} {talk : Talk σ}

theorem crossing_plain {instr : Instr} (here : env.routine.body[act.position]? = some instr) (stays : instr.crosses = false) :
    env.crossing act = .plain := by
  unfold crossing
  rw [here]
  cases instr <;> first | rfl | cases stays

theorem crossing_straight {instr : Instr} (here : env.routine.body[act.position]? = some instr) (straight : instr.isStraight) :
    env.crossing act = .plain :=
  crossing_plain here (by cases instr <;> first | rfl | cases straight)

theorem crossing_yield {request : YieldRequest} (here : env.routine.body[act.position]? = some (.yield request)) :
    env.crossing act = (match request.question? with
      | some question => .ask question
      | none => .plain) := by
  unfold crossing
  rw [here]

theorem crossing_exit (here : env.routine.body[act.position]? = some .exit) :
    env.crossing act = (match act.pending with
      | some (.suspended reason) => if reason.isTerminal then .plain else .wait reason
      | _ => .plain) := by
  unfold crossing
  rw [here]
  rcases act.pending with _ | _ | _ <;> rfl

theorem crossing_invoke {callee : FunctionId} (here : env.routine.body[act.position]? = some (.invoke callee)) :
    env.crossing act = .call callee := by
  unfold crossing
  rw [here]

/-- Which instruction is behind each crossing. -/
theorem crossing_spec (act : Activation) : match env.crossing act with
    | .call callee => env.routine.body[act.position]? = some (.invoke callee)
    | .ask question => ∃ request, env.routine.body[act.position]? = some (.yield request) ∧ request.question? = some question
    | .wait reason => env.routine.body[act.position]? = some .exit ∧ act.pending = some (.suspended reason) ∧
        reason.isTerminal = false
    | .plain => True := by
  cases here : env.routine.body[act.position]? with
  | none =>
      have plain : env.crossing act = .plain := by
        unfold crossing
        rw [here]
      rw [plain]
      trivial
  | some instr =>
      cases instr with
      | invoke callee =>
          rw [crossing_invoke here]
      | «yield» request =>
          rw [crossing_yield here]
          cases asked : request.question? with
          | none => trivial
          | some question => exact ⟨request, rfl, asked⟩
      | exit =>
          rw [crossing_exit here]
          rcases pending : act.pending with _ | _ | reason
          · trivial
          · trivial
          · cases final : reason.isTerminal with
            | true =>
                simp only [final, if_true]
            | false =>
                simp only [final]
                exact ⟨trivial, rfl, final⟩
      | _ =>
          rw [crossing_plain here rfl]
          trivial

theorem crossing_eq_call {callee : FunctionId} (calls : env.crossing act = .call callee) :
    env.routine.body[act.position]? = some (.invoke callee) := by
  have spec := env.crossing_spec act
  rwa [calls] at spec

theorem crossing_eq_ask {question : Question} (asks : env.crossing act = .ask question) :
    ∃ request, env.routine.body[act.position]? = some (.yield request) ∧ request.question? = some question := by
  have spec := env.crossing_spec act
  rwa [asks] at spec

theorem crossing_eq_wait {reason : YieldReason} (waits : env.crossing act = .wait reason) :
    env.routine.body[act.position]? = some .exit ∧ act.pending = some (.suspended reason) ∧ reason.isTerminal = false := by
  have spec := env.crossing_spec act
  rwa [waits] at spec

theorem turn_apply : env.turn invoke act talk = (match env.crossing act, !talk.answers.isEmpty with
    | .call callee, _ => do
        pure (.next { act with position := act.position + 1, lastCall := some (← invoke callee) })
    | .ask question, true => do
        let reason ← Talking.lift (env.reason { act with position := act.position + 1 } question)
        pure (.next { act with position := act.position + 1, pending := some (.suspended reason) })
    | .wait reason, true => do
        Talking.takeAnswer reason
        pure (.next { act with position := act.position + 1, pending := none })
    | _, _ => Talking.lift (env.move act) : Talking σ Flow) talk := rfl

theorem turn_plain (plain : env.crossing act = .plain) : env.turn invoke act talk = Talking.lift (env.move act) talk := by
  rw [turn_apply, plain]

theorem turn_ask {question : Question} (asks : env.crossing act = .ask question) (answered : talk.answers ≠ []) :
    env.turn invoke act talk = (do
      let reason ← Talking.lift (env.reason { act with position := act.position + 1 } question)
      pure (.next { act with position := act.position + 1, pending := some (.suspended reason) }) : Talking σ Flow) talk := by
  have some : (!talk.answers.isEmpty) = true := by simpa using answered
  rw [turn_apply, asks, some]

theorem turn_wait {reason : YieldReason} {reply : Reply σ} {rest : List (Reply σ)} (waits : env.crossing act = .wait reason)
    (answered : talk.answers = reply :: rest) :
    env.turn invoke act talk = .ok (.next { act with position := act.position + 1, pending := none })
      ⟨talk.state.answered reply, rest, talk.asked ++ [reason]⟩ := by
  obtain ⟨state, answers, asked⟩ := talk
  cases answered
  rw [turn_apply, waits]
  rfl

/-- When the answers have run out, the call leaves as it does in the code. -/
theorem turn_unanswered (crosses : ∀ callee, env.crossing act ≠ .call callee) (unanswered : talk.answers = []) :
    env.turn invoke act talk = Talking.lift (env.move act) talk := by
  have none : (!talk.answers.isEmpty) = false := by simp [unanswered]
  rw [turn_apply, none]
  cases crossing : env.crossing act with
  | call callee => exact absurd crossing (crosses callee)
  | ask _ | wait _ | plain => rfl

theorem turn_call {callee : FunctionId} (calls : env.crossing act = .call callee) :
    env.turn invoke act talk = (do
      pure (.next { act with position := act.position + 1, lastCall := some (← invoke callee) }) : Talking σ Flow) talk := by
  rw [turn_apply, calls]

end Env

end Reentry
