import Mathlib.Data.List.Nodup
import Reentry.Proofs.Choices.Echoed
import Reentry.Proofs.Structure.Simulation

/-!
Scripts: what a statement does, with its choices asked for in front of it. Where a choice has been asked for, the boolean
that was supplied stands in its place from then on, in the tree of the statement itself; so a script has nothing that a
choice is recorded in. What a loop asks for, it asks for before each test of its condition, and an inner statement asks
when it is its turn.
-/

namespace Reentry

inductive Script where
  /-- A step that asks for no choice and reads none. -/
  | step (outline : Outline) (plain : outline.isPlain)
  /-- Asks for a choice and goes on with the boolean that is supplied. -/
  | ask (next : Bool → List Script)
  /-- Takes the boolean that has been supplied. -/
  | take (next : Bool → List Script)
  | branch (cond : Operand) (onTrue onFalse : List Script)
  /-- Asks for so many choices before each test of the condition. -/
  | loop (count : Nat) (cond : List Bool → Operand) (body : List Script)

namespace Script

/-- Asks for so many choices, and does nothing else before they are all there. -/
def choose : Nat → (List Bool → List Script) → List Script
  | 0, next => next []
  | count + 1, next => [.ask fun bit => choose count fun bits => next (bit :: bits)]

def steps (outlines : List Outline) : List Script :=
  outlines.filterMap fun outline => if plain : outline.isPlain then some (.step outline plain) else none

theorem steps_append (first rest : List Outline) : steps (first ++ rest) = steps first ++ steps rest :=
  List.filterMap_append

theorem steps_cons {outline : Outline} (plain : outline.isPlain) (rest : List Outline) :
    steps (outline :: rest) = .step outline plain :: steps rest := by
  simp only [steps, List.filterMap_cons, plain, dite_true]

end Script

namespace Lowering.Scope

variable (scope : Lowering.Scope)

/-- The operand that an expression without choices is lowered to. -/
def operand (expr : Node) : Operand :=
  match expr.lower false .read scope .start with
  | .ok (.value operand, _) => operand
  | _ => .null

/-- Outline of a statement without choices. -/
def outlined (statement : Node) : List Outline :=
  match statement.outline scope .start with
  | .ok (outline, _) => outline
  | .error _ => []

end Lowering.Scope

mutual

def Node.script (scope : Lowering.Scope) : Node → List Script
  | .mk id span kind => kind.script scope id span

def NodeKind.script (scope : Lowering.Scope) (id : NodeId) (span : Span) : NodeKind → List Script
  | .loop cond body =>
      [.loop cond.questions (fun bits => scope.operand (cond.answered bits)) (body.script scope)]
  | .branch cond onTrue onFalse =>
      Script.choose cond.questions fun bits =>
        [.branch (scope.operand (cond.answered bits)) (onTrue.script scope) (scriptOptional scope onFalse)]
  | .seq first rest => first.script scope ++ rest.script scope
  | .block statements => scriptAll scope statements
  | kind => Script.choose kind.questions fun bits => Script.steps (scope.outlined (.mk id span (kind.answered bits)))

def scriptOptional (scope : Lowering.Scope) : Option Node → List Script
  | none => []
  | some node => node.script scope

def scriptAll (scope : Lowering.Scope) : List Node → List Script
  | [] => []
  | node :: rest => node.script scope ++ scriptAll scope rest

end

/-- Script of the body of a function. -/
def Program.script (program : Program) (id : FunctionId) (options : LowerOptions) : Option (List Script) :=
  (program.function? id).map fun info => info.body.script ⟨program, info, options⟩

/-- A player asks before each round; whoever tosses asks and returns what was supplied. -/
example : Sample.game.script ⟨0⟩ {} = some [.loop 1 (fun bits => .const (.bool (bits.getD 0 false)))
    (Script.steps [.act (.pushFrame ⟨1⟩ []), .call ⟨1⟩, .act (.collectReturn (.slot 0))])] := rfl

example : Sample.game.script ⟨1⟩ {} = some [.ask fun bit => [.step (.finish (.retValue (.const (.bool bit)))) rfl]] := rfl

/-- A call that goes along a script: what is still to be done, and its activation, in which no choices are recorded. -/
structure Staging where
  ahead : List Script
  act : Activation

/-- The boolean that was supplied is gone. -/
def Running.taken {σ : Type} (state : Running σ) : Running σ :=
  { state with actor := { state.actor with resume := { state.actor.resume with nondet := none } } }

namespace Env

variable {σ : Type} (env : Env σ)

/-- One step along a script. -/
def stage (staging : Staging) : Exec σ (Turn Staging) := do
  let act := staging.act
  match staging.ahead with
  | [] => close (← env.request act .ret).2
  | .step outline _ :: rest =>
      Turn.map (fun course => ⟨Script.steps course.ahead ++ rest, course.act⟩) <$> env.follow ⟨[outline], act⟩
  | .ask next :: rest => pure (.ask .nondet ⟨.take next :: rest, act.resumed⟩)
  | .take next :: rest =>
      match (← Exec.actor).resume.nondet with
      | some bit =>
          modify Running.taken
          pure (.on ⟨next bit ++ rest, act⟩)
      | none => env.trap .noChoice
  | .branch cond onTrue onFalse :: rest =>
      let cond ← env.eval act cond
      if ← Exec.ofValueOp (cond.asBool "condition") then pure (.on ⟨onTrue ++ rest, act⟩)
      else pure (.on ⟨onFalse ++ rest, act⟩)
  | .loop count cond body :: rest =>
      let round := body ++ [.loop count cond body]
      pure (.on ⟨Script.choose count (fun bits => [.branch (cond bits) round []]) ++ rest, act⟩)

/-- The call after so many steps along a script. -/
def stagedAfter (answers : Nat → Running σ → Running σ) (script : List Script) (locals : List Value) (state : Running σ)
    (count : Nat) : Conversation σ Staging :=
  (Conversation.next env.stage Staging.act answers)^[count] (.start ⟨script, ⟨locals, [], 0, none, none⟩⟩ state)

end Env

/-- Questions for choices that are asked one after the other, each answered by a boolean, with nothing done in between. -/
inductive Consults {σ : Type} (answers : Nat → Running σ → Running σ) (locals : List Value) :
    List (Asked σ) → Running σ → List Bool → List (Asked σ) → Running σ → Prop
  | nil {asked state} : Consults answers locals asked state [] asked state
  | cons {asked state bit bits asked' final} (supplied : (answers asked.length state).actor.resume.nondet = some bit)
      (rest : Consults answers locals (⟨.nondet, locals, state⟩ :: asked) (answers asked.length state).taken bits asked' final) :
      Consults answers locals asked state (bit :: bits) asked' final

/-- What was supplied is taken, and the call goes on with it. -/
theorem Env.stage_take {σ : Type} {env : Env σ} {next : Bool → List Script} {rest : List Script} {act : Activation}
    {state : Running σ} {bit : Bool} (supplied : state.actor.resume.nondet = some bit) :
    env.stage ⟨.take next :: rest, act⟩ state = .ok (.on ⟨next bit ++ rest, act⟩) state.taken := by
  have found : Exec.actor state = .ok state.actor state := rfl
  simp only [stage]
  rw [Exec.bind_of_ok found]
  simp only [supplied]
  rfl

/-- A statement asks for its choices first, and goes on with what was supplied, in order. -/
theorem Script.choose_consults {σ : Type} (env : Env σ) {answers : Nat → Running σ → Running σ} {act : Activation}
    {asked asked' : List (Asked σ)} {state final : Running σ} {bits : List Bool}
    (consults : Consults answers act.locals asked state bits asked' final) (next : List Bool → List Script) (rest : List Script) :
    ∃ after : Activation, after.locals = act.locals ∧
      (Conversation.next env.stage Staging.act answers)^[2 * bits.length]
        ⟨⟨choose bits.length next ++ rest, act⟩, state, asked, none⟩ = ⟨⟨next bits ++ rest, after⟩, final, asked', none⟩ := by
  induction bits generalizing act asked state next with
  | nil =>
      cases consults
      exact ⟨act, rfl, rfl⟩
  | cons bit bits ih =>
      cases consults with
      | cons supplied consults =>
          obtain ⟨after, same, reached⟩ := @ih act.resumed _ _ consults fun bits => next (bit :: bits)
          refine ⟨after, same, ?_⟩
          have took : Conversation.next env.stage Staging.act answers
              ⟨⟨.take (fun bit => choose bits.length fun bits => next (bit :: bits)) :: rest, act.resumed⟩,
                answers asked.length state, ⟨.nondet, act.locals, state⟩ :: asked, none⟩
              = ⟨⟨choose bits.length (fun bits => next (bit :: bits)) ++ rest, act.resumed⟩,
                (answers asked.length state).taken, ⟨.nondet, act.locals, state⟩ :: asked, none⟩ := by
            simp only [Conversation.next, env.stage_take supplied]
          rw [List.length_cons, Nat.mul_succ, Function.iterate_add_apply]
          exact (congrArg _ took).trans reached

end Reentry

/-!
A call along an outline and a call along a script. The first one records the choices that it asks for by number, the second
one has them written into what comes next; a statement of the outline is told by the script if, whatever is recorded for its
numbers, it is carried out as the script goes on with the same booleans.
-/

namespace Reentry

/-- For these numbers, these booleans are known. -/
def Answers (known : Nat → Option Bool) (numbers : List Nat) (bits : List Bool) : Prop :=
  numbers.map known = bits.map some

mutual

/-- What remains of a statement whose choices are known. -/
inductive Begun : (Nat → Option Bool) → List Outline → List Script → Prop
  | steps {known outlines} (plain : ∀ outline ∈ outlines, outline.isPlain) :
      Begun known outlines (Script.steps (outlines.map (Outline.settle known)))
  | branch {known cond onTrue onFalse yes no} (whenTrue : Told onTrue yes) (whenFalse : Told onFalse no) :
      Begun known [.branch cond onTrue onFalse] [.branch (cond.settle known) yes no]

/-- Statements, none of which has been begun, and the script that tells them. -/
inductive Told : List Outline → List Script → Prop
  | nil : Told [] []
  | statement {numbers : List Nat} {outline script outlines scripts} (distinct : numbers.Nodup)
      (begun : ∀ known bits, Answers known numbers bits → Begun known outline (script bits)) (rest : Told outlines scripts) :
      Told (Outline.chooseAll numbers ++ (outline ++ outlines)) (Script.choose numbers.length script ++ scripts)
  | loop {numbers : List Nat} {cond body test round outlines scripts} (distinct : numbers.Nodup)
      (tested : ∀ known bits, Answers known numbers bits → test bits = cond.settle known) (inner : Told body round)
      (rest : Told outlines scripts) :
      Told (.loop numbers cond body :: outlines) (.loop numbers.length test round :: scripts)

end

theorem Told.append {first rest : List Outline} {script scripts : List Script} :
    Told first script → Told rest scripts → Told (first ++ rest) (script ++ scripts)
  | .nil, more => more
  | .statement distinct begun inner, more => by
      simpa only [List.append_assoc] using Told.statement distinct begun (inner.append more)
  | .loop distinct tested body inner, more => .loop distinct tested body (inner.append more)

/-- A call in the middle of anything: still asking for the choices of a statement, some of which are known, about to take
one of them, or past them. -/
inductive Amid (known : Nat → Option Bool) : List Outline → List Script → Prop
  | asking {given numbers : List Nat} {bits outline} {script : List Bool → List Script} {outlines scripts} (distinct : (given ++ numbers).Nodup)
      (answered : Answers known given bits)
      (begun : ∀ later more, Answers later (given ++ numbers) (bits ++ more) → Begun later outline (script more))
      (rest : Told outlines scripts) :
      Amid known (Outline.chooseAll numbers ++ (outline ++ outlines)) (Script.choose numbers.length script ++ scripts)
  | taking {given numbers : List Nat} {number bits outline} {script : List Bool → List Script} {outlines scripts}
      (distinct : (given ++ number :: numbers).Nodup)
      (answered : Answers known given bits)
      (begun : ∀ later more, Answers later (given ++ number :: numbers) (bits ++ more) → Begun later outline (script more))
      (rest : Told outlines scripts) :
      Amid known (.act (.recordChoice number) :: (Outline.chooseAll numbers ++ (outline ++ outlines)))
        (.take (fun bit => Script.choose numbers.length fun more => script (bit :: more)) :: scripts)
  | begun {outline script outlines scripts} (begun : Begun known outline script) (rest : Told outlines scripts) :
      Amid known (outline ++ outlines) (script ++ scripts)

theorem Told.amid {known : Nat → Option Bool} {outlines : List Outline} {scripts : List Script} (told : Told outlines scripts) :
    Amid known outlines scripts :=
  .begun (@Begun.steps known [] nofun) told

namespace Activation

variable {act : Activation}

/-- What is recorded before stays recorded. -/
theorem record_other {number other : Nat} {chosen value : Bool} (differ : other ≠ number)
    (known : act.recorded other = some value) :
    ({ act with choices := recordChoice act.choices number chosen } : Activation).recorded other = some value := by
  have bound : other < act.choices.length := (List.getElem?_eq_some_iff.mp known).1
  simp only [recorded, recordChoice, List.getElem?_set_ne differ.symm]
  rw [List.getElem?_append_left bound]
  exact known

theorem record_same (number : Nat) (chosen : Bool) :
    ({ act with choices := recordChoice act.choices number chosen } : Activation).recorded number = some chosen := by
  have bound : number < (act.choices ++ List.replicate (number + 1 - act.choices.length) false).length := by
    simp only [List.length_append, List.length_replicate]
    omega
  simp only [recorded, recordChoice, List.getElem?_set_self bound]

theorem record_answers {given : List Nat} {number : Nat} {bits : List Bool} (fresh : number ∉ given)
    (answered : Answers act.recorded given bits) (chosen : Bool) :
    Answers ({ act with choices := recordChoice act.choices number chosen } : Activation).recorded (given ++ [number])
      (bits ++ [chosen]) := by
  rw [Answers, List.map_append, List.map_append, List.map_singleton, List.map_singleton, record_same, ← answered]
  refine congrArg (· ++ _) (List.map_congr_left fun other member => ?_)
  have among : act.recorded other ∈ bits.map some := answered ▸ List.mem_map_of_mem member
  obtain ⟨value, _, known⟩ := List.mem_map.mp among
  have differ : other ≠ number := fun same => fresh (same ▸ member)
  rw [record_other differ known.symm, known]

end Activation

/-- The call along the script is the call along the outline without the choices that it has recorded. -/
def Echoing (course : Course) (staging : Staging) : Prop :=
  Amid course.act.recorded course.ahead staging.ahead ∧ staging.act = course.act.unasked

/-- Asking on, with one more boolean. -/
theorem Amid.taken {known : Nat → Option Bool} {given numbers : List Nat} {number : Nat} {bits : List Bool} {bit : Bool}
    {outline outlines : List Outline} {script : List Bool → List Script} {scripts : List Script}
    (distinct : (given ++ number :: numbers).Nodup) (answered : Answers known (given ++ [number]) (bits ++ [bit]))
    (begun : ∀ later more, Answers later (given ++ number :: numbers) (bits ++ more) → Begun later outline (script more))
    (rest : Told outlines scripts) :
    Amid known (Outline.chooseAll numbers ++ (outline ++ outlines))
      (Script.choose numbers.length (fun more => script (bit :: more)) ++ scripts) := by
  refine @Amid.asking known (given ++ [number]) numbers (bits ++ [bit]) _ _ _ _ ?_ answered (fun later more holds => ?_) rest
  · simpa only [List.append_assoc, List.singleton_append] using distinct
  · exact begun later (bit :: more) (by simpa only [List.append_assoc, List.singleton_append] using holds)

namespace Env

variable {σ : Type} {env : Env σ} {act : Activation} {state : Running σ} {outline outlines : List Outline}
  {script scripts : List Script}

/-- Both calls take a step that is the same to all around them. -/
abbrev Matches (env : Env σ) (state : Running σ) (act : Activation) (outlines : List Outline) (scripts : List Script) : Prop :=
  Agree Echoing (env.follow ⟨outlines, act⟩ state) (env.stage ⟨scripts, act.unasked⟩ state)

theorem matches_end : env.Matches state act [] [] :=
  .ended

/-- A step of a statement whose choices are known. -/
theorem matches_step {step : Outline} {steps : List Outline} (plain : ∀ outline ∈ step :: steps, outline.isPlain)
    (rest : Told outlines scripts) :
    env.Matches state act ((step :: steps) ++ outlines)
      (Script.steps ((step :: steps).map (Outline.settle act.recorded)) ++ scripts) := by
  obtain ⟨first, others⟩ := List.forall_mem_cons.mp plain
  have first' : (step.settle act.recorded).isPlain := by rw [step.settle_isPlain, first]
  rw [List.map_cons, Script.steps_cons first']
  change Agree Echoing (env.follow ⟨step :: (steps ++ outlines), act⟩ state)
    ((Turn.map _ <$> env.follow ⟨[step.settle act.recorded], act.unasked⟩) state)
  rw [env.follow_cons act step (steps ++ outlines), env.follow_settled act first, Functor.map_map]
  cases went : env.follow ⟨[step], act⟩ state with
  | error stop final =>
      rw [Exec.map_eq_error.mpr went, Exec.map_eq_error.mpr went]
      exact .error
  | ok turn final =>
      rw [Exec.map_eq_ok.mpr ⟨_, went, rfl⟩, Exec.map_eq_ok.mpr ⟨_, went, rfl⟩]
      have remains := env.follow_plain act first went
      -- what remains of the step comes in front of the steps behind it
      have echoing (course : Course) (same : course.act.choices = act.choices) (plain : ∀ outline ∈ course.ahead, outline.isPlain) :
          Echoing ⟨course.ahead ++ (steps ++ outlines), course.act⟩
            ⟨Script.steps course.settled.ahead ++ (Script.steps (steps.map (Outline.settle act.recorded)) ++ scripts),
              course.settled.act⟩ := by
        have known : course.act.recorded = act.recorded := by
          funext number
          simp only [Activation.recorded, same]
        have joined : Begun course.act.recorded (course.ahead ++ steps)
            (Script.steps ((course.ahead ++ steps).map (Outline.settle course.act.recorded))) :=
          .steps fun outline member => (List.mem_append.mp member).elim (plain outline) (others outline)
        have amid := Amid.begun joined rest
        rw [List.map_append, Script.steps_append, List.append_assoc, List.append_assoc] at amid
        refine ⟨?_, rfl⟩
        change Amid _ _ (Script.steps (course.ahead.map (Outline.settle course.act.recorded)) ++ _)
        rw [known] at amid ⊢
        exact amid
      cases turn with
      | on course => exact .on (echoing course remains.1 remains.2)
      | ask reason course => exact .ask (echoing course remains.1 remains.2)
      | ended result => exact .ended

theorem matches_branch {cond : Operand} {onTrue onFalse : List Outline} {yes no : List Script} (whenTrue : Told onTrue yes)
    (whenFalse : Told onFalse no) (rest : Told outlines scripts) :
    env.Matches state act (.branch cond onTrue onFalse :: outlines) (.branch (cond.settle act.recorded) yes no :: scripts) := by
  simp only [Matches, follow, stage, env.eval_settle]
  cases evaluated : env.eval act cond state with
  | error stop final =>
      rw [Exec.bind_of_error evaluated, Exec.bind_of_error evaluated]
      exact .error
  | ok value middle =>
      rw [Exec.bind_of_ok evaluated, Exec.bind_of_ok evaluated]
      cases tested : Exec.ofValueOp (value.asBool "condition") middle with
      | error stop final =>
          rw [Exec.bind_of_error tested, Exec.bind_of_error tested]
          exact .error
      | ok holds final =>
          rw [Exec.bind_of_ok tested, Exec.bind_of_ok tested]
          cases holds with
          | true => exact .on ⟨(whenTrue.append rest).amid, rfl⟩
          | false => exact .on ⟨(whenFalse.append rest).amid, rfl⟩

theorem matches_begun (begun : Begun act.recorded outline script) (rest : Told outlines scripts)
    (later : env.Matches state act outlines scripts) : env.Matches state act (outline ++ outlines) (script ++ scripts) := by
  cases begun with
  | @steps _ outline plain =>
      cases outline with
      | nil => exact later
      | cons step steps => exact matches_step plain rest
  | branch whenTrue whenFalse => exact matches_branch whenTrue whenFalse rest

variable {given numbers : List Nat} {number : Nat} {bits : List Bool} {next : List Bool → List Script}

/-- A question for a choice. -/
theorem matches_ask (distinct : (given ++ number :: numbers).Nodup) (answered : Answers act.recorded given bits)
    (begun : ∀ later more, Answers later (given ++ number :: numbers) (bits ++ more) → Begun later outline (next more))
    (rest : Told outlines scripts) :
    env.Matches state act (Outline.chooseAll (number :: numbers) ++ (outline ++ outlines))
      (Script.choose (number :: numbers).length next ++ scripts) :=
  .ask ⟨.taking distinct answered begun rest, rfl⟩

/-- The answer to a question for a choice. -/
theorem matches_take (distinct : (given ++ number :: numbers).Nodup) (answered : Answers act.recorded given bits)
    (begun : ∀ later more, Answers later (given ++ number :: numbers) (bits ++ more) → Begun later outline (next more))
    (rest : Told outlines scripts) :
    env.Matches state act (.act (.recordChoice number) :: (Outline.chooseAll numbers ++ (outline ++ outlines)))
      (.take (fun bit => Script.choose numbers.length fun more => next (bit :: more)) :: scripts) := by
  have found : Exec.actor state = .ok state.actor state := rfl
  simp only [Matches, follow, stage, step, bind_assoc]
  rw [Exec.bind_of_ok found, Exec.bind_of_ok found]
  cases supplied : state.actor.resume.nondet with
  | none => exact .error
  | some bit =>
      have fresh : number ∉ given := fun member =>
        (List.nodup_append.mp distinct).2.2 number member number (by simp) rfl
      exact .on ⟨.taken distinct (Activation.record_answers fresh answered bit) begun rest, rfl⟩

theorem matches_asking (distinct : (given ++ numbers).Nodup) (answered : Answers act.recorded given bits)
    (begun : ∀ later more, Answers later (given ++ numbers) (bits ++ more) → Begun later outline (next more))
    (rest : Told outlines scripts) (later : env.Matches state act outlines scripts) :
    env.Matches state act (Outline.chooseAll numbers ++ (outline ++ outlines)) (Script.choose numbers.length next ++ scripts) := by
  cases numbers with
  | nil =>
      have ready : Begun act.recorded outline (next []) := begun _ [] (by simpa only [List.append_nil] using answered)
      have entered : env.Matches state act (outline ++ outlines) (next [] ++ scripts) := matches_begun ready rest later
      exact entered
  | cons number numbers => exact matches_ask distinct answered begun rest

theorem matches_told : {outlines : List Outline} → {scripts : List Script} → Told outlines scripts →
    env.Matches state act outlines scripts
  | _, _, .nil => matches_end
  | _, _, .statement distinct begun rest =>
      @matches_asking _ _ _ _ _ _ _ [] _ [] _ distinct rfl begun rest (matches_told rest)
  | _, _, .loop distinct tested inner rest => by
      -- a round is a branch behind its choices, with the loop again at the end
      refine .on ⟨@Amid.asking _ [] _ [] [.branch _ _ []] _ _ _ distinct rfl (fun later more holds => ?_) rest, rfl⟩
      rw [tested later more holds]
      exact .branch (inner.append (.loop distinct tested inner .nil)) .nil

theorem matches_amid (amid : Amid act.recorded outlines scripts) : env.Matches state act outlines scripts := by
  cases amid with
  | asking distinct answered begun rest => exact matches_asking distinct answered begun rest (matches_told rest)
  | taking distinct answered begun rest => exact matches_take distinct answered begun rest
  | begun begun rest => exact matches_begun begun rest (matches_told rest)

end Env

end Reentry
