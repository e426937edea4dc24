import Reentry.Proofs.Execution.Monad
import Reentry.Proofs.Structure.Spelling
import Reentry.Execution.Step

/-!
What an instruction reads of the call that it belongs to. Operands and places read the locals and the
choices only. An instruction behind which the call always goes on reads what the last invocation handed
back besides, and changes nothing but locals and choices.
-/

namespace Reentry

/-- Two activations in which operands mean the same. -/
structure Activation.Alike (act other : Activation) : Prop where
  locals : other.locals = act.locals
  choices : other.choices = act.choices

namespace Activation

theorem Alike.refl (act : Activation) : act.Alike act := ⟨rfl, rfl⟩

/-- The activation with the locals and choices of another one. -/
def withData (act data : Activation) : Activation := { act with locals := data.locals, choices := data.choices }

end Activation

/-- Whether the instruction reads what the last invocation handed back and the call goes on behind it. -/
def Instr.readsReturn : Instr → Bool
  | .collectReturn _ | .writeBack _ _ => true
  | _ => false

/-- What comes of an instruction, for another activation that is alike. -/
def Flow.forAct (other : Activation) : Flow → Flow
  | .next act => .next (other.withData act)
  | .leave result => .leave result

namespace Env

variable {σ : Type} (env : Env σ) {act other : Activation}

mutual

theorem load_alike (alike : act.Alike other) : (place : Place) → env.load other place = env.load act place
  | .slot _ => by
      simp only [load, alike.locals]
  | .field _ | .trigger | .payload => rfl
  | .part base index => by
      simp only [load, load_alike alike base]
  | .element base key kind => by
      simp only [load, load_alike alike base, eval_alike alike key]

theorem eval_alike (alike : act.Alike other) : (operand : Operand) → env.eval other operand = env.eval act operand
  | .const _ | .this | .default _ => rfl
  | .choice _ => by
      simp only [eval, alike.choices]
  | .load place => by
      simp only [eval, load_alike alike place]
  | .clone inner => by
      simp only [eval, eval_alike alike inner]
  | .unary op arg => by
      simp only [eval, eval_alike alike arg]
  | .binary op lhs rhs => by
      cases op <;> simp only [eval, eval_alike alike lhs, eval_alike alike rhs]
  | .lookup base key kind => by
      simp only [eval, eval_alike alike base, eval_alike alike key]
  | .part base index => by
      simp only [eval, eval_alike alike base]
  | .tuple items => by
      simp only [eval, evalAll_alike alike items]
  | .named fields => by
      simp only [eval, evalFields_alike alike fields]
  | .cast value ty => by
      simp only [eval, eval_alike alike value]
  | .call callee args => by
      simp only [eval, evalArguments_alike alike args]

theorem evalAll_alike (alike : act.Alike other) : (operands : List Operand) → env.evalAll other operands = env.evalAll act operands
  | [] => rfl
  | operand :: rest => by
      simp only [evalAll, eval_alike alike operand, evalAll_alike alike rest]

theorem evalFields_alike (alike : act.Alike other) : (fields : List (String × Operand)) →
    env.evalFields other fields = env.evalFields act fields
  | [] => rfl
  | (name, operand) :: rest => by
      simp only [evalFields, eval_alike alike operand, evalFields_alike alike rest]

theorem evalArguments_alike (alike : act.Alike other) : (args : List Argument) → env.evalArguments other args = env.evalArguments act args
  | [] => rfl
  | .mk operand _ :: rest => by
      simp only [evalArguments, eval_alike alike operand, evalArguments_alike alike rest]

end

section

variable (alike : act.Alike other)

include alike

theorem store_alike (place : Place) (value : Value) :
    env.store other place value = other.withData <$> env.store act place value := by
  have same : other.withData act = other := by
    simp only [Activation.withData, ← alike.locals, ← alike.choices]
  cases place with
  | slot index =>
      simp only [store, alike.locals]
      by_cases bound : index < act.locals.length
      · simp only [bound, if_true, map_pure, Activation.withData, ← alike.choices]
      · simp only [bound, if_false]
        rfl
  | field index =>
      simp only [store, map_bind]
      congr 1
      funext actor
      by_cases bound : index < actor.fields.length
      · simp only [bound, if_true, map_bind, map_pure, same]
      · simp only [bound, if_false]
        rfl
  | trigger | payload => simp only [store, map_bind, map_pure, same]
  | part base index => simp only [store, env.load_alike alike, map_bind, map_pure, same]
  | element base key kind => simp only [store, env.load_alike alike, env.eval_alike alike, map_bind, map_pure, same]

/-- An instruction behind which the call goes on has the same effect in a call that is alike. -/
theorem step_alike {instr : Instr} (straight : instr.isStraight)
    (called : instr.readsReturn → other.lastCall = act.lastCall) :
    env.step other instr = Flow.forAct other <$> env.step act instr := by
  have same : other.withData act = other := by
    simp only [Activation.withData, ← alike.locals, ← alike.choices]
  have stored (new : Activation) (place : Place) (value : Value) :
      env.store (other.withData new) place value = (other.withData new).withData <$> env.store new place value := by
    have again : new.Alike (other.withData new) := ⟨rfl, rfl⟩
    exact env.store_alike again place value
  cases instr with
  | label _ | mark _ | jump _ | jumpUnless _ _ | dispatchReceive _ | invoke _ | propagateSuspension _ _ | «yield» _
  | exit => cases straight
  | assign dest value =>
      simp only [step, env.eval_alike alike, env.store_alike alike, map_bind, Functor.map_map, Flow.forAct]
  | swap dest source =>
      simp only [step, env.load_alike alike, env.store_alike alike, stored, map_bind, bind_map_left, Functor.map_map,
        Flow.forAct]
      rfl
  | update _ _ _ | exchange _ _ _ | remove _ _ _ | insert _ _ _ =>
      simp only [step, replacePart, env.load_alike alike, env.eval_alike alike, env.store_alike alike, map_bind,
        map_pure, Functor.map_map, Flow.forAct, same]
  | assert _ _ =>
      simp only [step, env.eval_alike alike, map_bind]
      congr 1
      funext cond
      congr 1
      funext holds
      cases holds
      · rfl
      · simp only [if_true, map_pure, Flow.forAct, same]
  | print _ _ | announce _ _ | enqueue _ _ _ =>
      simp only [step, enqueue, env.eval_alike alike, env.evalAll_alike alike, map_bind, map_pure, Flow.forAct, same]
  | setGotoTarget _ | registerReceive _ | pushFrame _ _ =>
      simp only [step, env.evalArguments_alike alike, map_bind, map_pure, Flow.forAct, same]
  | collectReturn dest =>
      simp only [step, called rfl, env.store_alike alike]
      rcases act.lastCall with _ | ⟨value, locals⟩ | reason
      · rfl
      · simp only [Functor.map_map, Flow.forAct]
      · rfl
  | writeBack dest slot =>
      simp only [step, called rfl, env.store_alike alike]
      rcases act.lastCall with _ | ⟨value, locals⟩ | reason
      · rfl
      · cases found : locals[slot]? with
        | none =>
            simp only [found]
            rfl
        | some value => simp only [found, Functor.map_map, Flow.forAct]
      · rfl
  | readCreated dest =>
      simp only [step, env.store_alike alike, map_bind]
      congr 1
      funext actor
      cases actor.resume.created with
      | none => rfl
      | some created => simp only [map_bind, Functor.map_map, Flow.forAct]
  | recordChoice number =>
      simp only [step, alike.choices, map_bind]
      congr 1
      funext actor
      cases actor.resume.nondet with
      | none => rfl
      | some chosen => simp only [map_bind, map_pure, Flow.forAct, Activation.withData, alike.locals]

omit alike in
/-- Behind such an instruction the call goes on as it was, but for locals and choices. -/
theorem step_withData {instr : Instr} {after : Activation} {state final : Running σ} (straight : instr.isStraight)
    (succeeds : env.step act instr state = .ok (.next after) final) : act.withData after = after := by
  rw [env.step_alike (Activation.Alike.refl act) straight fun _ => rfl] at succeeds
  obtain ⟨_ | _, _, kept⟩ := Exec.map_eq_ok.mp succeeds
  · cases kept
    rfl
  · cases kept

omit alike in
theorem step_next {instr : Instr} {flow : Flow} {state final : Running σ} (straight : instr.isStraight)
    (succeeds : env.step act instr state = .ok flow final) : ∃ after, flow = .next after := by
  cases instr with
  | label _ | mark _ | jump _ | jumpUnless _ _ | dispatchReceive _ | invoke _ | propagateSuspension _ _ | «yield» _
  | exit => cases straight
  | assign _ _ | swap _ _ | update _ _ _ | exchange _ _ _ | remove _ _ _ | insert _ _ _ | print _ _ | announce _ _
  | enqueue _ _ _ | setGotoTarget _ | registerReceive _ | pushFrame _ _ =>
      simp only [step, Exec.bind_eq_ok, Exec.map_eq_ok, Exec.pure_eq_ok] at succeeds
      grind
  | assert cond message =>
      obtain ⟨_, _, _, holds, _, _, checked⟩ := by simpa only [step, Exec.bind_eq_ok] using succeeds
      cases holds with
      | true => exact ⟨act, (Exec.pure_eq_ok.mp checked).1.symm⟩
      | false => exact (Exec.fail_ne_ok.mp checked).elim
  | collectReturn dest =>
      rcases called : act.lastCall with _ | ⟨value, locals⟩ | reason <;> simp only [step, called] at succeeds
      · exact (Exec.trap_ne_ok.mp succeeds).elim
      · obtain ⟨after, _, rfl⟩ := Exec.map_eq_ok.mp succeeds
        exact ⟨after, rfl⟩
      · exact (Exec.trap_ne_ok.mp succeeds).elim
  | writeBack dest slot =>
      rcases called : act.lastCall with _ | ⟨value, locals⟩ | reason <;> simp only [step, called] at succeeds
      · exact (Exec.trap_ne_ok.mp succeeds).elim
      · cases found : locals[slot]? with
        | none =>
            simp only [found] at succeeds
            exact (Exec.trap_ne_ok.mp succeeds).elim
        | some value =>
            simp only [found] at succeeds
            obtain ⟨after, _, rfl⟩ := Exec.map_eq_ok.mp succeeds
            exact ⟨after, rfl⟩
      · exact (Exec.trap_ne_ok.mp succeeds).elim
  | readCreated dest =>
      obtain ⟨actor, _, _, read⟩ := Exec.bind_eq_ok.mp succeeds
      cases created : actor.resume.created with
      | none =>
          simp only [created] at read
          exact (Exec.trap_ne_ok.mp read).elim
      | some machine =>
          simp only [created] at read
          obtain ⟨_, _, _, stored⟩ := Exec.bind_eq_ok.mp read
          obtain ⟨after, _, rfl⟩ := Exec.map_eq_ok.mp stored
          exact ⟨after, rfl⟩
  | recordChoice number =>
      obtain ⟨actor, _, _, read⟩ := Exec.bind_eq_ok.mp succeeds
      cases chosen : actor.resume.nondet with
      | none =>
          simp only [chosen] at read
          exact (Exec.trap_ne_ok.mp read).elim
      | some value =>
          simp only [chosen] at read
          obtain ⟨_, _, _, recorded⟩ := Exec.bind_eq_ok.mp read
          exact ⟨_, (Exec.pure_eq_ok.mp recorded).1.symm⟩

/-- A request asks and saves the same in a call that is alike. -/
theorem request_alike (request : YieldRequest) :
    env.request other request = (fun result => (other.withData result.1, result.2)) <$> env.request act request := by
  have same : other.withData act = other := by
    simp only [Activation.withData, ← alike.locals, ← alike.choices]
  cases request with
  | goto | raise | pop => simp only [request, map_pure, same]
  | send _ | receive _ | nondet _ =>
      simp only [request, saveFrame, alike.locals, alike.choices, map_bind, map_pure, bind_assoc, pure_bind,
        Activation.withData]
  | new _ _ _ =>
      simp only [request, saveFrame, env.eval_alike alike, alike.locals, alike.choices, map_bind, map_pure, bind_assoc,
        pure_bind, Activation.withData]
  | ret => simp only [request, alike.locals, alike.choices, map_pure, Activation.withData]
  | retValue _ =>
      simp only [request, env.eval_alike alike, alike.locals, alike.choices, map_bind, map_pure, Activation.withData]

end

end Env

end Reentry
