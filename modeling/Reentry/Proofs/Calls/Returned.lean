import Reentry.Proofs.Events.Raised
import Reentry.Proofs.Locations.Swap
import Reentry.Proofs.Ownership.Sends
import Reentry.Proofs.Structure.Statements
import Reentry.Proofs.Twins.Mirror

/-!
Lowered code returns copies. The operand of a return is lowered to a copy, unless its value has no parts anyway.
-/

namespace Reentry

/-- Whatever the code returns is a copy. -/
def ReturnsCopies (code : List Instr) : Prop := ∀ value, .yield (.retValue value) ∈ code → value.isCopy

namespace ReturnsCopies

variable {first rest code : List Instr}

theorem none (other : ∀ value, .yield (.retValue value) ∉ code) : ReturnsCopies code := fun value member => absurd member (other value)

theorem append (left : ReturnsCopies first) (right : ReturnsCopies rest) : ReturnsCopies (first ++ rest) := fun value member =>
  (List.mem_append.mp member).elim (left value) (right value)

theorem ret (value : Option Operand) : ReturnsCopies (Template.ret value) := by
  intro operand member
  cases value with
  | none => simp [Template.ret, Template.terminate] at member
  | some value =>
      obtain rfl : operand = value.cloned := by simpa [Template.ret, Template.terminate] using member
      exact value.isCopy_cloned

theorem composes : Composes ReturnsCopies where
  nil := none (by simp)
  append := append
  waypoint waypoint := none fun _ member => by
    rw [← List.mem_singleton.mp member] at waypoint
    cases waypoint
  choose _ _ := none (by simp [Template.choose, Template.suspend])
  receive _ _ _ := none (by simp [Template.receive, Template.suspend, Template.receiveArm])

end ReturnsCopies

open Lower

variable {scope : Lowering.Scope} {start stop : Lowering.Progress} {inNew : Bool} {access : Access} {span : Span} {code : List Instr}

/-- The code of a statement without inner statements. -/
theorem NodeKind.single_returnsCopies {kind : NodeKind} (single : kind.isStructured = false)
    (succeeds : kind.lower inNew access span scope start = .ok (.code code, stop)) : ReturnsCopies code := by
  cases lower_written single succeeds with
  | @ret _ operand => exact .ret operand
  | call => exact .none (by simp [Template.call])
  | assign _ _ assigns =>
      refine assigns.elim ?_ ?_ ?_ ?_ <;> exact fun _ _ => by simp [ReturnsCopies]
  | _ =>
      refine .none fun value member => ?_
      grind [Template.send, Template.new, Template.goto, Template.raise, Template.pop, Template.suspend, Template.terminate]

theorem ReturnsCopies.covers (scope : Lowering.Scope) : Composes.Covers ReturnsCopies scope (fun _ => True) fun _ => True where
  toComposes := composes
  single single _ := NodeKind.single_returnsCopies single
  test _ _ _ := none (by simp)

/-- Lowered programs return copies. -/
theorem Program.lower_returnsCopies {program : Program} {options : LowerOptions} {image : Image} (succeeds : program.lower options = .ok image) :
    ∀ function routine, image.routine? function = some routine → ReturnsCopies routine.body :=
  lower_composes succeeds (.ret none) (fun info _ => info.body.every_trivial) fun _ _ => ReturnsCopies.covers _

end Reentry

/-!
What a call returns. A call that returns a value has copied it last of all, so nothing but the result leads to the cells
that the value consists of.
-/

namespace Reentry

open Exec

variable {σ : Type} {outer : Pairing → σ → σ → Prop} {pairs : Pairing}

/-- A value that is returned has just been copied, in a state from which nothing leads to cells that are not there. -/
def Continuation.HandsOver (outer : Pairing → σ → σ → Prop) (pairs : Pairing) (after : Running σ) : Continuation → Prop
  | .completed (some value) _ => ∃ (more : Pairing) (before : Running σ) (source : Value), pairs.Within more ∧
      before.Twin more outer before ∧ Exec.ofAlloc source.deepCopy before = .ok value after
  | _ => True

theorem Continuation.HandsOver.of_within {more : Pairing} {after : Running σ} {result : Continuation} (within : pairs.Within more)
    (hands : result.HandsOver outer more after) : result.HandsOver outer pairs after := by
  cases result with
  | suspended _ => trivial
  | completed value locals =>
      cases value with
      | none => trivial
      | some value =>
          obtain ⟨most, before, source, within', states, copied⟩ := hands
          exact ⟨most, before, source, within.trans within', states, copied⟩

theorem Value.deepCopy_scalar {value : Value} (scalar : ∀ address, value ≠ .cell address) (heap : Heap) :
    value.deepCopy.run heap = (value, heap) := by
  cases value with
  | cell address => exact absurd rfl (scalar address)
  | _ => rfl

/-- A yield stands in front of an exit. -/
theorem Paired.exit_behind {code : List Instr} {position : Nat} {request : YieldRequest} (paired : Paired code)
    (here : code[position]? = some (.yield request)) : code[position + 1]? = some .exit := by
  induction paired generalizing position with
  | nil => cases here
  | loose loose _ ih =>
      cases position with
      | zero =>
          cases here
          cases loose
      | succ position => exact ih here
  | send _ ih =>
      match position with
      | 0 => cases here
      | 1 => rfl
      | 2 => cases here
      | position + 3 => exact ih here
  | leave _ _ ih =>
      match position with
      | 0 => rfl
      | 1 => cases here
      | position + 2 => exact ih here
  | call _ ih =>
      match position with
      | 0 | 1 => cases here
      | position + 2 => exact ih here

namespace Env

variable {env : Env σ} {act : Activation} {state : Running σ}

/-- Without a result at hand an instruction other than a yield provides none, and no call returns. -/
theorem step_idle {instr : Instr} {flow : Flow} {after : Running σ} (idle : act.pending = none) (other : ∀ request, instr ≠ .yield request)
    (ran : env.step act instr state = .ok flow after) :
    (∃ next, flow = .next next ∧ next.pending = none) ∨ ∃ reason, flow = .leave (.suspended reason) := by
  by_cases loose : instr.isLoose
  · obtain ⟨next, rfl, same, _⟩ := step_goes (Instr.keepsControl_of_isLoose loose) ran
    exact .inl ⟨next, rfl, same.trans idle⟩
  · cases instr with
    | enqueue _ _ _ =>
        obtain ⟨_, _, _, done⟩ := bind_eq_ok.mp ran
        exact .inl ⟨act, (pure_eq_ok.mp done).1.symm, idle⟩
    | «yield» request => exact absurd rfl (other request)
    | exit =>
        unfold step at ran
        rw [idle] at ran
        exact (trap_ne_ok.mp ran).elim
    | invoke _ =>
        obtain ⟨_, _, _, done⟩ := bind_eq_ok.mp ran
        exact .inl ⟨_, (pure_eq_ok.mp done).1.symm, idle⟩
    | propagateSuspension _ _ =>
        cases last : act.lastCall with
        | none =>
            simp only [step, last] at ran
            exact (trap_ne_ok.mp ran).elim
        | some result =>
            cases result with
            | completed _ _ =>
                simp only [step, last] at ran
                exact .inl ⟨act, (pure_eq_ok.mp ran).1.symm, idle⟩
            | suspended reason =>
                simp only [step, last] at ran
                obtain ⟨_, _, _, done⟩ := bind_eq_ok.mp ran
                exact .inr ⟨reason, (pure_eq_ok.mp done).1.symm⟩
    | _ => exact absurd rfl loose

/-- What instructions keep still holds where a run evaluates the value that it ends with: that is an operand of a return, and
nothing comes after it. -/
theorem run_completed (good : Activation → Running σ → Prop)
    (moves : ∀ act state position, good act state → good { act with position } state)
    (keeps : ∀ act state instr next after, instr ∈ env.routine.body → good act state → env.step act instr state = .ok (.next next) after → good next after)
    (paired : Paired env.routine.body) (steps : Nat) (idle : act.pending = none) (holds : good act state) {value : Value} {locals : List Value}
    {after : Running σ} (ran : env.run steps act state = .ok (.completed (some value) locals) after) :
    ∃ last before operand, good last before ∧ .yield (.retValue operand) ∈ env.routine.body ∧ env.eval last operand before = .ok value after := by
  induction steps generalizing act state with
  | zero => cases ran
  | succ steps ih =>
      cases here : env.routine.body[act.position]? with
      | none =>
          rw [run_succ] at ran
          unfold move at ran
          rw [here] at ran
          exact (fail_ne_ok.mp ran).elim
      | some instr =>
          rw [run_step here] at ran
          obtain ⟨flow, middle, stepped, rest⟩ := bind_eq_ok.mp ran
          have moved := moves act state (act.position + 1) holds
          by_cases yields : ∃ request, instr = .yield request
          · obtain ⟨request, rfl⟩ := yields
            obtain ⟨⟨next, result⟩, _, requested, done⟩ := bind_eq_ok.mp stepped
            obtain ⟨rfl, rfl⟩ := pure_eq_ok.mp done
            have exits : env.routine.body[next.position]? = some .exit := by
              rw [request_position requested]
              exact paired.exit_behind here
            cases steps with
            | zero => cases rest
            | succ steps =>
                dsimp only at rest
                rw [@run_step _ _ { next with pending := some result } _ exits] at rest
                obtain ⟨rfl, rfl⟩ := pure_eq_ok.mp rest
                cases request with
                | retValue operand =>
                    obtain ⟨made, _, evaluated, done⟩ := bind_eq_ok.mp requested
                    obtain ⟨same, rfl⟩ := pure_eq_ok.mp done
                    cases same
                    exact ⟨_, state, operand, moved, List.mem_of_getElem? here, evaluated⟩
                | new _ _ _ =>
                    obtain ⟨_, _, _, done⟩ := bind_eq_ok.mp requested
                    cases done
                | _ => cases requested
          · rcases @step_idle _ _ { act with position := act.position + 1 } _ _ _ _ idle (fun request same => yields ⟨request, same⟩) stepped with
              ⟨next, rfl, idle⟩ | ⟨reason, rfl⟩
            · exact ih idle (keeps _ _ _ _ _ (List.mem_of_getElem? here) moved stepped) rest
            · cases rest

section

variable (blind : env.Blind outer)
include blind

/-- A copy is made last of all, if the value has parts. -/
theorem eval_copies (acts : act.Twin pairs act) (states : state.Twin pairs outer state) {operand : Operand} (copy : operand.isCopy)
    {value : Value} {after : Running σ} (ran : env.eval act operand state = .ok value after) :
    ∃ (more : Pairing) (before : Running σ) (source : Value), pairs.Within more ∧ before.Twin more outer before ∧
      Exec.ofAlloc source.deepCopy before = .ok value after := by
  have plain (scalar : ∀ address, value ≠ .cell address) (same : after = state) : ∃ (more : Pairing) (before : Running σ) (source : Value),
      pairs.Within more ∧ before.Twin more outer before ∧ Exec.ofAlloc source.deepCopy before = .ok value after := by
    subst same
    refine ⟨pairs, after, value, .refl _, states, ?_⟩
    change EStateM.Result.ok (value.deepCopy.run after.heap).1 { after with heap := (value.deepCopy.run after.heap).2 } = _
    rw [Value.deepCopy_scalar scalar]
  cases operand with
  | clone inner =>
      obtain ⟨source, before, evaluated, copied⟩ := bind_eq_ok.mp ran
      obtain ⟨more, within, states, _⟩ := (eval_twin blind acts inner).self states evaluated
      exact ⟨more, before, source, within, states, copied⟩
  | const constant =>
      obtain ⟨rfl, rfl⟩ := pure_eq_ok.mp ran
      exact plain constant.value_scalar rfl
  | this =>
      obtain ⟨rfl, rfl⟩ := EStateM.Result.ok.inj ran
      exact plain (by simp) rfl
  | choice number =>
      cases found : act.choices[number]? with
      | none =>
          simp only [eval, found] at ran
          exact (trap_ne_ok.mp ran).elim
      | some chosen =>
          simp only [eval, found] at ran
          obtain ⟨rfl, rfl⟩ := pure_eq_ok.mp ran
          exact plain (by simp) rfl
  | _ => cases copy

/-- A run hands over copies if its code returns copies. -/
theorem run_hands_over (paired : Paired env.routine.body) (copies : ReturnsCopies env.routine.body) (steps : Nat) (idle : act.pending = none)
    (acts : act.Twin pairs act) (states : state.Twin pairs outer state) :
    Ends (env.run steps act) state (fun result after => result.HandsOver outer pairs after) fun _ _ => True := by
  unfold Ends
  split
  next result after ran =>
      cases result with
      | suspended _ => trivial
      | completed value locals =>
          cases value with
          | none => trivial
          | some value =>
              let good : Activation → Running σ → Prop := fun act state => ∃ more, pairs.Within more ∧ act.Twin more act ∧ state.Twin more outer state
              have moves (act : Activation) (state : Running σ) (position : Nat) (holds : good act state) : good { act with position } state := by
                obtain ⟨more, within, acts, states⟩ := holds
                exact ⟨more, within, { acts with position := rfl }, states⟩
              have keeps (act : Activation) (state : Running σ) (instr : Instr) (next : Activation) (after : Running σ)
                  (_ : instr ∈ env.routine.body) (holds : good act state) (ran : env.step act instr state = .ok (.next next) after) : good next after := by
                obtain ⟨more, within, acts, states⟩ := holds
                obtain ⟨most, within', states, flows⟩ := (step_twin blind acts instr).self states ran
                cases flows with
                | next acts => exact ⟨most, within.trans within', acts, states⟩
              obtain ⟨last, before, operand, ⟨more, within, acts, states⟩, member, evaluated⟩ :=
                run_completed good moves keeps paired steps idle ⟨pairs, .refl _, acts, states⟩ ran
              exact Continuation.HandsOver.of_within within (eval_copies blind acts states (copies operand member) evaluated)
  next => trivial

end

end Env

/-- Executions of lowered programs hand over copies. -/
theorem RunConfig.executeWithin_hands_over {config : RunConfig σ} (paired : config.image.Paired)
    (copies : ∀ function routine, config.image.routine? function = some routine → ReturnsCopies routine.body)
    (blind : config.handler.Blind outer) (levels : Nat) (function : FunctionId) {state : Running σ} (states : state.Twin pairs outer state) :
    Exec.Ends (config.executeWithin levels function) state (fun result after => result.HandsOver outer pairs after) fun _ _ => True := by
  cases levels with
  | zero => trivial
  | succ levels =>
      refine Exec.Ends.ran.bind fun entered middle ran => ?_
      have enters := (enter_enters function state).ok ran
      have read : (get : Exec σ (Running σ)) middle = .ok middle middle := rfl
      refine .after read ?_
      split
      · exact .fail trivial
      · let env : Env σ := ⟨config.image, entered.1, config.handler, config.executeWithin levels⟩
        have unseeing : env.Blind outer := ⟨blind, fun callee => executeWithin_twin blind levels callee⟩
        obtain ⟨more, within, states, _, acts⟩ := (enter_twin function).self states ran
        let begun : Running σ := { middle with depth := middle.depth + 1 }
        have states : begun.Twin more outer begun := { states with depth := rfl }
        have runs := env.run_hands_over unseeing (paired function _ enters.found).body (copies function _ enters.found) config.steps
          enters.idle acts states
        refine .counted runs (fun result after hands => ?_) fun _ _ => id
        refine Continuation.HandsOver.of_within within ?_
        cases result with
        | suspended _ => trivial
        | completed value locals =>
            cases value with
            | none => trivial
            | some value =>
                obtain ⟨most, before, source, within, states, copied⟩ := hands
                refine ⟨most, { before with depth := before.depth - 1 }, source, within, { states with depth := rfl }, ?_⟩
                cases copied
                rfl

end Reentry
