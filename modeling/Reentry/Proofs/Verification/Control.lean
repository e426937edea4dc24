import Reentry.Proofs.Execution.Parts
import Reentry.Proofs.Frames.Calm
import Reentry.Proofs.Labels.Assembled
import Reentry.Proofs.Structure.Layout
import Reentry.Proofs.Structure.Simulation

/-!
What the checks on an assembled body say, whatever instructions it consists of: control can only be led to
instructions of the body, the routine can be entered at each of its labels, a yield that the call resumes after
stands in front of an exit and of its own label, and the body ends by leaving the call.
-/

namespace Reentry

namespace Routine

/-- A routine that control cannot get lost in. -/
structure Checked (routine : Routine) : Prop where
  ends : ∃ code, routine.body = code ++ implicitReturn
  placed : ∀ target place, routine.position? target = some place → place < routine.body.length
  targets : ∀ instr ∈ routine.body, ∀ target ∈ instr.targets, (routine.position? target).isSome
  landings : ∀ label : LabelId, 0 < label.number → label.number ≤ routine.labelCount → (routine.landing? label).isSome
  resumable : Resumable routine.body
  /-- A label at which the routine can be entered is where it stands. -/
  stands : ∀ position label, routine.body[position]? = some (.label label) → (routine.landing? label).isSome →
    routine.landing? label = some position

variable {routine : Routine}

theorem except_bind_eq_ok {ε α β : Type} {first : Except ε α} {rest : α → Except ε β} {result : β} :
    (first >>= rest) = .ok result ↔ ∃ value, first = .ok value ∧ rest value = .ok result := by
  cases first <;> simp [bind, Except.bind]

theorem getElem?_of_resumesNext {resume : LabelId} {rest : List Instr} (next : resumesNext resume rest = true) :
    rest[0]? = some .exit ∧ rest[1]? = some (.label resume) := by
  unfold resumesNext at next
  split at next
  · exact ⟨rfl, by rw [beq_iff_eq.mp next]; rfl⟩
  · cases next

/-- A loop that has succeeded, and that goes on only behind items of a kind, has met no others. -/
theorem of_forIn_eq_ok {ε α : Type} {items : List α} {step : α → PUnit → Except ε (ForInStep PUnit)} {fine : α → Prop}
    (goes : ∀ item result, step item ⟨⟩ = .ok result → fine item ∧ result = .yield ⟨⟩)
    (succeeds : forIn items ⟨⟩ step = .ok ⟨⟩) : ∀ item ∈ items, fine item := by
  induction items with
  | nil => exact nofun
  | cons item rest ih =>
      rw [List.forIn_cons] at succeeds
      cases done : step item ⟨⟩ with
      | error cause =>
          rw [done] at succeeds
          cases succeeds
      | ok result =>
          obtain ⟨passes, rfl⟩ := goes item result done
          rw [done] at succeeds
          intro other member
          rcases List.mem_cons.mp member with rfl | later
          · exact passes
          · exact ih succeeds other later

/-- What the checks have let pass. -/
theorem of_verifyFrom {position : Nat} {code : List Instr} (succeeds : verifyFrom routine position code = .ok ()) :
    (∀ instr ∈ code, ∀ target ∈ instr.targets, (routine.position? target).isSome) ∧ Resumable code := by
  induction code generalizing position with
  | nil => exact ⟨nofun, .nil⟩
  | cons instr rest ih =>
      unfold verifyFrom at succeeds
      obtain ⟨⟨⟩, looped, followed⟩ := except_bind_eq_ok.mp succeeds
      have aimed := @of_forIn_eq_ok _ _ _ _ (fun target => (routine.position? target).isSome) (fun target result done => by
        cases missing : (routine.position? target).isNone with
        | true =>
            simp only [missing, if_true] at done
            cases done
        | false =>
            simp only [missing, Bool.false_eq_true, if_false] at done
            exact ⟨by simpa using missing, (Except.ok.inj done).symm⟩) looped
      have later : verifyFrom routine (position + 1) rest = .ok () ∧ ∀ request resume, instr = .yield request →
          request.resume? = some resume → resumesNext resume rest = true := by
        split at followed
        next request =>
            split at followed
            next resume resumes =>
                cases next : resumesNext resume rest with
                | false =>
                    simp only [next, Bool.not_false, if_true] at followed
                    cases followed
                | true =>
                    simp only [next, Bool.not_true, Bool.false_eq_true, if_false] at followed
                    refine ⟨followed, fun other resume' same resumes' => ?_⟩
                    cases same
                    cases resumes.symm.trans resumes'
                    exact next
            next none => exact ⟨followed, fun other resume same resumes => by
              cases same
              exact absurd resumes (none resume)⟩
        next other => exact ⟨followed, fun request resume same => absurd same (other request)⟩
      obtain ⟨targets, resumable⟩ := ih later.1
      refine ⟨fun other member => ?_, fun offset request resume here resumes => ?_⟩
      · rcases List.mem_cons.mp member with rfl | among
        · exact aimed
        · exact targets other among
      · cases offset with
        | zero => exact getElem?_of_resumesNext (later.2 request resume (Option.some.inj here) resumes)
        | succ offset => exact resumable offset request resume here resumes

theorem of_verify {emitted : Nat} (succeeds : routine.verify emitted = .ok ()) :
    verifyFrom routine 0 routine.body = .ok () := by
  unfold verify at succeeds
  by_cases miscounted : emitted ≠ routine.labelCount
  · rw [if_pos miscounted] at succeeds
    cases succeeds
  rw [if_neg miscounted] at succeeds
  by_cases narrow : routine.shape.slotCount < routine.shape.paramCount
  · simp only [narrow, if_true] at succeeds
    cases succeeds
  simp only [narrow, if_false] at succeeds
  obtain ⟨⟨⟩, checked, _⟩ := except_bind_eq_ok.mp succeeds
  exact checked

variable {info : FunctionInfo} {shape : FrameShape} {code : List Instr} {labelCount : Nat}

/-- What is assembled with checks has been checked. -/
theorem assemble_verified (succeeds : assemble info shape code labelCount true = .ok routine) :
    verifyFrom routine 0 routine.body = .ok () := by
  unfold assemble at succeeds
  cases named : assembleUnnamed info shape code labelCount true with
  | error cause =>
      rw [named] at succeeds
      cases succeeds
  | ok assembled =>
      rw [named] at succeeds
      obtain rfl : assembled = routine := Except.ok.inj succeeds
      unfold assembleUnnamed at named
      obtain ⟨positions, _, dispatched⟩ := except_bind_eq_ok.mp named
      have checked : ∃ dispatch emitted, (do
          let routine : Routine := ⟨shape.function, info.name, info.owner, shape, labelCount, dispatch, code ++ implicitReturn,
            positions.marks⟩
          routine.verify emitted
          pure routine : Except String Routine) = .ok assembled := by
        simp only [if_true] at dispatched
        split at dispatched
        · exact ⟨none, _, dispatched⟩
        · obtain ⟨table, _, rest⟩ := except_bind_eq_ok.mp dispatched
          exact ⟨table, _, rest⟩
      obtain ⟨dispatch, emitted, checked⟩ := checked
      obtain ⟨⟨⟩, verified, same⟩ := except_bind_eq_ok.mp checked
      cases same
      exact of_verify verified

/-- The checks give what they are for. -/
theorem assemble_checked (succeeds : assemble info shape code labelCount true = .ok routine) : routine.Checked := by
  obtain ⟨targets, resumable⟩ := of_verifyFrom (assemble_verified succeeds)
  obtain ⟨_, _, _, count, body, positions, collected, _, dispatched, absent⟩ := assemble_eq_ok succeeds
  have labelled := (Positions.collect_eq_ok collected).2.2.1
  have landing (label : LabelId) (positive : 0 < label.number) (bound : label.number ≤ labelCount) :
      routine.landing? label = positions.label? label ∧ (positions.label? label).isSome := by
    obtain ⟨dispatch, landings, known⟩ := dispatched (by omega)
    obtain ⟨_ | number⟩ := label
    · cases positive
    · simp only [landing?, known, Option.bind_some]
      obtain ⟨place, noted, _⟩ := (mapM_getElem? landings number).1 number (List.getElem?_range bound)
      refine ⟨Positions.landings_eq_ok landings bound, ?_⟩
      cases found : positions.label? ⟨number + 1⟩ with
      | none =>
          rw [found] at noted
          cases noted
      | some place => rfl
  refine ⟨⟨code, body⟩, fun target place leads => ?_, targets, fun label positive bound => ?_, resumable,
    fun position label here known => ?_⟩
  · rcases assemble_position?_eq succeeds leads with ⟨label, here⟩ | ⟨mark, here⟩
    all_goals exact (List.getElem?_eq_some_iff.mp here).1
  · obtain ⟨same, known⟩ := landing label positive (count ▸ bound)
    rwa [same]
  · obtain ⟨place, leads⟩ := Option.isSome_iff_exists.mp known
    have positive : 0 < label.number := by
      obtain ⟨_ | number⟩ := label
      · cases leads
      · exact Nat.succ_pos number
    have bound := (assemble_landing?_eq succeeds leads).1
    rw [(landing label positive (count ▸ bound)).1, labelled position label here, Nat.zero_add]

end Routine

end Reentry

/-!
Checked code keeps control, whatever it consists of: a call that is entered at the start of its routine or at one
of its labels always has an instruction to go on with, and wherever it saves its frame, the frame can be resumed.
The code may fail in many other ways, and its callees and the handler of effects may fail in any way.
-/

namespace Reentry

open Exec

variable {σ : Type}

namespace Env

/-- Whether something other than the code itself can fail with this cause: the handler of effects, or a call that
the code runs. -/
def Raises (env : Env σ) (cause : RuntimeFailure) : Prop :=
  env.handler.Raises cause ∨ ∃ callee before after, env.invoke callee before = .error (.failed cause) after

/-- If a run stops because control is lost, then it has been lost elsewhere. -/
def LostElsewhere (env : Env σ) (stop : Stop) : Prop :=
  ∀ cause, stop = .failed cause → cause.losesControl = true → env.Raises cause

/-- The work does not lose control. -/
abbrev KeepsControl (env : Env σ) : Exec.Trait σ := fun _ work =>
  ∀ state, Ends work state (fun _ _ => True) fun stop _ => env.LostElsewhere stop

variable {env : Env σ} {act : Activation} {state : Running σ}

theorem LostElsewhere.of_kept {cause : RuntimeFailure} (kept : cause.losesControl = false) :
    env.LostElsewhere (.failed cause) := by
  rintro other same lost
  cases same
  rw [kept] at lost
  cases lost

theorem startCall_keepsControl (callee : FunctionId) (args : List Value) :
    env.KeepsControl Unit (env.startCall callee args) := by
  refine fun state => (env.startCall_fails_locally callee args state).weaken (fun _ _ _ => trivial) ?_
  rintro _ _ ⟨_, cause, rfl, isLocal⟩
  exact .of_kept (RuntimeFailure.losesControl_of_isLocal isLocal)

theorem invoke_keepsControl (callee : FunctionId) : env.KeepsControl Continuation (env.invoke callee) := by
  intro state
  unfold Ends
  cases invoked : env.invoke callee state with
  | ok result after => trivial
  | error stop after =>
      rintro cause rfl _
      exact .inr ⟨callee, state, after, invoked⟩

theorem perform_keepsControl (effect : Effect) : env.KeepsControl Unit (perform env.handler effect) := by
  intro state
  unfold Ends
  rw [perform_apply]
  cases raised : env.handler state.heap effect state.outside with
  | ok outside => trivial
  | error cause =>
      rintro other same _
      cases same
      exact .inl ⟨_, _, _, raised⟩

/-- Nothing of which an instruction is made loses control. -/
theorem keepsControl_composes (env : Env σ) : Exec.Composes env env.KeepsControl where
  pure _ _ := trivial
  bind first next state := (first state).bind fun value after _ => next value after
  fail isLocal _ := .of_kept (RuntimeFailure.losesControl_of_isLocal isLocal)
  get _ := trivial
  alloc _ _ := trivial
  values work state := by
    unfold Ends
    rw [ofValueOp_apply]
    cases work.run state.heap with
    | ok pair => trivial
    | error error => exact .of_kept rfl
  actor _ _ _ := trivial
  perform effect _ := perform_keepsControl effect
  start := startCall_keepsControl
  call callee args state := by
    refine (startCall_keepsControl callee args state).bind fun _ middle _ => ?_
    refine (invoke_keepsControl callee middle).bind fun result after _ => ?_
    cases result with
    | completed value locals => trivial
    | suspended reason => exact LostElsewhere.of_kept rfl

/-- An instruction of a routine in which it has somewhere to go does not lose control. -/
theorem step_keepsControl {instr : Instr} (placed : ∀ target ∈ instr.targets, (env.routine.position? target).isSome) :
    env.KeepsControl Flow (env.step act instr) := by
  have parts := keepsControl_composes env
  have sets (change : Actor → Actor) : env.KeepsControl Unit (modifyActor change) := fun _ => trivial
  refine step_composes parts (fun target among => ?_) (fun _ _ _ => parts.bind (sets _) fun _ => parts.pure _)
    (fun callee _ => invoke_keepsControl callee) (fun target event payload _ => ?_) (fun _ _ => sets _) fun _ _ => sets _
  · obtain ⟨place, leads⟩ := Option.isSome_iff_exists.mp (placed target among)
    simp only [position, leads]
    exact parts.pure place
  · exact enqueue_composes parts target event payload fun _ _ _ _ => perform_keepsControl _

/-- A call goes on behind the instruction or where a target is placed. -/
theorem step_target {instr : Instr} {after : Activation} {final : Running σ}
    (stepped : env.step act instr state = .ok (.next after) final) :
    after.position = act.position ∨ ∃ target, env.routine.position? target = some after.position := by
  have jumped {target : Target} {state final : Running σ}
      (went : (do pure (Flow.next { act with position := ← env.position target })) state = .ok (.next after) final) :
      ∃ target, env.routine.position? target = some after.position := by
    cases leads : env.routine.position? target with
    | none =>
        simp only [position, leads] at went
        cases went
    | some place =>
        simp only [position, leads] at went
        cases went
        exact ⟨target, leads⟩
  by_cases straight : instr.isStraight
  · rw [← env.step_withData straight stepped]
    exact .inl rfl
  cases instr with
  | label _ | mark _ =>
      cases stepped
      exact .inl rfl
  | jump target => exact .inr (jumped stepped)
  | jumpUnless cond target =>
      obtain ⟨_, _, _, decided⟩ := bind_eq_ok.mp stepped
      obtain ⟨holds, _, _, went⟩ := bind_eq_ok.mp decided
      cases holds with
      | true =>
          cases went
          exact .inl rfl
      | false => exact .inr (jumped went)
  | dispatchReceive arms =>
      obtain ⟨place, _, dispatched, went⟩ := bind_eq_ok.mp stepped
      cases went
      exact .inr (dispatchReceive_target dispatched)
  | invoke callee =>
      obtain ⟨_, _, _, went⟩ := bind_eq_ok.mp stepped
      cases went
      exact .inl rfl
  | propagateSuspension callee resume =>
      rcases last : act.lastCall with _ | result | reason <;> simp only [step, last] at stepped
      · cases stepped
      · cases stepped
        exact .inl rfl
      · cases stepped
  | «yield» request =>
      obtain ⟨requested, _, done, went⟩ := bind_eq_ok.mp stepped
      cases went
      exact .inl (request_position done)
  | exit =>
      rcases last : act.pending with _ | result <;> simp only [step, last] at stepped <;> cases stepped
  | _ => exact absurd rfl straight

end Env

end Reentry
