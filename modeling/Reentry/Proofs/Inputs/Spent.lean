import Reentry.Proofs.Inputs.Awaited

/-!
Whole runs of prompt code. A run takes the input for which its frames wait, before it does anything else, and none
besides; what it leaves behind when it is suspended waits for the input that has been asked for.
-/

namespace Reentry

open Exec

variable {σ : Type}

namespace Env

/-- The frames on the stack wait for this input, and nothing has happened yet; or it has been taken, and they wait for none. -/
def Owes (env : Env (Booked σ)) (input : Option Input) (before state : Running (Booked σ)) : Prop :=
  (before.Restacked state ∧ env.image.awaits state.actor.stack = input) ∨
    (before.Spends input state ∧ env.image.awaits state.actor.stack = none)

/-- A call that takes this input next or has taken it, and takes no other. -/
inductive Takes (env : Env (Booked σ)) (input : Option Input) (before : Running (Booked σ)) : Activation → Running (Booked σ) → Prop
  | landed {act state landing} (here : env.routine.body[act.position]? = some (.label landing))
      (due : Prompt input (env.routine.body.drop (act.position + 1))) (restacked : before.Restacked state) : Takes env input before act state
  | due {act state} (due : Prompt input (env.routine.body.drop act.position)) (restacked : before.Restacked state) :
      Takes env input before act state
  | ahead {act state} (prompt : Prompt none (env.routine.body.drop act.position)) (spends : before.Spends input state) :
      Takes env input before act state
  | hopping {act state done place} (jump : env.routine.body[act.position]? = some (.jump (.label done)))
      (there : env.routine.body[place]? = some (.label done)) (rest : Prompt none (env.routine.body.drop place))
      (spends : before.Spends input state) : Takes env input before act state
  | arriving {act state callee landing} (invokes : Invokes env.routine.body callee landing act.position)
      (owes : env.Owes input before state) : Takes env input before act state
  | calling {act state callee landing place} (invokes : Invokes env.routine.body callee landing place)
      (here : act.position = place + 1) (owes : env.Owes input before state) : Takes env input before act state
  | returned {act state callee landing place result} (invokes : Invokes env.routine.body callee landing place)
      (here : act.position = place + 2) (last : act.lastCall = some result) (spends : before.Spends input state)
      (promises : env.image.Promises result state.actor.stack) : Takes env input before act state
  | leaving {act state result} (here : env.routine.body[act.position]? = some .exit) (pending : act.pending = some result)
      (spends : before.Spends input state) (promises : env.image.Promises result state.actor.stack) : Takes env input before act state

/-- What an instruction of such a call leads to. -/
def Took (env : Env (Booked σ)) (input : Option Input) (before : Running (Booked σ)) : Flow → Running (Booked σ) → Prop
  | .next act, state => env.Takes input before act state
  | .leave result, state => before.Spends input state ∧ env.image.Promises result state.actor.stack

variable {env : Env (Booked σ)} {act : Activation} {input : Option Input} {before state after : Running (Booked σ)}

namespace Owes

theorem spends (owes : env.Owes input before state) (inner : state.Spends (env.image.awaits state.actor.stack) after) :
    before.Spends input after := by
  rcases owes with ⟨restacked, same⟩ | ⟨spends, idle⟩
  · exact (same ▸ inner).behind restacked
  · rw [idle] at inner
    exact spends.then inner

theorem spendsAtMost (owes : env.Owes input before state)
    (inner : state.SpendsAtMost (env.image.awaits state.actor.stack) after) : before.SpendsAtMost input after := by
  rcases owes with ⟨restacked, same⟩ | ⟨spends, idle⟩
  · exact (same ▸ inner).behind restacked
  · rw [idle] at inner
    exact .inr (spends.then inner.unspent)

end Owes

/-- Whenever a run breaks off, the input has been taken or nothing. -/
theorem Takes.spendsAtMost (takes : env.Takes input before act state) : before.SpendsAtMost input state := by
  have owed (owes : env.Owes input before state) : before.SpendsAtMost input state :=
    owes.imp (fun ⟨restacked, _⟩ => restacked.unspent) fun ⟨spends, _⟩ => spends
  cases takes with
  | landed _ _ restacked | due _ restacked => exact .inl restacked.unspent
  | ahead _ spends | hopping _ _ _ spends | returned _ _ _ spends _ | leaving _ _ spends _ => exact .inr spends
  | arriving _ owes | calling _ _ owes => exact owed owes

theorem Takes.of_promptFrom (next : PromptFrom env.routine.body act.position) (spends : before.Spends input state) :
    env.Takes input before act state := by
  cases next with
  | here rest => exact .ahead rest spends
  | hop jump there rest => exact .hopping jump there rest spends

/-- An instruction that takes nothing is carried out as if there were no ledger. -/
theorem moveBooking_plain {instr : Instr} (here : env.routine.body[act.position]? = some instr) (plain : instr.input? = none)
    (state : Running (Booked σ)) : env.moveBooking act state = env.step { act with position := act.position + 1 } instr state := by
  unfold moveBooking
  rw [move_of_getElem? here, here, Option.bind_some, plain]
  rfl

theorem moveBooking_takes {instr : Instr} {input : Input} (here : env.routine.body[act.position]? = some instr)
    (takes : instr.input? = some input) (state : Running (Booked σ)) :
    env.moveBooking act state = env.step { act with position := act.position + 1 } instr (state.book (some input)) := by
  unfold moveBooking
  rw [move_of_getElem? here, here, Option.bind_some, takes]
  rfl

section

variable {handler : Handler σ} (books : env.handler = handler.booked) (spends : env.SpendsAwaited)
include books spends

omit spends in
theorem performs_unspent (effect : Effect) : Moves Running.Unspent Running.Unspent (perform env.handler effect) := by
  intro state
  unfold Ends
  rw [perform_apply]
  cases handled : env.handler state.heap effect state.outside with
  | ok outside => exact ⟨rfl, Handler.booked_same (books ▸ handled)⟩
  | error cause => exact .refl state

theorem reason_unspent (question : Question) (state : Running (Booked σ)) : Ends (env.reason act question) state
    (fun reason after => question.Gives reason ∧ state.Unspent after) fun _ after => state.Unspent after := by
  cases question with
  | send | receive | nondet => exact ⟨rfl, .refl state⟩
  | new machine payload =>
      refine (eval_moves (unspent books spends) payload state).bind fun value after same => ?_
      exact ⟨⟨value, rfl⟩, same⟩

/-- A request that asks for nothing leaves frames that promise nothing. -/
theorem request_unspent {request : YieldRequest} (final : request.question? = none) (state : Running (Booked σ)) :
    Ends (env.request act request) state
      (fun result after => result.1.position = act.position ∧ state.Unspent after ∧ env.image.Promises result.2 after.actor.stack)
      fun _ after => state.Unspent after := by
  cases request with
  | goto | raise | pop => exact ⟨rfl, .refl state, nofun⟩
  | ret => exact ⟨rfl, .refl state, trivial⟩
  | retValue value =>
      refine (eval_moves (unspent books spends) value state).bind fun _ after same => ?_
      exact ⟨rfl, same, trivial⟩
  | send _ | receive _ | new _ _ _ | nondet _ => cases final

variable (own : env.image.routine? env.routine.shape.function = some env.routine) (routine : env.routine.IsPrompt)
include own routine

/-- Code that takes nothing next. -/
theorem ahead_takes (prompt : Prompt none (env.routine.body.drop act.position)) (spent : before.Spends input state) :
    Ends (env.moveBooking act) state (env.Took input before) fun _ after => before.SpendsAtMost input after := by
  have quiet := unspent books spends
  have lost {after : Running (Booked σ)} (same : state.Unspent after) : before.SpendsAtMost input after := .inr (spent.then same)
  generalize ahead : env.routine.body.drop act.position = code at prompt
  generalize idle : (none : Option Input) = due at prompt
  cases prompt with
  | nil =>
      have past : env.routine.body[act.position]? = none := by
        rw [← Nat.add_zero act.position, ← List.getElem?_drop, ahead]
        rfl
      unfold moveBooking move
      rw [past]
      exact .inr spent
  | @inner instr rest inner prompt =>
      obtain ⟨here, behind⟩ := drop_cons ahead
      have moves : Moves Running.Unspent Running.Unspent (env.step { act with position := act.position + 1 } instr) :=
        step_moves quiet (fun _ _ _ _ => ⟨rfl, rfl⟩)
          (fun _ same => by subst same; cases inner)
          (fun target event payload _ => enqueue_moves quiet target event payload fun _ _ _ _ => performs_unspent books _)
          (fun _ _ _ => ⟨rfl, rfl⟩) fun answers => by simp [Instr.takesAnswer_of_isInner inner] at answers
      have ends := moves state
      unfold Ends at ends ⊢
      rw [moveBooking_plain here (Instr.input?_of_isInner inner)]
      cases stepped : env.step { act with position := act.position + 1 } instr state with
      | error stop after =>
          rw [stepped] at ends
          exact lost ends
      | ok flow after =>
          rw [stepped] at ends
          obtain ⟨next, rfl, _, same | ⟨target, member, leads⟩⟩ := step_goes (Instr.keepsControl_of_isInner inner) stepped
          · exact .ahead (by rw [same, behind]; exact prompt) (spent.then ends)
          · obtain ⟨mark, rfl⟩ := Instr.mark_of_isInner inner member
            exact .ahead (routine.drop_mark leads) (spent.then ends)
  | @leave request rest final prompt =>
      obtain ⟨here, behind⟩ := drop_cons ahead
      unfold Ends
      rw [moveBooking_plain here rfl]
      refine ((request_unspent books spends final state).weaken (fun _ _ => id) fun _ _ => lost).bind ?_
      rintro result after ⟨position, same, promises⟩
      exact .pure (.leaving (by rw [position]; exact (drop_cons behind).1) rfl (spent.then same) promises)
  | @ask question resume awaits rest wants prompt =>
      obtain ⟨here, behind⟩ := drop_cons ahead
      obtain ⟨exits, behind'⟩ := drop_cons behind
      obtain ⟨label, beyond⟩ := drop_cons behind'
      unfold Ends
      rw [moveBooking_plain here rfl, step, request_question, bind_assoc]
      refine ((reason_unspent books spends question state).weaken (fun _ _ => id) fun _ _ => lost).bind ?_
      rintro reason after ⟨gives, same⟩
      have awaited : env.image.awaits (⟨env.routine.shape.function, act.locals, resume, none, act.choices⟩ :: after.actor.stack) = awaits :=
        Image.awaits_goesOn own (routine.laid.landing _ _ label) (by rw [beyond]; exact prompt)
      exact .leaving exits rfl (spent.then ⟨same.resume, same.ledger⟩) fun _ => awaited ▸ wants reason gives
  | @call callee args landing rest prompt =>
      obtain ⟨here, behind⟩ := drop_cons ahead
      unfold Ends
      rw [moveBooking_plain here rfl]
      obtain ⟨label, behind⟩ := drop_cons behind
      obtain ⟨invoke, behind⟩ := drop_cons behind
      obtain ⟨propagate, behind⟩ := drop_cons behind
      have invokes : Invokes env.routine.body callee landing (act.position + 1) :=
        ⟨label, invoke, propagate, .here (by rw [behind]; exact prompt)⟩
      refine ((evalArguments_moves quiet args state).weaken (fun _ _ => id) fun _ _ => lost).bind fun values middle same => ?_
      refine ((startCall_unspent callee values middle).weaken (fun _ _ => id) fun _ _ later => lost (same.trans later)).bind ?_
      rintro _ after ⟨later, idle⟩
      exact .pure (.arriving invokes (.inr ⟨spent.then (same.trans later), idle⟩))
  | take takes _ => rcases Instr.of_takesAnswer takes with ⟨_, rfl⟩ | ⟨_, rfl⟩ <;> cases idle
  | dispatch _ => cases idle

/-- What is due is taken. -/
theorem due_takes (due : Prompt input (env.routine.body.drop act.position)) (restacked : before.Restacked state) :
    Ends (env.moveBooking act) state (env.Took input before) fun _ after => before.SpendsAtMost input after := by
  generalize ahead : env.routine.body.drop act.position = code at due
  cases input with
  | none => exact ahead_takes books spends own routine (ahead ▸ due) restacked.unspent
  | some input =>
      generalize wanted : some input = awaits at due
      cases due with
      | @take instr rest takes prompt =>
          rw [← wanted]
          obtain ⟨here, behind⟩ := drop_cons ahead
          have spent : instr.isStraight ∧ Ends (env.step { act with position := act.position + 1 } instr) (state.book (some input))
              (fun _ after => state.Spends (some input) after) fun _ after => state.SpendsAtMost (some input) after := by
            rcases Instr.of_takesAnswer takes with ⟨number, rfl⟩ | ⟨dest, rfl⟩
            · obtain rfl := Option.some.inj wanted
              exact ⟨rfl, (recordChoice_spends number).weaken (fun _ _ recorded => recorded.1) fun _ _ => id⟩
            · obtain rfl := Option.some.inj wanted
              exact ⟨rfl, readCreated_spends books spends dest⟩
          obtain ⟨straight, ends⟩ := spent
          unfold Ends at ends ⊢
          rw [moveBooking_takes here wanted.symm]
          cases stepped : env.step { act with position := act.position + 1 } instr (state.book (some input)) with
          | error stop after =>
              rw [stepped] at ends
              exact ends.behind restacked
          | ok flow after =>
              rw [stepped] at ends
              obtain ⟨next, rfl⟩ := env.step_next straight stepped
              have position : next.position = act.position + 1 := by rw [← env.step_withData straight stepped]; rfl
              exact .ahead (by rw [position, behind]; exact prompt) (ends.behind restacked)
      | @dispatch arms done rest prompt =>
          obtain rfl := Option.some.inj wanted
          obtain ⟨here, behind⟩ := drop_cons ahead
          unfold Ends
          rw [moveBooking_takes here rfl]
          refine ((dispatchReceive_spends arms).weaken (fun _ _ => id) fun _ _ lost => lost.behind restacked).bind ?_
          rintro place after ⟨spent, idle, arm, member, leads⟩
          obtain ⟨offset, invokes⟩ := receiveArms_invokes prompt member
          have placed : Invokes env.routine.body arm.handler arm.entry (offset + (act.position + 1)) := .under (behind ▸ invokes)
          obtain rfl := Option.some.inj (leads.symm.trans (routine.laid.landing _ _ placed.label))
          exact .pure (.arriving placed (.inr ⟨spent.behind restacked, idle⟩))
      | nil | inner _ _ | leave _ _ | ask _ _ | call _ => cases wanted

theorem moveBooking_takes_input (takes : env.Takes input before act state) :
    Ends (env.moveBooking act) state (env.Took input before) fun _ after => before.SpendsAtMost input after := by
  cases takes with
  | @landed landing here due restacked =>
      unfold Ends
      rw [moveBooking_plain here rfl]
      exact .due due restacked
  | due due restacked => exact due_takes books spends own routine due restacked
  | ahead prompt spent => exact ahead_takes books spends own routine prompt spent
  | @hopping done place jump there rest spent =>
      have leads : env.routine.position? (.label done) = some place := routine.laid.landing _ _ there
      unfold Ends
      rw [moveBooking_plain jump rfl, step, position, leads]
      exact .ahead rest spent
  | @arriving callee landing invokes owes =>
      unfold Ends
      rw [moveBooking_plain invokes.label rfl]
      exact .calling invokes rfl owes
  | @calling callee landing place invokes at_ owes =>
      have here : env.routine.body[act.position]? = some (.invoke callee) := at_ ▸ invokes.invoke
      unfold Ends
      rw [moveBooking_plain here rfl]
      refine ((spends callee state).weaken (fun _ _ => id) fun _ _ => owes.spendsAtMost).bind ?_
      rintro result after ⟨inner, promises⟩
      exact .returned invokes (by rw [at_]) rfl (owes.spends inner) promises
  | @returned callee landing place result invokes at_ last spent promises =>
      have here : env.routine.body[act.position]? = some (.propagateSuspension callee landing) := at_ ▸ invokes.propagate
      unfold Ends
      rw [moveBooking_plain here rfl]
      simp only [step, last]
      cases result with
      | completed value locals => exact .of_promptFrom (at_ ▸ invokes.next) spent
      | suspended reason =>
          have awaited : env.image.awaits (⟨env.routine.shape.function, act.locals, landing, some callee, act.choices⟩ :: state.actor.stack)
              = env.image.awaits state.actor.stack :=
            Image.awaits_calls own (routine.laid.landing _ _ invokes.label) invokes.invoke
          exact ⟨spent.then ⟨rfl, rfl⟩, fun waits => awaited ▸ promises waits⟩
  | leaving here pending spent promises =>
      unfold Ends
      rw [moveBooking_plain here rfl]
      simp only [step, pending]
      exact ⟨spent, promises⟩

/-- A run takes its input, and nothing else. -/
theorem runBooking_takes (steps : Nat) (takes : env.Takes input before act state) : Ends (env.runBooking steps act) state
    (fun result after => before.Spends input after ∧ env.image.Promises result after.actor.stack)
    fun _ after => before.SpendsAtMost input after := by
  induction steps generalizing act state with
  | zero => exact takes.spendsAtMost
  | succ steps ih =>
      refine (moveBooking_takes_input books spends own routine takes).bind fun flow after took => ?_
      cases flow with
      | next act => exact ih took
      | leave result => exact took

end

end Env

namespace RunConfig

variable {config : RunConfig σ}

/-- An execution takes what the frames wait for on which it runs, and nothing else, and what it leaves waits for what it asks. -/
theorem executeBookingWithin_spends (prompt : config.image.IsPrompt) (levels : Nat) (function : FunctionId) (state : Running (Booked σ)) :
    Ends (config.booked.executeBookingWithin levels function) state
      (fun result after => state.Spends (config.image.awaits state.actor.stack) after ∧ config.image.Promises result after.actor.stack)
      fun _ after => state.SpendsAtMost (config.image.awaits state.actor.stack) after := by
  induction levels generalizing function state with
  | zero => exact .inl (.refl state)
  | succ levels ih =>
      have refused (stop : Stop) (after : Running (Booked σ)) (bars : (∃ routine trap, stop = .failed (.internal routine trap) ∧
          trap.barsEntry) ∧ ∃ stack, after = { state with actor := { state.actor with stack } }) :
          state.SpendsAtMost (config.image.awaits state.actor.stack) after := by
        obtain ⟨_, stack, rfl⟩ := bars
        exact .inl ⟨rfl, rfl⟩
      refine ((enter_finds function state).weaken (fun _ _ => id) refused).bind ?_
      rintro ⟨routine, act⟩ middle ⟨frame, below, position, above, rfl, known, entry, rfl, rfl⟩
      have read (state : Running (Booked σ)) : (get : Exec (Booked σ) _) state = .ok state state := rfl
      refine .after (read _) ?_
      split
      · exact .fail (.inl ⟨rfl, rfl⟩)
      let env : Env (Booked σ) := ⟨config.image, routine, config.booked.handler, config.booked.executeBookingWithin levels⟩
      have known : config.image.routine? frame.function = some routine := known
      obtain ⟨own, tidy⟩ := prompt frame.function routine known
      have known' : config.image.routine? env.routine.shape.function = some env.routine := by rw [own]; exact known
      have restacked : state.Restacked ⟨state.heap, { state.actor with stack := below }, state.outside, state.depth + 1⟩ := ⟨rfl, rfl⟩
      have takes : env.Takes (config.image.awaits state.actor.stack) state ⟨frame.locals, frame.choices, position, none, none⟩
          ⟨state.heap, { state.actor with stack := below }, state.outside, state.depth + 1⟩ := by
        rw [above]
        unfold Routine.entrance? at entry
        split at entry
        next start =>
          obtain rfl := Option.some.inj entry
          rw [Image.awaits_start start]
          exact .due tidy.body restacked
        · have here := tidy.labels _ _ entry
          cases tidy.lands entry with
          | goesOn rest =>
              rw [Image.awaits_goesOn known entry rest]
              exact .landed here rest restacked
          | calls invokes =>
              rw [Image.awaits_calls known entry invokes.invoke]
              exact .arriving invokes (.inl ⟨restacked, rfl⟩)
      refine .counted (env.runBooking_takes rfl ih known' tidy config.steps takes) ?_ ?_
      · rintro result after ⟨spent, promises⟩
        exact ⟨spent.then ⟨rfl, rfl⟩, promises⟩
      · exact fun stop after lost => lost.imp (·.trans ⟨rfl, rfl⟩) (·.then ⟨rfl, rfl⟩)

end RunConfig

end Reentry
