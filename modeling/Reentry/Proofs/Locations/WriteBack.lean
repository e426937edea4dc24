import Reentry.Proofs.Locations.Swap
import Reentry.Proofs.Ownership.Run
import Reentry.Proofs.Structure.Simulation

/-!
Calls with swapped arguments. A call statement starts its callee with a copy of what is at the location of each swapped
argument, waits for it however often it is suspended, and then stores the result and the final parameters, one after the
other. Each of the places is named anew when it is stored to: what it denoted before the call is overwritten only if
neither the callee nor an earlier one of the stores has changed what its indices and keys are.
-/

namespace Reentry

namespace Activation

/-- The call has not left the four instructions at which it starts its callee and waits for it. -/
structure WaitsAt (act here : Activation) : Prop where
  locals : here.locals = act.locals
  choices : here.choices = act.choices
  position : act.position ≤ here.position ∧ here.position < act.position + 4

/-- The call behind these instructions, once the callee has returned. -/
def afterCall (act : Activation) (value : Option Value) (finals : List Value) : Activation :=
  ⟨act.locals, act.choices, act.position + 4, some (.completed value finals), none⟩

end Activation

/-- What is stored where once the callee has returned: its result, and then its final parameters. -/
def Delivers (out : Option Place) (writeBacks : List (Place × Nat)) (value : Option Value) (finals : List Value)
    (deliveries : List (Place × Value)) : Prop :=
  deliveries.map (fun delivery => (delivery.1, some delivery.2))
    = out.toList.map (·, some (value.getD .null)) ++ writeBacks.map fun (place, slot) => (place, finals[slot]?)

/-- The instruction that stores a value that the callee has handed back. -/
inductive Instr.Stores (value : Option Value) (finals : List Value) : Instr → Place × Value → Prop
  | result {dest : Place} : Stores value finals (.collectReturn dest) (dest, value.getD .null)
  | parameter {dest : Place} {slot : Nat} {final : Value} (found : finals[slot]? = some final) :
      Stores value finals (.writeBack dest slot) (dest, final)

theorem Delivers.stores {out : Option Place} {writeBacks : List (Place × Nat)} {value : Option Value} {finals : List Value}
    {deliveries : List (Place × Value)} (delivers : Delivers out writeBacks value finals deliveries) :
    List.Forall₂ (Instr.Stores value finals)
      (out.toList.map .collectReturn ++ writeBacks.map fun (dest, slot) => .writeBack dest slot) deliveries := by
  have backs : ∀ {writeBacks : List (Place × Nat)} {deliveries : List (Place × Value)},
      deliveries.map (fun delivery => (delivery.1, some delivery.2)) = writeBacks.map (fun (place, slot) => (place, finals[slot]?)) →
      List.Forall₂ (Instr.Stores value finals) (writeBacks.map fun (dest, slot) => .writeBack dest slot) deliveries := by
    intro writeBacks
    induction writeBacks with
    | nil =>
        intro deliveries same
        obtain rfl := List.map_eq_nil_iff.mp same
        exact .nil
    | cons back rest ih =>
        intro deliveries same
        obtain ⟨delivery, others, rfl, first, later⟩ := List.map_eq_cons_iff.mp same
        obtain ⟨named, found⟩ := Prod.mk.inj first
        obtain ⟨place, slot⟩ := back
        obtain ⟨dest, final⟩ := delivery
        obtain rfl : dest = place := named
        exact .cons (.parameter found.symm) (ih later)
  cases out with
  | none => exact backs delivers
  | some dest =>
      obtain ⟨delivery, others, rfl, first, later⟩ := List.map_eq_cons_iff.mp delivers
      obtain ⟨named, same⟩ := Prod.mk.inj first
      obtain ⟨place, result⟩ := delivery
      obtain rfl : place = dest := named
      obtain rfl : result = value.getD .null := Option.some.inj same
      exact .cons .result (backs later)

namespace Conversation

variable {σ X : Type} {step : X → Exec σ (Turn X)} {act : X → Activation} {answers : Nat → Running σ → Running σ}
  {talk : Conversation σ X} {here : X} {state : Running σ}

theorem next_on (going : talk.ending = none) (stepped : step talk.here talk.state = .ok (.on here) state) :
    talk.next step act answers = { talk with here, state } := by
  simp only [next, going, stepped]

theorem next_ask {reason : YieldReason} (going : talk.ending = none)
    (stepped : step talk.here talk.state = .ok (.ask reason here) state) : (talk.next step act answers).here = here := by
  simp only [next, going, stepped]

theorem next_ended {result : Continuation} (going : talk.ending = none)
    (stepped : step talk.here talk.state = .ok (.ended result) state) : (talk.next step act answers).here = talk.here := by
  simp only [next, going, stepped]

theorem next_error {stop : Stop} (going : talk.ending = none) (stepped : step talk.here talk.state = .error stop state) :
    (talk.next step act answers).here = talk.here := by
  simp only [next, going, stepped]

theorem next_over {ending : Except Stop Continuation} (finished : talk.ending = some ending) :
    talk.next step act answers = talk := by
  simp only [next, finished]

end Conversation

namespace Env

open Storage Exec

variable {σ : Type} {env : Env σ} {act : Activation} {state after : Running σ} {callee : FunctionId} {args : List Argument}
  {out : Option Place} {writeBacks : List (Place × Nat)} {landing : LabelId}

/-- Arguments are evaluated one after the other. -/
theorem evalArguments_turn {values : List Value} {slot : Nat} {arg : Argument}
    (evaluated : env.evalArguments act args state = .ok values after) (found : args[slot]? = some arg) :
    ∃ earlier turn value rest later, env.evalArguments act (args.take slot) state = .ok earlier turn ∧
      env.eval act arg.value turn = .ok value rest ∧ env.evalArguments act (args.drop (slot + 1)) rest = .ok later after ∧
      values = earlier ++ value :: later ∧ earlier.length = slot := by
  induction args generalizing state values slot with
  | nil => cases found
  | cons first others ih =>
      obtain ⟨operand, qualifier⟩ := first
      simp only [evalArguments, bind_eq_ok, pure_eq_ok] at evaluated
      obtain ⟨value, middle, first, values', _, later, rfl, rfl⟩ := evaluated
      cases slot with
      | zero =>
          cases found
          exact ⟨[], state, value, middle, values', rfl, first, later, rfl, rfl⟩
      | succ slot =>
          obtain ⟨earlier, turn, own, rest, later', before, evaluated, behind, rfl, length⟩ := ih later found
          refine ⟨value :: earlier, turn, own, rest, later', ?_, evaluated, behind, rfl, congrArg (· + 1) length⟩
          simp only [List.take_succ_cons, evalArguments]
          rw [bind_of_ok first, bind_of_ok before]
          rfl

/-- The callee starts with its arguments in its first slots. -/
theorem startCall_frame {values : List Value} (started : env.startCall callee values state = .ok () after) :
    ∃ frame made, after.actor = state.actor.push frame ∧ frame.function = callee ∧ frame.locals = values ++ made ∧
      state.heap.Fresh after.heap made := by
  have called : env.startCall callee values state
      = (Exec.ofHeapOp (Actor.startCall env.image callee values state.actor) >>= fun actor =>
        Exec.modifyActor fun _ => actor) state := rfl
  rw [called, bind_eq_ok] at started
  obtain ⟨actor, middle, made, set⟩ := started
  obtain rfl : { middle with actor } = after := by cases set; rfl
  rw [ofHeapOp_apply] at made
  cases run : (Actor.startCall env.image callee values state.actor).run state.heap with
  | error cause => simp [run] at made
  | ok started =>
      simp only [run, EStateM.Result.ok.injEq] at made
      obtain ⟨rfl, rfl⟩ := made
      obtain ⟨routine, locals, _, created, pushed⟩ := Actor.startCall_eq_ok run
      obtain ⟨made, same, fresh⟩ := FrameShape.createLocals_fresh created
      exact ⟨_, made, pushed, rfl, same, fresh⟩

/-- What a place denotes depends on the choices of the call besides what is stored. -/
theorem Denotes.at {other : Activation} (same : other.choices = act.choices) {spots : Location → Prop} {storage : Storage σ}
    {place : Place} {here : Location} (denotes : env.Denotes act spots storage place here) :
    env.Denotes other spots storage place here := by
  induction denotes with
  | slot inside => exact .slot inside
  | field inside => exact .field inside
  | trigger => exact .trigger
  | payload => exact .payload
  | part _ holds tuple found ih => exact .part ih holds tuple found
  | element _ holds steady found ih =>
      refine .element ih holds (fun later keeps => ?_) found
      have alike : (act.on later.locals).Alike (other.on later.locals) := ⟨rfl, same⟩
      rw [env.eval_alike alike]
      exact steady later keeps

/-- Where a call is that has not left the instructions that wait for its callee. -/
structure Pending (act : Activation) (offset : Nat) (here : Activation) : Prop where
  locals : here.locals = act.locals
  choices : here.choices = act.choices
  position : here.position = act.position + offset
  staying : here.isLeaving = false
  before : offset < 4
  back : offset = 3 → ∃ value finals, here.lastCall = some (.completed value finals)

theorem Pending.waits {offset : Nat} {here : Activation} (pending : Pending act offset here) : act.WaitsAt here := by
  obtain ⟨locals, choices, position, _, before, _⟩ := pending
  exact ⟨locals, choices, by omega⟩

section

variable {answers : Nat → Running σ → Running σ} {talk : Conversation σ Activation}

/-- The callee is started. -/
theorem next_start (pending : Pending act 0 talk.here) (going : talk.ending = none)
    (here : env.routine.body[talk.here.position]? = some (.pushFrame callee args)) :
    ∃ offset, Pending act offset (talk.next env.stride id answers).here := by
  obtain ⟨locals, choices, position, staying, _, _⟩ := pending
  have strides := @stride_straight _ env _ talk.state _ _ (.refl talk.here) rfl here rfl staying
  rcases strides with ⟨stop, final, _, strode⟩ | ⟨after, final, stepped, _, strode⟩
  · rw [Conversation.next_error going strode]
    exact ⟨0, locals, choices, position, staying, by omega, by omega⟩
  · simp only [step, bind_eq_ok, pure_eq_ok, Flow.next.injEq] at stepped
    obtain ⟨_, _, _, _, _, _, rfl, _⟩ := stepped
    rw [Conversation.next_on going strode]
    exact ⟨1, locals, choices, congrArg (· + 1) position, staying, by omega, by omega⟩

/-- A label is passed. -/
theorem next_landing (pending : Pending act 1 talk.here) (going : talk.ending = none)
    (here : env.routine.body[talk.here.position]? = some (.label landing)) :
    ∃ offset, Pending act offset (talk.next env.stride id answers).here := by
  obtain ⟨locals, choices, position, staying, _, _⟩ := pending
  have strode : env.stride talk.here talk.state = .ok (.on { talk.here with position := talk.here.position + 1 }) talk.state := by
    refine stride_of_next ?_ staying
    rw [move_of_getElem? here]
    rfl
  rw [Conversation.next_on going strode]
  exact ⟨2, locals, choices, congrArg (· + 1) position, staying, by omega, by omega⟩

/-- The callee is invoked: if it is suspended, the call goes on at the label in front of the invocation. -/
theorem next_invoke (pending : Pending act 2 talk.here) (going : talk.ending = none)
    (here : env.routine.body[talk.here.position]? = some (.invoke callee))
    (behind : env.routine.body[talk.here.position + 1]? = some (.propagateSuspension callee landing))
    (landed : env.routine.landing? landing = some (act.position + 1)) :
    ∃ offset, Pending act offset (talk.next env.stride id answers).here := by
  obtain ⟨locals, choices, position, staying, _, _⟩ := pending
  obtain ⟨free, _⟩ := Activation.isLeaving_eq_false staying
  have ends (same : (talk.next env.stride id answers).here = talk.here) :
      ∃ offset, Pending act offset (talk.next env.stride id answers).here := by
    rw [same]
    exact ⟨2, locals, choices, position, staying, by omega, by omega⟩
  have moved : env.move talk.here talk.state = (do
      let result ← env.invoke callee
      pure (Flow.next { talk.here with position := talk.here.position + 1, lastCall := some result })) talk.state := by
    rw [move_of_getElem? here]
    rfl
  cases invoked : env.invoke callee talk.state with
  | error stop final =>
      rw [bind_of_error invoked] at moved
      exact ends (Conversation.next_error going (stride_of_error moved))
  | ok result final =>
      rw [bind_of_ok invoked] at moved
      cases result with
      | completed value finals =>
          have stays : ({ talk.here with position := talk.here.position + 1, lastCall := some (.completed value finals) } :
              Activation).isLeaving = false := by
            simp only [Activation.isLeaving, free]
          rw [Conversation.next_on going (stride_of_next moved stays)]
          exact ⟨3, locals, choices, congrArg (· + 1) position, stays, by omega, fun _ => ⟨value, finals, rfl⟩⟩
      | suspended reason =>
          have leaving : ({ talk.here with position := talk.here.position + 1, lastCall := some (.suspended reason) } :
              Activation).isLeaving = true := by
            simp only [Activation.isLeaving, free]
          have left : env.move { talk.here with position := talk.here.position + 1, lastCall := some (.suspended reason) } final
              = .ok (.leave (.suspended reason))
                (final.push ⟨env.routine.shape.function, talk.here.locals, landing, some callee, talk.here.choices⟩) := by
            rw [move_of_getElem? behind]
            rfl
          have strode := stride_of_leave moved leaving left
          cases ending : reason.isTerminal with
          | true =>
              rw [handOver_final (by rintro _ ⟨⟩; exact ending)] at strode
              exact ends (Conversation.next_ended going strode)
          | false =>
              rw [Conversation.next_ask going (strode.trans (handOver_waiting landed ending))]
              exact ⟨1, locals, choices, rfl, rfl, by omega, by omega⟩

/-- The call finds that its callee has returned. -/
theorem next_back (pending : Pending act 3 talk.here) (going : talk.ending = none)
    (here : env.routine.body[talk.here.position]? = some (.propagateSuspension callee landing)) :
    ∃ value finals, (talk.next env.stride id answers).here = act.afterCall value finals ∧
      (talk.next env.stride id answers).ending = none := by
  obtain ⟨locals, choices, position, staying, _, back⟩ := pending
  obtain ⟨free, _⟩ := Activation.isLeaving_eq_false staying
  obtain ⟨value, finals, last⟩ := back rfl
  have strode : env.stride talk.here talk.state = .ok (.on { talk.here with position := talk.here.position + 1 }) talk.state := by
    refine stride_of_next ?_ staying
    rw [move_of_getElem? here]
    simp only [step, last]
    rfl
  rw [Conversation.next_on going strode]
  refine ⟨value, finals, ?_, going⟩
  rw [Activation.afterCall, ← locals, ← choices, ← last, ← free, position]

/-- A step of a call that waits for its callee leaves it waiting, unless the callee has returned. -/
theorem next_pending (laid : env.routine.Laid)
    (placed : CodeAt env.routine.body act.position (Template.call callee args out writeBacks landing)) {offset : Nat}
    (pending : Pending act offset talk.here) :
    (∃ offset, Pending act offset (talk.next env.stride id answers).here) ∨
      ∃ value finals, (talk.next env.stride id answers).here = act.afterCall value finals ∧
        (talk.next env.stride id answers).ending = none := by
  cases going : talk.ending with
  | some ending =>
      rw [Conversation.next_over going]
      exact .inl ⟨offset, pending⟩
  | none =>
      have there := pending.position
      match offset, pending.before with
      | 0, _ => exact .inl (next_start pending going (by rw [there]; exact placed.head))
      | 1, _ => exact .inl (next_landing pending going (by rw [there]; exact placed.tail.head))
      | 2, _ =>
          exact .inl (next_invoke pending going (by rw [there]; exact placed.tail.tail.head)
            (by rw [there]; exact placed.tail.tail.tail.head) (laid.landing _ _ placed.tail.head))
      | 3, _ => exact .inr (next_back pending going (by rw [there]; exact placed.tail.tail.tail.head))

/-- A call waits for its callee until it has returned, if it ever does. -/
theorem iterate_pending (laid : env.routine.Laid)
    (placed : CodeAt env.routine.body act.position (Template.call callee args out writeBacks landing)) (staying : act.isLeaving = false)
    (count : Nat) : (∃ offset, Pending act offset ((Conversation.next env.stride id answers)^[count] (.start act state)).here) ∨
      ∃ back ≤ count, ∃ value finals,
        ((Conversation.next env.stride id answers)^[back] (.start act state)).here = act.afterCall value finals ∧
        ((Conversation.next env.stride id answers)^[back] (.start act state)).ending = none := by
  induction count with
  | zero => exact .inl ⟨0, rfl, rfl, rfl, staying, by omega, by omega⟩
  | succ count ih =>
      rcases ih with ⟨offset, pending⟩ | ⟨back, earlier, returned⟩
      · rw [Function.iterate_succ_apply']
        refine (next_pending laid placed pending).imp_right fun returned => ⟨count + 1, Nat.le_refl _, ?_⟩
        rw [Function.iterate_succ_apply']
        exact returned
      · exact .inr ⟨back, Nat.le_succ_of_le earlier, returned⟩

variable (answers) in
/-- One of the values that the callee has handed back is stored. -/
theorem next_stores {value : Option Value} {finals locals : List Value} {position : Nat} {instr : Instr} {place : Place} {new : Value}
    {spots : Location → Prop} {storage : Storage σ} {here : Location}
    (at' : talk.here = ⟨locals, act.choices, position, some (.completed value finals), none⟩) (going : talk.ending = none)
    (found : env.routine.body[position]? = some instr) (stores : instr.Stores value finals (place, new))
    (denotes : env.Denotes act spots storage place here) (clear : storage.Clear spots here)
    (keeps : storage.Keeps spots ⟨locals, talk.state⟩) :
    ∃ after : Storage σ, talk.next env.stride id answers = { talk with
        here := ⟨after.locals, act.choices, position + 1, some (.completed value finals), none⟩, state := after.state } ∧
      (⟨locals, talk.state⟩ : Storage σ).Keeps (· = here) after ∧ after.read? here = some new := by
  let own : Activation := ⟨locals, act.choices, position + 1, some (.completed value finals), none⟩
  have choices : own.choices = act.choices := rfl
  obtain ⟨after, stored, kept, final⟩ := (denotes.at choices).store clear keeps new
  have stored : env.store own place new talk.state = .ok (own.on after.locals) after.state := stored
  refine ⟨after, ?_, kept, final⟩
  have moved : env.move talk.here talk.state = .ok (.next (own.on after.locals)) after.state := by
    rw [at']
    rw [move_of_getElem? found]
    cases stores with
    | result =>
        simp only [step]
        rw [map_apply, stored]
    | parameter held =>
        simp only [step, held]
        rw [map_apply, stored]
  rw [Conversation.next_on going (stride_of_next moved rfl)]
  rfl

/-- All that the callee has handed back is stored, one after the other. -/
theorem iterate_stores {value : Option Value} {finals locals : List Value} {position : Nat} {code : List Instr}
    {deliveries : List (Place × Value)} {locate : Place → Location} {spots : Location → Prop} {storage : Storage σ}
    (at' : talk.here = ⟨locals, act.choices, position, some (.completed value finals), none⟩) (going : talk.ending = none)
    (placed : CodeAt env.routine.body position code) (stores : List.Forall₂ (Instr.Stores value finals) code deliveries)
    (among : ∀ delivery ∈ deliveries, spots (locate delivery.1))
    (denotes : ∀ delivery ∈ deliveries, env.Denotes act spots storage delivery.1 (locate delivery.1) ∧
      storage.Clear spots (locate delivery.1)) (keeps : storage.Keeps spots ⟨locals, talk.state⟩) :
    ∃ after : Storage σ, (Conversation.next env.stride id answers)^[deliveries.length] talk = { talk with
        here := ⟨after.locals, act.choices, position + deliveries.length, some (.completed value finals), none⟩, state := after.state } ∧
      (⟨locals, talk.state⟩ : Storage σ).Keeps (fun location => ∃ delivery ∈ deliveries, locate delivery.1 = location) after ∧
      ∀ earlier place new later, deliveries = earlier ++ (place, new) :: later →
        (∀ other ∈ later, locate other.1 ≠ locate place) → after.read? (locate place) = some new := by
  induction stores generalizing talk locals position with
  | nil =>
      refine ⟨⟨locals, talk.state⟩, ?_, .refl _ _, fun earlier place new later same => by simp at same⟩
      change talk = { talk with here := ⟨locals, act.choices, position, some (.completed value finals), none⟩ }
      rw [← at']
  | @cons instr delivery code deliveries stores rest ih =>
      obtain ⟨first, others⟩ := List.forall_mem_cons.mp denotes
      obtain ⟨spot, spots'⟩ := List.forall_mem_cons.mp among
      obtain ⟨middle, stepped, kept, held⟩ := next_stores answers at' going placed.head stores first.1 first.2 keeps
      have reached : storage.Keeps spots middle := keeps.trans (kept.mono fun location same => same ▸ spot)
      have reached : storage.Keeps spots ⟨middle.locals, (talk.next env.stride id answers).state⟩ := by
        rw [stepped]
        exact reached
      have at'' : (talk.next env.stride id answers).here
          = ⟨middle.locals, act.choices, position + 1, some (.completed value finals), none⟩ := by rw [stepped]
      have going : (talk.next env.stride id answers).ending = none := by
        rw [stepped]
        exact going
      obtain ⟨after, run, kept', last⟩ := ih at'' going placed.tail spots' others reached
      rw [stepped] at kept'
      refine ⟨after, ?_, ?_, ?_⟩
      · rw [List.length_cons, Function.iterate_succ_apply, run, stepped, Nat.add_assoc, Nat.add_comm 1]
      · refine (kept.mono ?_).trans (kept'.mono ?_)
        · rintro _ rfl
          exact ⟨delivery, List.mem_cons_self, rfl⟩
        · rintro _ ⟨other, member, rfl⟩
          exact ⟨other, List.mem_cons_of_mem _ member, rfl⟩
      · intro earlier place new later same distinct
        cases earlier with
        | nil =>
            obtain ⟨rfl, rfl⟩ := List.cons.inj same
            refine kept'.contents _ _ held ?_
            rintro ⟨other, member, there⟩
            exact distinct other member there
        | cons _ earlier =>
            obtain ⟨_, same⟩ := List.cons.inj same
            exact last earlier place new later same distinct

end

/-- A copy of what is at the place of a swapped argument is made when it is the turn of that argument. -/
theorem eval_copy {place : Place} {copy : Value} {turn rest : Running σ} {here : Location}
    (evaluated : env.eval act (.clone (.load place)) turn = .ok copy rest)
    (denotes : env.Denotes act (fun _ => False) ⟨act.locals, turn⟩ place here) :
    ∃ value loaded, (⟨act.locals, turn⟩ : Storage σ).read? here = some value ∧
      (⟨act.locals, turn⟩ : Storage σ).Stays ⟨act.locals, loaded⟩ ∧ copy = (value.deepCopy.run loaded.heap).1 ∧
      loaded.heap.Fresh (value.deepCopy.run loaded.heap).2 [copy] := by
  obtain ⟨value, loaded, loads, stays, held⟩ := denotes.load (clear_of_none _ _) (.refl _ _)
  have loads : env.eval act (.load place) turn = .ok value loaded := loads
  simp only [eval, bind_eq_ok] at evaluated
  obtain ⟨value', loaded', loads', copied⟩ := evaluated
  obtain ⟨rfl, rfl⟩ := EStateM.Result.ok.inj (loads.symm.trans loads')
  obtain ⟨rfl, _⟩ := EStateM.Result.ok.inj copied
  exact ⟨value, loaded, held, stays, rfl, (Alloc.Makes.deepCopy [] value).fresh⟩

/-- A call statement and its swapped arguments. -/
structure WritesBack (env : Env σ) (callee : FunctionId) (args : List Argument) (out : Option Place) (landing : LabelId) : Prop where
  /-- The callee starts with copies of what is at the locations of the swapped arguments at the turn of each. -/
  starts : ∀ act state flow after, env.step act (.pushFrame callee args) state = .ok flow after →
    flow = .next act ∧ ∃ (base : Actor) (frame : Frame), after.actor = base.push frame ∧ frame.function = callee ∧
      ∀ place slot, (place, slot) ∈ Argument.swapped 0 args → ∃ earlier turn copy,
        env.evalArguments act (args.take slot) state = .ok earlier turn ∧ frame.locals[slot]? = some copy ∧
        ∀ here, env.Denotes act (fun _ => False) ⟨act.locals, turn⟩ place here → ∃ value loaded,
          (⟨act.locals, turn⟩ : Storage σ).read? here = some value ∧
          (⟨act.locals, turn⟩ : Storage σ).Stays ⟨act.locals, loaded⟩ ∧ copy = (value.deepCopy.run loaded.heap).1 ∧
          loaded.heap.Fresh (value.deepCopy.run loaded.heap).2 [copy]
  /-- The call waits until the callee has returned, and keeps its locals and choices. -/
  waits : ∀ (act : Activation) answers state count, act.isLeaving = false →
    CodeAt env.routine.body act.position (Template.call callee args out (Argument.swapped 0 args) landing) →
    let after (count : Nat) := (Conversation.next env.stride id answers)^[count] (.start act state)
    act.WaitsAt (after count).here ∨
      ∃ back ≤ count, ∃ value finals, (after back).here = act.afterCall value finals ∧ (after back).ending = none
  /-- Then the result and the final parameters are at the locations that their places denote, the last one that is
  stored to each of them, and nothing else has changed: if what is at these locations has no say in which they are. -/
  stores : ∀ (act : Activation) answers (talk : Conversation σ Activation) value finals deliveries (locate : Place → Location),
    CodeAt env.routine.body act.position (Template.call callee args out (Argument.swapped 0 args) landing) →
    talk.here = act.afterCall value finals → talk.ending = none →
    Delivers out (Argument.swapped 0 args) value finals deliveries →
    let spots := fun location => ∃ delivery ∈ deliveries, locate delivery.1 = location
    (∀ delivery ∈ deliveries, env.Denotes act spots ⟨act.locals, talk.state⟩ delivery.1 (locate delivery.1) ∧
      (⟨act.locals, talk.state⟩ : Storage σ).Clear spots (locate delivery.1)) →
    ∃ after : Storage σ, (Conversation.next env.stride id answers)^[deliveries.length] talk = { talk with
        here := ⟨after.locals, act.choices, act.position + 4 + deliveries.length, some (.completed value finals), none⟩
        state := after.state } ∧
      (⟨act.locals, talk.state⟩ : Storage σ).Keeps spots after ∧
      ∀ earlier place new later, deliveries = earlier ++ (place, new) :: later →
        (∀ other ∈ later, locate other.1 ≠ locate place) → after.read? (locate place) = some new

theorem writesBack (laid : env.routine.Laid) (callee : FunctionId) (args : List Argument) (out : Option Place) (landing : LabelId) :
    env.WritesBack callee args out landing where
  starts act state flow after stepped := by
    simp only [step, bind_eq_ok, pure_eq_ok] at stepped
    obtain ⟨values, middle, evaluated, _, _, started, rfl, rfl⟩ := stepped
    obtain ⟨frame, made, above, own, filled, _⟩ := startCall_frame started
    refine ⟨rfl, _, frame, above, own, fun place slot member => ?_⟩
    obtain ⟨⟨operand, qualifier⟩, found, named⟩ := Argument.mem_swapped.mp member
    obtain ⟨earlier, turn, copy, rest, later, before, own, _, rfl, rfl⟩ := evalArguments_turn evaluated found
    obtain rfl := Argument.place?_eq_some named
    refine ⟨earlier, turn, copy, before, ?_, fun here denotes => eval_copy own denotes⟩
    rw [filled, List.append_assoc, List.getElem?_append_right (Nat.le_refl _), Nat.sub_self]
    rfl
  waits act answers state count staying placed :=
    (iterate_pending laid placed staying count).imp_left fun ⟨_, pending⟩ => pending.waits
  stores act answers talk value finals deliveries locate placed at' going delivers := by
    intro spots denotes
    rw [Template.call, List.append_assoc] at placed
    exact iterate_stores at' going placed.right delivers.stores (fun delivery member => ⟨delivery, member, rfl⟩) denotes (.refl _ _)

/-- The copy in the slot of a swapped argument consists of cells that are as they were when it was made and that nothing
leads to from the caller, from the rest of its actor or from the other locals of the callee. -/
def StartsApart (env : Env Surroundings) (callee : FunctionId) (args : List Argument) : Prop :=
  ∀ (region : Region) act state flow after, state.heap.Closed region → region.OwnsAll (act.locals ++ state.actor.roots) →
    env.step act (.pushFrame callee args) state = .ok flow after →
    ∀ place slot, (place, slot) ∈ Argument.swapped 0 args → ∃ (base : Actor) (frame : Frame) (earlier : List Value) (turn rest : Running Surroundings) (copy : Value) (own part : Region),
      after.actor = base.push frame ∧ env.evalArguments act (args.take slot) state = .ok earlier turn ∧
      env.eval act (.clone (.load place)) turn = .ok copy rest ∧ frame.locals[slot]? = some copy ∧
      part.Owns copy ∧ after.heap.Closed part ∧ (∀ address, part address → after.heap.read address = rest.heap.read address) ∧
      own.Apart part ∧ own.OwnsAll (act.locals ++ base.roots ++ frame.locals.eraseIdx slot)

theorem startsApart {env : Env Surroundings} (sealed : env.Sealed) (callee : FunctionId) (args : List Argument) :
    env.StartsApart callee args := by
  intro region act state flow after closed owns stepped place slot member
  obtain ⟨locals, roots⟩ := Region.ownsAll_append.mp owns
  simp only [step, bind_eq_ok, pure_eq_ok] at stepped
  obtain ⟨values, middle, evaluated, _, _, started, rfl, rfl⟩ := stepped
  obtain ⟨frame, made, above, _, filled, fresh⟩ := startCall_frame started
  obtain ⟨⟨operand, qualifier⟩, found, named⟩ := Argument.mem_swapped.mp member
  obtain ⟨earlier, turn, copy, rest, later, before, own, behind, rfl, rfl⟩ := evalArguments_turn evaluated found
  obtain rfl := Argument.place?_eq_some named
  obtain ⟨first, kept, roots, owned⟩ := (evalArguments_keeps Within.stewards sealed.serves locals _).ok closed roots before
  have locals := locals.mono kept.heap.inside
  obtain ⟨second, part, kept', roots, given⟩ := (eval_gives_copy sealed locals rfl).ok kept.heap.closed roots own
  have locals := locals.mono kept'.heap.inside
  obtain ⟨third, kept'', roots, owned'⟩ := (evalArguments_keeps Within.stewards sealed.serves locals _).ok kept'.heap.closed roots behind
  have joins := fresh.joins kept''.heap.closed
  -- the copy stays detached while the other arguments are evaluated and the frame is made
  have detached := (kept'.atHand.later kept''.heap).later joins
  refine ⟨_, frame, earlier, turn, rest, copy, _, part, above, before, own, ?_, by simpa using given, detached.closed,
    fun address inside => ?_, detached.apart, ?_⟩
  · rw [filled, List.append_assoc, List.getElem?_append_right (Nat.le_refl _), Nat.sub_self]
    rfl
  · have allocated := kept'.atHand.closed.allocated address inside
    rw [fresh.same address (Nat.lt_of_lt_of_le allocated kept''.heap.size),
      kept''.heap.elsewhere address allocated fun member => kept'.atHand.apart address member inside]
  · have others : frame.locals.eraseIdx earlier.length = earlier ++ later ++ made := by
      rw [filled, List.append_assoc, List.eraseIdx_append_of_length_le (Nat.le_refl _), Nat.sub_self]
      simp
    have inside := joins.inside
    have earlier_owned := ((owned.mono kept'.heap.inside).mono kept''.heap.inside).mono inside
    have new := fresh.owns.mono (Region.inside_union_right third _)
    rw [others]
    simp only [Region.ownsAll_append]
    exact ⟨⟨(locals.mono kept''.heap.inside).mono inside, roots.mono inside⟩, ⟨earlier_owned, owned'.mono inside⟩, new⟩

end Env

/-- An accepted call statement starts its callee with copies of what is at its swapped places, waits for it, and stores
what it hands back to its places, behind the choices that its indices and keys ask for. -/
theorem lowered_call_writes_back {scope : Lowering.Scope} {start stop : Lowering.Progress} {inNew : Bool} {access : Access} {id : NodeId}
    {span : Span} {callee : FunctionId} {args out : Option Node} {code : List Instr}
    (accepted : (Node.mk id span (.call callee args out)).lower inNew access scope start = .ok (.code code, stop)) :
    ∃ choices asks items passed dest landing between middle, Spells (Outline.chooseAll choices) asks ∧
      code = asks ++ Template.call callee passed dest (Argument.swapped 0 passed) landing ∧
      lowerItems inNew true args scope start = .ok (items, between) ∧
      lowerOptional inNew .write out scope between = .ok (dest.map .place, middle) ∧
      List.Forall₂ ListItem.Passes items passed ∧
      (∀ {σ : Type} (env : Env σ), env.routine.Laid → env.WritesBack callee passed dest landing) ∧
      ∀ env : Env Surroundings, env.Sealed → env.StartsApart callee passed := by
  obtain ⟨own, last, choices, asks, lowered, asked, rfl⟩ := Node.lower_statement_eq_ok ⟨rfl, rfl⟩ accepted
  cases NodeKind.lower_written rfl lowered with
  | call listed placed passes =>
      exact ⟨choices, asks, _, _, _, _, _, _, asked, rfl, listed, placed, passes,
        fun _ laid => Env.writesBack laid _ _ _ _, fun _ sealed => Env.startsApart sealed _ _⟩

namespace Sample

/-- Overwrites its parameters with 1 and 9. -/
def reprice : FunctionInfo where
  name := "reprice"
  params := [⟨"a", 0, .int⟩, ⟨"b", 1, .int⟩]
  locals := []
  returnType := none
  slotCount := 2
  owner := none
  types := .empty
  body := node (.block [
    node (.assign (node (.name (.slot 0))) (node (.lit (.int 1))) .none),
    node (.assign (node (.name (.slot 1))) (node (.lit (.int 9))) .none)])

/-- Puts 7 and 5 into a sequence and swaps `i`, which is 0, and the element at `i` for what `reprice` makes of them. -/
def ledger : FunctionInfo where
  name := "ledger"
  params := []
  locals := [⟨"i", 0, .int⟩, ⟨"xs", 1, .seq .int⟩]
  returnType := some (.tuple [.int, .seq .int])
  slotCount := 2
  owner := none
  types := .ofList [(⟨0⟩, .seq .int)]
  body :=
    let i := node (.name (.slot 0))
    let xs := node (.name (.slot 1))
    node (.block [
      node (.insert xs (pair (node (.lit (.int 0))) (node (.lit (.int 7))))),
      node (.insert xs (pair (node (.lit (.int 1))) (node (.lit (.int 5))))),
      node (.call ⟨0⟩ (some (node (.exprs .swap i (some (node (.exprs .swap (node (.binary .index xs i)) none)))))) none),
      node (.ret (some (pair i xs)))])

/-- Swaps its two locals for what `reprice` makes of them. -/
def till : FunctionInfo where
  name := "till"
  params := []
  locals := [⟨"a", 0, .int⟩, ⟨"b", 1, .int⟩]
  returnType := none
  slotCount := 2
  owner := none
  types := .empty
  body := node (.call ⟨0⟩ (some (node (.exprs .swap (node (.name (.slot 0))) (some (node
    (.exprs .swap (node (.name (.slot 1))) none)))))) none)

def counter : Program := ⟨"counter.p", [reprice, ledger, till], [⟨"Clerk", [], []⟩], []⟩

end Sample

/-- The 9 was to replace the 7 at index 0, where the element was read; it replaces the 5, because `i` is 1 by the time
the element is written back. -/
theorem write_back_goes_astray : Sample.counter.returned? ⟨1⟩ = some "(1, [7, 9])" := by
  decide +kernel

/-- Both locals of `till` are overwritten with what `reprice` hands back. -/
theorem till_is_written_back : ∃ (scope : Lowering.Scope) (code : List Instr) (stop : Lowering.Progress) (routine : Routine)
    (env : Env Unit) (act : Activation) (state : Running Unit) (talk : Conversation Unit Activation) (after : Storage Unit),
    Sample.till.body.lower false .read scope .start = .ok (.code code, stop) ∧
      Sample.counter.lowerFunction ⟨2⟩ {} = .ok routine ∧ env.routine = routine ∧ CodeAt routine.body 0 code ∧
      (Conversation.next env.stride id fun _ => id)^[4] (.start act state) = talk ∧
      talk.here = act.afterCall none [.int 1, .int 9] ∧
      ((Conversation.next env.stride id fun _ => id)^[2] talk).here.locals = after.locals ∧
      after.read? (.slot 0) = some (.int 1) ∧ after.read? (.slot 1) = some (.int 9) := by
  let scope : Lowering.Scope := ⟨Sample.counter, Sample.till, {}⟩
  let args : List Argument := [.mk (.clone (.load (.slot 0))) .swap, .mk (.clone (.load (.slot 1))) .swap]
  let code : List Instr := Template.call ⟨0⟩ args none [(.slot 0, 0), (.slot 1, 1)] ⟨1⟩
  have accepted : ∃ stop, Sample.till.body.lower false .read scope .start = .ok (.code code, stop) := ⟨_, rfl⟩
  obtain ⟨stop, accepted⟩ := accepted
  let routine : Routine :=
    ⟨⟨2⟩, "till", none, ⟨⟨2⟩, "till", [⟨"a", some .int, .declared⟩, ⟨"b", some .int, .declared⟩], 0⟩, 1, some [1], code ++ Routine.implicitReturn, []⟩
  have known : Sample.counter.lowerFunction ⟨2⟩ {} = .ok routine := rfl
  have laid := (Program.lowerFunction_follows known).1
  obtain ⟨choices, asks, items, passed, dest, landing, between, middle, _, same, listed, placed, passes, works, _⟩ :=
    lowered_call_writes_back accepted
  -- what the parts of the statement are lowered to
  obtain rfl : dest = none := by
    cases dest with
    | none => rfl
    | some place => cases placed
  obtain rfl : passed = args := by
    cases listed
    obtain _ | ⟨⟨_, named, rfl⟩, _ | ⟨⟨_, named', rfl⟩, _ | _⟩⟩ := passes
    cases named
    cases named'
    rfl
  obtain rfl : asks = [] := by
    have lengths := congrArg List.length same
    simp only [List.length_append] at lengths
    exact List.length_eq_zero_iff.mp (Nat.add_eq_right.mp lengths.symm)
  obtain rfl : landing = ⟨1⟩ := (Instr.label.inj (Option.some.inj (congrArg (·[1]?) same))).symm
  let image : Image := (Sample.counter.lower {}).toOption.getD ⟨"", [], [], []⟩
  let config : RunConfig Unit := ⟨image, fun _ _ _ => .ok (), 3, 100⟩
  let env : Env Unit := ⟨image, routine, config.handler, config.executeWithin 3⟩
  let idle : Actor := ⟨⟨0⟩, ⟨0⟩, "", [], .null, .null, none, [], ⟨none, none⟩, []⟩
  let act : Activation := ⟨[.int 3, .int 4], [], 0, none, none⟩
  let state : Running Unit := ⟨.empty, idle, (), 0⟩
  have here : CodeAt routine.body 0 code := .refl _ _
  obtain ⟨talk, reached⟩ : ∃ talk, (Conversation.next env.stride id fun _ => id)^[4] (.start act state) = talk := ⟨_, rfl⟩
  have returned : talk.here = act.afterCall none [.int 1, .int 9] ∧ talk.ending = none := by
    rw [← reached]
    constructor <;> rfl
  let locate : Place → Location := fun place => if place matches .slot 0 then .slot 0 else .slot 1
  obtain ⟨after, run, _, last⟩ := (works env laid).stores act (fun _ => id) talk none [.int 1, .int 9]
    [(.slot 0, .int 1), (.slot 1, .int 9)] locate here returned.1 returned.2 rfl (by
      have clear (spots : Location → Prop) (storage : Storage Unit) (slot : Nat) : storage.Clear spots (.slot slot) := by
        rintro _ _ _ _ ⟨_, _, impossible, _⟩
        cases impossible
      simp only [List.mem_cons, List.not_mem_nil, or_false, forall_eq_or_imp, forall_eq]
      exact ⟨⟨.slot (Nat.zero_lt_succ 1), clear _ _ _⟩, ⟨.slot (Nat.lt_succ_self 1), clear _ _ _⟩⟩)
  refine ⟨scope, code, stop, routine, env, act, state, talk, after, accepted, known, rfl, here, reached, returned.1,
    congrArg (·.here.locals) run, ?_, ?_⟩
  · exact last [] (.slot 0) _ _ rfl (by simp [locate])
  · exact last [_] (.slot 1) _ [] rfl (by simp)

end Reentry
