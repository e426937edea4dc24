import Reentry.Proofs.Receive.Attends

/-!
Whole runs with a journal. A run on saved frames that are parked at a receive starts the handler of the
event that arrived, and no other; a run on any other frames starts none.
-/

namespace Reentry

open Exec

variable {σ : Type}

namespace Env

variable {env : Env (Noted σ)} {receives : FunctionId → List ReceiveCase → Prop} {base : List Frame}

/-- A call in progress notes what is to be noted, once. -/
theorem runNoting_heeds (minded : env.Minded receives) (own : env.image.routine? env.routine.shape.function = some env.routine)
    (steps : Nat) {spot : Spot} {act : Activation} {state : Running (Noted σ)}
    (attends : env.Attends receives base spot act state) :
    Ends (env.runNoting steps act) state
      (fun result after => env.image.Leaves receives base result after ∧ spot.Notes env.image base state after)
      (spot.Fails env.image base state) := by
  induction steps generalizing spot act state with
  | zero => exact Spot.Fails.refused rfl rfl
  | succ steps ih =>
      refine (moveNoting_heeds minded own attends).bind fun flow middle arrives => ?_
      cases flow with
      | leave result => exact arrives
      | next after =>
          obtain ⟨other, goesOn, owes⟩ := arrives
          exact (ih goesOn).weaken (fun result final ⟨leaves, notes⟩ => ⟨leaves, owes.notes final notes⟩) owes.fails

end Env

namespace RunConfig

variable {config : RunConfig (Noted σ)} {receives : FunctionId → List ReceiveCase → Prop}

theorem enter_ends (function : FunctionId) (state : Running (Noted σ)) : Ends (config.enter function) state
    (fun entered after => ∃ frame below position, config.Finds function state frame below position entered after)
    fun stop after => stop.missesCase = false ∧ after.journal = state.journal := by
  refine (enter_finds function state).weaken (fun _ _ => id) ?_
  rintro stop after ⟨⟨routine, trap, rfl, bars⟩, stack, rfl⟩
  refine ⟨?_, rfl⟩
  cases trap <;> first | rfl | cases bars

/-- Frames as they should be can be entered, unless the machine type is the wrong one. -/
theorem enter_refusal {function : FunctionId} {chain base : List Frame} {state after : Running (Noted σ)} {stop : Stop}
    (saved : config.image.Saved function chain) (above : state.actor.stack = chain ++ base)
    (refused : config.enter function state = .error stop after) : stop.isRefusal := by
  obtain ⟨routine, frame, below, position, _, entered⟩ := enter_saved saved above
  rw [entered] at refused
  cases other : routine.owner.filter (· ≠ state.actor.machine) with
  | none =>
      rw [other] at refused
      cases refused
  | some owner =>
      rw [other] at refused
      cases refused
      rfl

theorem inner_saved {function callee : FunctionId} {routine : Routine} {frame : Frame} {below : List Frame} {place : Nat}
    {spot : Spot} (saved : config.image.Saved function (frame :: below))
    (known : config.image.routine? frame.function = some routine) (leads : routine.landing? frame.label = some place)
    (invoke : routine.body[place + 1]? = some (.invoke callee)) (told : spot.isTold)
    (inner : config.image.Parks receives spot below) : config.image.Saved callee below := by
  cases saved with
  | waits _ =>
      cases inner
      cases told
  | calls calls inner =>
      obtain ⟨known', _, _, expects⟩ := calls
      obtain rfl := Option.some.inj (known.symm.trans known')
      obtain rfl := Option.some.inj (leads.symm.trans expects.leads)
      obtain rfl := Instr.invoke.inj (Option.some.inj (invoke.symm.trans expects.invoke))
      exact inner

/-- A call that has been entered goes on where its frames are parked; that it begins has been noted. -/
theorem Finds.attends (listens : config.image.Listens receives) {function : FunctionId} {spot : Spot} {chain base below : List Frame}
    {frame : Frame} {position : Nat} {entered : Routine × Activation} {state after : Running (Noted σ)}
    (parks : config.image.Parks receives spot chain) (stack : state.actor.stack = chain ++ base)
    (awaited : spot.Awaited state.actor.receiveSet) (saved : spot.isTold → config.image.Saved function chain)
    (bottom : spot = .nowhere → base = []) (finds : config.Finds function state frame below position entered after)
    (handler : Handler (Noted σ)) (invoke : FunctionId → Exec (Noted σ) Continuation) (depth : Nat) :
    ∃ other, (⟨config.image, entered.1, handler, invoke⟩ : Env (Noted σ)).Attends receives base other entered.2
        { after.noteStart frame.label.isStart function entered.2 with depth } ∧
      spot.Owes config.image base state other { after.noteStart frame.label.isStart function entered.2 with depth } := by
  obtain ⟨above, own, known, entry, enters, rfl⟩ := finds
  have ours : entered.1.shape.function = frame.function := (listens _ _ known).1
  rw [enters]
  cases parks with
  | gone =>
      rw [bottom rfl, above] at stack
      cases stack
  | starts known' fresh follows hears =>
      obtain ⟨rfl, rfl⟩ := List.cons.inj (above.symm.trans stack)
      obtain rfl := Option.some.inj (known.symm.trans known')
      rw [fresh] at entry ⊢
      obtain rfl := Option.some.inj entry
      refine ⟨.elsewhere, .going follows (ours ▸ hears) awaited rfl, @Spot.Notes.owes _ _ _ (.start frame) _ _ ⟨[], ?_⟩⟩
      subst own
      rfl
  | rests known' entry' follows hears =>
      obtain ⟨rfl, rfl⟩ := List.cons.inj (above.symm.trans stack)
      obtain rfl := Option.some.inj (known.symm.trans known')
      obtain rfl := Option.some.inj (entry.symm.trans entry')
      cases frame.label.isStart with
      | true => exact ⟨.elsewhere, .going follows (ours ▸ hears) awaited rfl, .quiet ⟨[_], rfl⟩⟩
      | false => exact ⟨.elsewhere, .going follows (ours ▸ hears) awaited rfl, .quiet (.same rfl)⟩
  | waits known' leads follows receiving hears =>
      obtain ⟨rfl, rfl⟩ := List.cons.inj (above.symm.trans stack)
      obtain rfl := Option.some.inj (known.symm.trans known')
      obtain rfl := Option.some.inj (entry.symm.trans (Routine.entrance?_of_landing? leads))
      rw [Routine.isStart_of_landing? leads]
      rw [← ours] at receiving hears ⊢
      exact ⟨_, .dispatching follows receiving awaited hears rfl, .of_entered _ _⟩
  | calls known' leads label calls propagate follows hears inner =>
      obtain ⟨rfl, rfl⟩ := List.cons.inj (above.symm.trans stack)
      obtain rfl := Option.some.inj (known.symm.trans known')
      obtain rfl := Option.some.inj (entry.symm.trans (Routine.entrance?_of_landing? leads))
      rw [Routine.isStart_of_landing? leads]
      have again := Follows.pass label rfl (@Follows.invoke _ 0 _ _ _ _ _ label calls propagate follows)
      have innerSaved (told : spot.isTold) := inner_saved (saved told) known leads calls told inner
      exact ⟨spot, .calling again (ours ▸ hears) inner rfl awaited innerSaved bottom, .of_entered _ _⟩

end RunConfig

theorem Running.noteStart_depth (begins : Bool) (function : FunctionId) (act : Activation) (state : Running (Noted σ)) :
    (state.noteStart begins function act).depth = state.depth := by
  cases begins <;> rfl

/-! How many calls are active plays no part in what a call leaves and notes. -/

section

variable {image : Image} {receives : FunctionId → List ReceiveCase → Prop} {base : List Frame} {spot : Spot}
  {before after : Running (Noted σ)} {result : Continuation} {stop : Stop}

theorem Image.Leaves.at_depth (leaves : image.Leaves receives base result after) (depth : Nat) :
    image.Leaves receives base result { after with depth } := by
  cases result <;> exact leaves

theorem Spot.Notes.at_depth (notes : spot.Notes image base before after) (depth : Nat) :
    spot.Notes image base before { after with depth } := by
  cases spot <;> exact notes

theorem Spot.Fails.at_depth (fails : spot.Fails image base before stop after) (depth : Nat) :
    spot.Fails image base before stop { after with depth } := by
  cases spot <;> exact fails

end

namespace RunConfig

variable {config : RunConfig (Noted σ)} {receives : FunctionId → List ReceiveCase → Prop}

/-- A run notes what is to be noted, once. -/
theorem executeNotingWithin_heeds (sound : config.image.Sound) (listens : config.image.Listens receives)
    (raises : ∀ cause, config.handler.Raises cause → cause.missesCase = false)
    (keeps : ∀ heap effect outside after, config.handler heap effect outside = .ok after → after.2 = outside.2)
    (levels : Nat) {function : FunctionId} {spot : Spot} {chain base : List Frame} {state : Running (Noted σ)}
    (parks : config.image.Parks receives spot chain) (stack : state.actor.stack = chain ++ base)
    (awaited : spot.Awaited state.actor.receiveSet) (saved : spot.isTold → config.image.Saved function chain)
    (bottom : spot = .nowhere → base = []) :
    Ends (config.executeNotingWithin levels function) state
      (fun result after => config.image.Leaves receives base result after ∧ spot.Notes config.image base state after)
      (spot.Fails config.image base state) := by
  induction levels generalizing function spot chain base state with
  | zero => exact Spot.Fails.refused rfl rfl
  | succ levels ih =>
      have looked : (get : Exec (Noted σ) (Running (Noted σ))) state = .ok state state := rfl
      have entering : Ends (config.enter function) state
          (fun entered after => ∃ frame below position, config.Finds function state frame below position entered after)
          (spot.Fails config.image base state) := by
        unfold Ends
        cases entered : config.enter function state with
        | ok result after => exact (enter_ends function state).ok entered
        | error stop after =>
            obtain ⟨hits, journal⟩ := (enter_ends function state).error entered
            cases spot with
            | elsewhere | nowhere => exact ⟨hits, .same journal⟩
            | start frame => exact .inl ⟨journal, enter_refusal (saved rfl) stack entered⟩
            | receive caller cases => exact .inl ⟨journal, fun _ => enter_refusal (saved rfl) stack entered⟩
      refine .after looked (entering.bind fun entered middle ⟨frame, below, position, finds⟩ => ?_)
      have same : middle = { state with actor := { state.actor with stack := below } } := finds.left
      have read : (get : Exec (Noted σ) (Running (Noted σ))) middle = .ok middle middle := rfl
      refine .after read ?_
      split
      · subst same
        exact .fail (Spot.Fails.refused rfl rfl)
      · let env : Env (Noted σ) := ⟨config.image, entered.1, config.handler, config.executeNotingWithin levels⟩
        have own : env.image.routine? env.routine.shape.function = some env.routine := by
          rw [(listens _ _ finds.known).1]
          exact finds.known
        have minded : env.Minded receives := ⟨sound, listens, raises, keeps, fun _ _ _ _ _ parks stack awaited saved bottom =>
          ih parks stack awaited saved bottom⟩
        have fresh : state.actor.stack.head?.any (·.label.isStart) = frame.label.isStart := by
          rw [finds.above]
          rfl
        rw [fresh]
        obtain ⟨other, attends, owes⟩ := finds.attends listens parks stack awaited saved bottom config.handler
          (config.executeNotingWithin levels) (middle.depth + 1)
        have noted : (modify (Running.noteStart frame.label.isStart function entered.2) : Exec (Noted σ) Unit) middle
            = .ok () (middle.noteStart frame.label.isStart function entered.2) := rfl
        rw [← Running.noteStart_depth frame.label.isStart function entered.2 middle] at attends owes
        refine .after noted (.counted (env.runNoting_heeds minded own config.steps attends) ?_ ?_)
        · rintro result after ⟨leaves, notes⟩
          exact ⟨leaves.at_depth _, (owes.notes after notes).at_depth _⟩
        · exact fun stop after fails => (owes.fails stop after fails).at_depth _

end RunConfig

end Reentry
