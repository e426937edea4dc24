import Reentry.Proofs.Suspension.Settled

/-!
How runs in direct style end, with as many steps as they need.
-/

namespace Reentry

namespace RunConfig

variable {σ : Type} (config : RunConfig σ) (note : Observer σ) (levels : Nat)

/-- With enough steps, a function in direct style ends like this. -/
def Ends (function : FunctionId) (talk : Talk σ) (result : EStateM.Result Stop (Talk σ) Continuation) : Prop :=
  ∃ steps, (config.allowing steps).directWithin note levels function talk = result

/-- A call in progress in direct style, where steps within it are counted apart. -/
def directly (routine : Routine) (steps count : Nat) (again : Bool) (act : Activation) : Talking σ Continuation :=
  ((config.allowing steps).watchedEnv note levels routine).direct note ((config.allowing steps).directWithin note levels)
    count again act

/-- With enough steps, a call in direct style ends like this. -/
def GoesOn (routine : Routine) (again : Bool) (act : Activation) (talk : Talk σ)
    (result : EStateM.Result Stop (Talk σ) Continuation) : Prop :=
  ∃ steps count, config.directly note levels routine steps count again act talk = result

end RunConfig

namespace RunConfig

variable {σ : Type} {config : RunConfig σ} {note : Observer σ} {levels : Nat} {routine : Routine} {again : Bool}
  {act after : Activation} {talk later : Talk σ} {result : EStateM.Result Stop (Talk σ) Continuation}

theorem directly_below {steps bound count limit : Nat} (le : steps ≤ bound) (le' : count ≤ limit) :
    Below (config.directly note levels routine steps count again act)
      (config.directly note levels routine bound limit again act) := by
  have below : ∀ function, Below (((config.allowing steps).watchedEnv note levels routine).invoke function)
      ((config.allowing bound).watchWithin note levels function) := watchWithin_below le levels
  exact Env.direct_below below (directWithin_below le levels) note le' again act

/-- The talk after the observer has been told of the next instruction. -/
def looked (config : RunConfig σ) (note : Observer σ) (levels : Nat) (routine : Routine) (again : Bool) (act : Activation)
    (talk : Talk σ) : Talk σ :=
  { talk with state := (config.watchedEnv note levels routine).noted note again act talk.state }

/-- The next instruction of the call in direct style. -/
def turned (config : RunConfig σ) (note : Observer σ) (levels : Nat) (routine : Routine) (steps : Nat) (again : Bool)
    (act : Activation) (talk : Talk σ) : EStateM.Result Stop (Talk σ) Flow :=
  ((config.allowing steps).watchedEnv note levels routine).turn ((config.allowing steps).directWithin note levels) act
    (config.looked note levels routine again act talk)

/-- One instruction of the call in the code. -/
theorem watch_succ (steps count : Nat) (state : Running σ) :
    ((config.allowing steps).watchedEnv note levels routine).watch note (count + 1) again act state =
      (match ((config.allowing steps).watchedEnv note levels routine).move act
          ((config.watchedEnv note levels routine).noted note again act state) with
        | .ok (.next after) final => ((config.allowing steps).watchedEnv note levels routine).watch note count
            (again && (config.watchedEnv note levels routine).isIdle act) after final
        | .ok (.leave result) final => .ok result final
        | .error stop final => .error stop final) := Env.watch_succ note count again

/-- Only labels and marks are passed in silence. -/
theorem not_again {instr : Instr} (here : routine.body[act.position]? = some instr) (active : instr.isPosition = false) :
    (again && (config.watchedEnv note levels routine).isIdle act) = false := by
  have idle : (config.watchedEnv note levels routine).isIdle act = false := by
    change (routine.body[act.position]?).any Instr.isPosition = false
    rw [here]
    exact active
  rw [idle, Bool.and_false]

theorem directly_succ (steps count : Nat) : config.directly note levels routine steps (count + 1) again act talk =
    (match config.turned note levels routine steps again act talk with
      | .ok (.next after) later => config.directly note levels routine steps count
          (again && (config.watchedEnv note levels routine).isIdle act) after later
      | .ok (.leave result) later => .ok result later
      | .error stop later => .error stop later) := Env.direct_succ note _ count again talk

theorem directly_done {steps count : Nat} (ends : config.directly note levels routine steps count again act talk = result)
    (done : Done result) : ∃ more, count = more + 1 := by
  cases count with
  | zero =>
      subst ends
      exact absurd rfl (done talk)
  | succ more => exact ⟨more, rfl⟩

section

variable {steps : Nat}

/-- One step of the call, when it is settled what the step is. -/
theorem goesOn_of_next
    (next : ∀ bound, steps ≤ bound → config.turned note levels routine bound again act talk = .ok (.next after) later)
    (done : Done result) : config.GoesOn note levels routine again act talk result ↔
      config.GoesOn note levels routine (again && (config.watchedEnv note levels routine).isIdle act) after later result := by
  constructor
  · rintro ⟨bound, count, ends⟩
    obtain ⟨more, rfl⟩ := directly_done ends done
    have ends := (directly_below (Nat.le_max_left bound steps) (Nat.le_refl _)).finished ends done
    rw [directly_succ, next _ (Nat.le_max_right bound steps)] at ends
    exact ⟨_, _, ends⟩
  · rintro ⟨bound, count, ends⟩
    refine ⟨max bound steps, count + 1, ?_⟩
    rw [directly_succ, next _ (Nat.le_max_right bound steps)]
    exact (directly_below (Nat.le_max_left bound steps) (Nat.le_refl _)).finished ends done

theorem goesOn_of_leave {value : Continuation}
    (leaves : ∀ bound, steps ≤ bound → config.turned note levels routine bound again act talk = .ok (.leave value) later) :
    config.GoesOn note levels routine again act talk (.ok value later) :=
  ⟨steps, 1, by rw [directly_succ, leaves steps (Nat.le_refl _)]⟩

theorem goesOn_of_error {stop : Stop}
    (fails : ∀ bound, steps ≤ bound → config.turned note levels routine bound again act talk = .error stop later) :
    config.GoesOn note levels routine again act talk (.error stop later) :=
  ⟨steps, 1, by rw [directly_succ, fails steps (Nat.le_refl _)]⟩

/-- A call that does not look at what its last invocation handed back goes on in the same way without it. -/
theorem goesOn_recalling (sound : config.image.Sound) (found : config.image.routine? routine.shape.function = some routine)
    {rank : Nat} {recorded : List Nat} {ahead : List Outline} (follows : Follows routine rank act.position ahead)
    (soundAhead : Outline.Sound config.image.Knows recorded none ahead) (free : act.pending = none)
    (last : Option Continuation) : config.GoesOn note levels routine again (act.recalling last) talk result ↔
      config.GoesOn note levels routine again act talk result := by
  have laid := (sound _ _ found).laid
  have same (steps count : Nat) : config.directly note levels routine steps count again (act.recalling last)
      = config.directly note levels routine steps count again act := by
    have heedless : ((config.allowing steps).watchedEnv note levels routine).Heedless act :=
      .going follows soundAhead free
    exact Env.direct_recalling laid note count again heedless
  simp only [GoesOn, same]

/-- Passing a label or a mark. -/
theorem goesOn_pass {instr : Instr} (here : routine.body[act.position]? = some instr) (idle : instr.isPosition)
    (done : Done result) : config.GoesOn note levels routine again act talk result ↔
      config.GoesOn note levels routine again { act with position := act.position + 1 }
        (config.looked note levels routine again act talk) result := by
  have passes (bound : Nat) (_ : 0 ≤ bound) : config.turned note levels routine bound again act talk
      = .ok (.next { act with position := act.position + 1 }) (config.looked note levels routine again act talk) := by
    have plain : ((config.allowing bound).watchedEnv note levels routine).crossing act = .plain :=
      Env.crossing_plain here (by cases instr <;> first | rfl | cases idle)
    rw [turned, Env.turn_plain plain]
    exact Talking.lift_of_ok (Env.move_pass here idle)
  have still : (config.watchedEnv note levels routine).isIdle act = true := by
    change (routine.body[act.position]?).any Instr.isPosition = true
    rw [here]
    exact idle
  rw [goesOn_of_next passes done, still, Bool.and_true]

theorem turned_call {callee : FunctionId} (here : routine.body[act.position]? = some (.invoke callee)) :
    config.turned note levels routine steps again act talk =
      (match (config.allowing steps).directWithin note levels callee (config.looked note levels routine again act talk) with
        | .ok value later => .ok (.next { act with position := act.position + 1, lastCall := some value }) later
        | .error stop later => .error stop later) := by
  have calls : ((config.allowing steps).watchedEnv note levels routine).crossing act = .call callee :=
    Env.crossing_invoke here
  rw [turned, Env.turn_call calls, Exec.bind_apply]
  cases (config.allowing steps).directWithin note levels callee (config.looked note levels routine again act talk) <;> rfl

/-- A callee runs in place. -/
theorem goesOn_call {callee : FunctionId} (here : routine.body[act.position]? = some (.invoke callee)) (done : Done result) :
    config.GoesOn note levels routine again act talk result ↔
      ∃ called, config.Ends note levels callee (config.looked note levels routine again act talk) called ∧ Done called ∧
        match called with
        | .ok value later => config.GoesOn note levels routine false
            { act with position := act.position + 1, lastCall := some value } later result
        | .error stop later => result = .error stop later := by
  have notIdle : (again && (config.watchedEnv note levels routine).isIdle act) = false := not_again here rfl
  have step (steps count : Nat) : config.directly note levels routine steps (count + 1) again act talk =
      (match (config.allowing steps).directWithin note levels callee (config.looked note levels routine again act talk) with
        | .ok value later => config.directly note levels routine steps count false
            { act with position := act.position + 1, lastCall := some value } later
        | .error stop later => .error stop later) := by
    rw [directly_succ, turned_call here, notIdle]
    cases (config.allowing steps).directWithin note levels callee (config.looked note levels routine again act talk) <;> rfl
  constructor
  · rintro ⟨steps, count, ends⟩
    obtain ⟨more, rfl⟩ := directly_done ends done
    rw [step] at ends
    refine ⟨_, ⟨steps, rfl⟩, ?_, ?_⟩
    · intro after stuck
      rw [stuck] at ends
      exact done after ends.symm
    · cases called : (config.allowing steps).directWithin note levels callee
        (config.looked note levels routine again act talk) with
      | ok value later =>
          rw [called] at ends
          exact ⟨steps, more, ends⟩
      | error stop later =>
          rw [called] at ends
          exact ends.symm
  · rintro ⟨called, ⟨steps, ran⟩, finished, next⟩
    cases called with
    | ok value later =>
        obtain ⟨bound, count, ends⟩ := next
        refine ⟨max steps bound, count + 1, ?_⟩
        rw [step, (directWithin_below (Nat.le_max_left steps bound) levels callee).finished ran finished]
        exact (directly_below (Nat.le_max_right steps bound) (Nat.le_refl _)).finished ends done
    | error stop later =>
        refine ⟨steps, 1, ?_⟩
        rw [step, ran]
        exact next.symm

end

/-- A run in direct style ends in one way only. -/
theorem ends_unique {function : FunctionId} {other : EStateM.Result Stop (Talk σ) Continuation}
    (ends : config.Ends note levels function talk result) (done : Done result)
    (ends' : config.Ends note levels function talk other) (done' : Done other) : result = other := by
  obtain ⟨steps, ran⟩ := ends
  obtain ⟨bound, ran'⟩ := ends'
  have more := (directWithin_below (Nat.le_max_left steps bound) levels function).finished ran done
  have more' := (directWithin_below (Nat.le_max_right steps bound) levels function).finished ran' done'
  exact more.symm.trans more'

end RunConfig

end Reentry

/-!
Coming back from saved frames. What a call in the code does up to the point where it leaves, a call in
direct style does as well. If the call has left because it waits, the call in direct style goes on from
there as a new one does that starts from the saved frames after the answer.
-/

namespace Reentry

/-- A way to run in direct style keeps up with a run in the code from the same state. How it ends after a
first answer is how it resumes from the frames that the code has saved. -/
structure Mirrors {σ : Type} (ends resumes : Talk σ → EStateM.Result Stop (Talk σ) Continuation → Prop)
    (state : Running σ) (result : EStateM.Result Stop (Running σ) Continuation) : Prop where
  ended : ∀ value after, result = .ok value after → value.waits = false →
    ∀ answers asked, ends ⟨state, answers, asked⟩ (.ok value ⟨after, answers, asked⟩)
  failed : ∀ stop after, result = .error stop after →
    ∀ answers asked, ends ⟨state, answers, asked⟩ (.error stop ⟨after, answers, asked⟩)
  waiting : ∀ reason after, result = .ok (.suspended reason) after → reason.isTerminal = false →
    ∀ reply answers asked ending, Done ending → (ends ⟨state, reply :: answers, asked⟩ ending ↔
      resumes ⟨after.answered reply, answers, asked ++ [reason]⟩ ending)

namespace Mirrors

variable {σ : Type} {ends ends' resumes : Talk σ → EStateM.Result Stop (Talk σ) Continuation → Prop}
  {state before after : Running σ} {result : EStateM.Result Stop (Running σ) Continuation}

theorem of_error {stop : Stop}
    (fails : ∀ answers asked, ends ⟨state, answers, asked⟩ (.error stop ⟨after, answers, asked⟩)) :
    Mirrors ends resumes state (.error stop after) := by
  refine ⟨fun _ _ same => (by cases same), fun _ _ same => ?_, fun _ _ same => (by cases same)⟩
  cases same
  exact fails

theorem of_ended {value : Continuation} (ended : value.waits = false)
    (returns : ∀ answers asked, ends ⟨state, answers, asked⟩ (.ok value ⟨after, answers, asked⟩)) :
    Mirrors ends resumes state (.ok value after) := by
  refine ⟨fun _ _ same _ => ?_, fun _ _ same => (by cases same), fun reason _ same waits => ?_⟩
  · cases same
    exact returns
  · cases same
    simp [Continuation.waits, waits] at ended

theorem of_waiting {reason : YieldReason} (resume : ∀ reply answers asked ending, Done ending →
      (ends ⟨state, reply :: answers, asked⟩ ending ↔ resumes ⟨after.answered reply, answers, asked ++ [reason]⟩ ending))
    (waits : reason.isTerminal = false) : Mirrors ends resumes state (.ok (.suspended reason) after) := by
  refine ⟨fun _ _ same ended => ?_, fun _ _ same => (by cases same), fun _ _ same _ => ?_⟩
  · cases same
    simp [Continuation.waits, waits] at ended
  · cases same
    exact resume

/-- A step that both runs take. -/
theorem step (mirrors : Mirrors ends' resumes before result) (done : Done result)
    (same : ∀ answers asked ending, Done ending →
      (ends ⟨state, answers, asked⟩ ending ↔ ends' ⟨before, answers, asked⟩ ending)) :
    Mirrors ends resumes state result := by
  refine ⟨fun value after returned ended answers asked => ?_, fun stop after failed answers asked => ?_,
    fun reason after suspended waits reply answers asked ending finished => ?_⟩
  · exact (same answers asked _ done_ok).mpr (mirrors.ended value after returned ended answers asked)
  · have other : stop ≠ .outOfSteps := done_error.mp (failed ▸ done)
    exact (same answers asked _ (done_error.mpr other)).mpr (mirrors.failed stop after failed answers asked)
  · exact (same _ _ ending finished).trans (mirrors.waiting reason after suspended waits reply answers asked ending finished)

end Mirrors

namespace RunConfig

variable {σ : Type} {config : RunConfig σ} {note : Observer σ} {levels : Nat} {routine : Routine}

/-- How a call ends that is entered on its saved frames. -/
def Resumes (config : RunConfig σ) (note : Observer σ) (levels : Nat) (function : FunctionId) (talk : Talk σ)
    (result : EStateM.Result Stop (Talk σ) Continuation) : Prop :=
  match config.enter function talk.state with
  | .ok (routine, act) below =>
      config.GoesOn note levels routine talk.state.comesBack act { talk with state := below } result
  | .error stop below => result = .error stop { talk with state := below }

theorem resumes_iff {function : FunctionId} {talk : Talk σ} {result : EStateM.Result Stop (Talk σ) Continuation}
    {act : Activation} {below : Running σ} (entered : config.enter function talk.state = .ok (routine, act) below) :
    config.Resumes note levels function talk result ↔
      config.GoesOn note levels routine talk.state.comesBack act { talk with state := below } result := by
  unfold Resumes
  rw [entered]

/-- Functions at this level of calls in direct style keep up with those in the code. -/
def Mirrored (config : RunConfig σ) (note : Observer σ) (levels : Nat) : Prop :=
  ∀ steps function chain base state result, config.image.Saved function chain → state.actor.stack = chain ++ base →
    (config.allowing steps).watchWithin note levels function state = result → Done result →
    Mirrors (config.Ends note levels function) (config.Ends note levels function) state result

/-- A call in the code that is still in its first `count` steps is kept up with. -/
def KeepsUp (config : RunConfig σ) (note : Observer σ) (levels : Nat) (routine : Routine) (steps : Nat) (base : List Frame)
    (count : Nat) : Prop :=
  ∀ again act state result, ((config.allowing steps).watchedEnv note levels routine).Active base act state.actor.stack →
    act.Settled → routine.owner.filter (· ≠ state.actor.machine) = none →
    ((config.allowing steps).watchedEnv note levels routine).watch note count again act state = result → Done result →
    Mirrors (config.GoesOn note levels routine again act) (config.Resumes note levels routine.shape.function) state result

section

variable {steps : Nat} {again : Bool} {act : Activation} {state : Running σ} {base : List Frame}
  {result : EStateM.Result Stop (Running σ) Continuation}

/-- Surroundings with enough steps are trusted. -/
theorem watchedEnv_trusted (sound : config.image.Sound) :
    ((config.allowing steps).watchedEnv note levels routine).Trusted := by
  have sound : (config.allowing steps).image.Sound := sound
  exact ⟨sound, fun _ _ _ _ saved above => watchWithin_meets sound note levels saved above⟩

theorem handed_of_watchWithin {function : FunctionId} {chain : List Frame} {value : Continuation} {final : Running σ}
    (sound : config.image.Sound) (saved : config.image.Saved function chain) (above : state.actor.stack = chain ++ base)
    (watched : (config.allowing steps).watchWithin note levels function state = .ok value final) :
    config.image.Handed function base value final.actor.stack ∧ final.actor.machine = state.actor.machine := by
  have sound : (config.allowing steps).image.Sound := sound
  obtain ⟨handed, machine, _⟩ := (watchWithin_meets sound note levels saved above).ok watched
  exact ⟨handed, machine⟩

theorem move_ok_more {bound : Nat} (enough : steps ≤ bound) {moved : EStateM.Result Stop (Running σ) Flow}
    (ran : ((config.allowing steps).watchedEnv note levels routine).move act state = moved) (done : Done moved) :
    ((config.allowing bound).watchedEnv note levels routine).move act state = moved := by
  have below : ∀ function, Below (((config.allowing steps).watchedEnv note levels routine).invoke function)
      ((config.allowing bound).watchWithin note levels function) := watchWithin_below enough levels
  exact (Env.move_below below act).finished ran done

/-- What follows an instruction that has nothing to do with suspension. -/
theorem plain_mirrors (sound : config.image.Sound)
    (found : config.image.routine? routine.shape.function = some routine) {count : Nat}
    (ih : config.KeepsUp note levels routine steps base count)
    (active : ((config.allowing steps).watchedEnv note levels routine).Active base act state.actor.stack)
    (settled : act.Settled) (owned : routine.owner.filter (· ≠ state.actor.machine) = none)
    (plain : (config.watchedEnv note levels routine).crossing act = .plain)
    (watched : ((config.allowing steps).watchedEnv note levels routine).watch note (count + 1) again act state = result)
    (done : Done result) :
    Mirrors (config.GoesOn note levels routine again act) (config.Resumes note levels routine.shape.function) state result := by
  have steady : state.Steady ((config.watchedEnv note levels routine).noted note again act state) :=
    Env.noted_steady note again act state
  have trusted : ((config.allowing steps).watchedEnv note levels routine).Trusted := watchedEnv_trusted sound
  rw [← steady.stack] at active
  rw [watch_succ] at watched
  have meets := Env.move_leads trusted found active
  generalize noted : (config.watchedEnv note levels routine).noted note again act state = before at *
  have turned {bound : Nat} (enough : steps ≤ bound) (answers : List (Reply σ)) (asked : List YieldReason)
      {moved : EStateM.Result Stop (Running σ) Flow}
      (ran : ((config.allowing steps).watchedEnv note levels routine).move act before = moved) (done : Done moved) :
      config.turned note levels routine bound again act ⟨state, answers, asked⟩ = Talking.told answers asked moved := by
    have ran := move_ok_more enough ran done
    have plain : ((config.allowing bound).watchedEnv note levels routine).crossing act = .plain := plain
    rw [RunConfig.turned, Env.turn_plain plain, looked, noted, Talking.lift_apply, ran]
  cases moved : ((config.allowing steps).watchedEnv note levels routine).move act before with
  | error stop final =>
      rw [moved] at watched
      subst watched
      have other := done_error.mp done
      exact .of_error fun answers asked =>
        goesOn_of_error fun bound enough => turned enough answers asked moved (done_error.mpr other)
  | ok flow final =>
      rw [moved] at watched
      have plain : ((config.allowing steps).watchedEnv note levels routine).crossing act = .plain := plain
      have still := Env.move_settled plain settled moved
      cases flow with
      | leave value =>
          subst watched
          exact .of_ended still fun answers asked =>
            goesOn_of_leave fun bound enough => turned enough answers asked moved done_ok
      | next after =>
          obtain ⟨came, machine, _⟩ := meets.ok moved
          have owned : routine.owner.filter (· ≠ final.actor.machine) = none := by
            rw [machine, steady.machine]
            exact owned
          exact (ih _ _ _ _ came still owned watched done).step done fun answers asked ending finished' =>
            goesOn_of_next (fun bound enough => turned enough answers asked moved done_ok) finished'

/-- An answer leaves a saved frame on top of the stack, where it is entered again. -/
theorem enter_answered {frame : Frame} {position : Nat} {final : Running σ} (reply : Reply σ)
    (found : config.image.routine? routine.shape.function = some routine)
    (owned : routine.owner.filter (· ≠ final.actor.machine) = none) (own : frame.function = routine.shape.function)
    (slots : frame.locals.length = routine.shape.slotCount) (entry : routine.entrance? frame.label = some position)
    (callee : calleeBelow frame final.actor.stack) :
    config.enter routine.shape.function ((final.push frame).answered reply)
      = .ok (routine, ⟨frame.locals, frame.choices, position, none, none⟩) (final.answered reply) := by
  have above : ((final.push frame).answered reply).actor.stack = frame :: final.actor.stack := rfl
  have machine : ((final.push frame).answered reply).actor.machine = final.actor.machine := rfl
  rw [enter_apply found above own slots entry callee, machine, owned]
  rfl

/-- What follows the invocation of a callee. If the callee waits, the call is entered again in front of the
invocation, and comes back to the callee in silence. -/
theorem call_mirrors (sound : config.image.Sound)
    (found : config.image.routine? routine.shape.function = some routine) (mirrored : config.Mirrored note levels)
    {count : Nat} (ih : config.KeepsUp note levels routine steps base count)
    (active : ((config.allowing steps).watchedEnv note levels routine).Active base act state.actor.stack)
    (settled : act.Settled) (owned : routine.owner.filter (· ≠ state.actor.machine) = none) {callee : FunctionId}
    (here : routine.body[act.position]? = some (.invoke callee))
    (watched : ((config.allowing steps).watchedEnv note levels routine).watch note (count + 1) again act state = result)
    (done : Done result) :
    Mirrors (config.GoesOn note levels routine again act) (config.Resumes note levels routine.shape.function) state result := by
  have steady : state.Steady ((config.watchedEnv note levels routine).noted note again act state) :=
    Env.noted_steady note again act state
  have trusted : ((config.allowing steps).watchedEnv note levels routine).Trusted := watchedEnv_trusted sound
  have laid := (sound _ _ found).laid
  rw [← steady.stack] at active
  obtain ⟨landing, place, chain, expects, close, filled, saved, above⟩ := active.at_invoke laid here
  have notIdle : (again && (config.watchedEnv note levels routine).isIdle act) = false := not_again here rfl
  have meets := Env.move_leads trusted found active
  have told (answers : List (Reply σ)) (asked : List YieldReason) :
      config.looked note levels routine again act ⟨state, answers, asked⟩
        = ⟨(config.watchedEnv note levels routine).noted note again act state, answers, asked⟩ := rfl
  rw [watch_succ] at watched
  rw [notIdle] at watched
  generalize (config.watchedEnv note levels routine).noted note again act state = before at *
  have moved := @Env.move_invoke _ ((config.allowing steps).watchedEnv note levels routine) act before _ here
  have invokes : ((config.allowing steps).watchedEnv note levels routine).invoke callee
      = (config.allowing steps).watchWithin note levels callee := rfl
  rw [invokes] at moved
  cases called : (config.allowing steps).watchWithin note levels callee before with
  | error stop final =>
      rw [moved, called] at watched
      subst watched
      have other := done_error.mp done
      have callee := mirrored steps callee chain base before _ saved above called done
      refine .of_error fun answers asked => ?_
      rw [goesOn_call here (done_error.mpr other), told]
      exact ⟨_, callee.failed stop final rfl answers asked, done_error.mpr other, rfl⟩
  | ok value final =>
      have mirrors := mirrored steps callee chain base before _ saved above called done_ok
      rw [called] at moved
      rw [moved] at watched
      obtain ⟨came, machine, _⟩ := meets.ok moved
      have owned : routine.owner.filter (· ≠ final.actor.machine) = none := by
        rw [machine, steady.machine]
        exact owned
      cases ended : value.waits with
      | false =>
          have settled' : Activation.Settled { act with position := act.position + 1, lastCall := some value } :=
            ⟨settled.pending, fun _ same => by cases same; exact ended⟩
          refine (ih _ _ _ _ came settled' owned watched done).step done fun answers asked ending finished => ?_
          have returned := mirrors.ended value final rfl ended answers asked
          rw [goesOn_call here finished, told]
          constructor
          · rintro ⟨other, ends, finished', next⟩
            cases ends_unique ends finished' returned done_ok
            exact next
          · exact fun next => ⟨_, returned, done_ok, next⟩
      | true =>
          obtain ⟨reason, rfl⟩ : ∃ reason, value = .suspended reason := by
            cases value with
            | completed _ _ => cases ended
            | suspended reason => exact ⟨reason, rfl⟩
          have waits : reason.isTerminal = false := by simpa [Continuation.waits] using ended
          obtain ⟨chain', saved', above'⟩ := (handed_of_watchWithin sound saved above called).1.saved waits
          -- the check behind the invocation saves the frame and leaves
          let frame : Frame := ⟨routine.shape.function, act.locals, landing, some callee, act.choices⟩
          have behind : routine.body[act.position + 1]? = some (.propagateSuspension callee landing) := by
            rw [close]
            exact expects.propagate
          obtain ⟨more, rfl⟩ := Env.watch_done watched done
          have left : ((config.allowing steps).watchedEnv note levels routine).watch note (more + 1) false
              { act with position := act.position + 1, lastCall := some (.suspended reason) } final
                = .ok (.suspended reason) (final.push frame) := Env.watch_propagate behind rfl note more false
          obtain rfl : .ok (.suspended reason) (final.push frame) = result := left.symm.trans watched
          refine .of_waiting (fun reply answers asked ending finished => ?_) waits
          have inner (called : EStateM.Result Stop (Talk σ) Continuation) (finished' : Done called) :=
            mirrors.waiting reason final rfl waits reply answers asked called finished'
          have lower : calleeBelow frame final.actor.stack := by
            obtain ⟨top, rest, rfl, own⟩ := saved'.head
            rw [above']
            simp [calleeBelow, frame, own]
          have entered : config.enter routine.shape.function ((final.push frame).answered reply)
              = .ok (routine, ⟨act.locals, act.choices, place, none, none⟩) (final.answered reply) :=
            enter_answered reply found owned rfl filled.slots (Routine.entrance?_of_landing? expects.leads) lower
          have label : routine.body[(⟨act.locals, act.choices, place, none, none⟩ : Activation).position]?
              = some (.label landing) := expects.label
          have invoke : routine.body[(⟨act.locals, act.choices, place + 1, none, none⟩ : Activation).position]?
              = some (.invoke callee) := close ▸ here
          rw [resumes_iff entered]
          change _ ↔ config.GoesOn note levels routine true ⟨act.locals, act.choices, place, none, none⟩
            ⟨final.answered reply, answers, asked ++ [reason]⟩ ending
          have idle : (Instr.label landing).isPosition := rfl
          rw [goesOn_pass label idle finished, goesOn_call here finished, told, goesOn_call invoke finished]
          have same (value : Continuation) :
              ({ act with position := act.position + 1, lastCall := some value } : Activation)
                = ⟨act.locals, act.choices, place + 1 + 1, some value, none⟩ := by
            rw [close, filled.free]
          constructor
          · rintro ⟨called, ends, finished', next⟩
            refine ⟨called, (inner called finished').mp ends, finished', ?_⟩
            cases called with
            | ok value later =>
                simp only [same] at next
                exact next
            | error stop later => exact next
          · rintro ⟨called, ends, finished', next⟩
            refine ⟨called, (inner called finished').mpr ends, finished', ?_⟩
            cases called with
            | ok value later =>
                simp only [same]
                exact next
            | error stop later => exact next

theorem reason_more {bound : Nat} (enough : steps ≤ bound) {question : Question}
    {reasoned : EStateM.Result Stop (Running σ) YieldReason}
    (ran : ((config.allowing steps).watchedEnv note levels routine).reason act question state = reasoned)
    (done : Done reasoned) : ((config.allowing bound).watchedEnv note levels routine).reason act question state = reasoned := by
  have below : ∀ function, Below (((config.allowing steps).watchedEnv note levels routine).invoke function)
      ((config.allowing bound).watchWithin note levels function) := watchWithin_below enough levels
  exact (Env.reason_below below question).finished ran done

/-- What follows a question. The call in direct style goes on behind the question, where it is entered again
in the code, and does not miss what the frame does not keep. -/
theorem ask_mirrors (sound : config.image.Sound)
    (found : config.image.routine? routine.shape.function = some routine) {count : Nat}
    (active : ((config.allowing steps).watchedEnv note levels routine).Active base act state.actor.stack)
    (owned : routine.owner.filter (· ≠ state.actor.machine) = none) {question : Question}
    (asks : (config.watchedEnv note levels routine).crossing act = .ask question)
    (watched : ((config.allowing steps).watchedEnv note levels routine).watch note (count + 1) again act state = result)
    (done : Done result) :
    Mirrors (config.GoesOn note levels routine again act) (config.Resumes note levels routine.shape.function) state result := by
  have steady : state.Steady ((config.watchedEnv note levels routine).noted note again act state) :=
    Env.noted_steady note again act state
  have laid := (sound _ _ found).laid
  have trusted : ((config.allowing steps).watchedEnv note levels routine).Trusted := watchedEnv_trusted sound
  obtain ⟨request, here, asked'⟩ := Env.crossing_eq_ask asks
  obtain ⟨resume, rank, recorded, ahead, rfl, behind, leads, follows, soundAhead, filled, reads⟩ :=
    active.at_question laid here asked'
  have told (answers : List (Reply σ)) (asked : List YieldReason) :
      config.looked note levels routine again act ⟨state, answers, asked⟩
        = ⟨(config.watchedEnv note levels routine).noted note again act state, answers, asked⟩ := rfl
  rw [watch_succ] at watched
  have here : routine.body[act.position]? = some (.yield (question.request resume)) := here
  have notIdle : (again && (config.watchedEnv note levels routine).isIdle act) = false := not_again here rfl
  rw [notIdle] at watched
  generalize (config.watchedEnv note levels routine).noted note again act state = before at *
  have moved := @Env.move_question _ ((config.allowing steps).watchedEnv note levels routine) act before _ _ here
  rw [moved] at watched
  cases reasoned : ((config.allowing steps).watchedEnv note levels routine).reason
    { act with position := act.position + 1 } question before with
  | error stop final =>
      rw [reasoned] at watched moved
      subst watched
      have other := done_error.mp done
      refine .of_error fun answers asked => goesOn_of_error fun bound (enough : steps ≤ bound) => ?_
      have asks : ((config.allowing bound).watchedEnv note levels routine).crossing act = .ask question := asks
      rw [turned, told]
      cases answers with
      | nil =>
          rw [Env.turn_unanswered (by rw [asks]; simp) rfl, Talking.lift_apply, move_ok_more enough moved (done_error.mpr other)]
          rfl
      | cons reply rest =>
          rw [Env.turn_ask asks (by simp)]
          exact Exec.bind_of_error (Talking.lift_of_error (reason_more enough reasoned (done_error.mpr other)))
  | ok reason final =>
      rw [reasoned] at watched
      have waits := Env.reason_waits reasoned
      have records : ∀ number ∈ recorded, number < ({ act with position := act.position + 1 } : Activation).choices.length :=
        filled.records
      have machine : final.actor.machine = before.actor.machine :=
        ((Env.reason_calm trusted records reads before).ok reasoned).2.machine
      obtain ⟨more, rfl⟩ := Env.watch_done watched done
      -- in the code the exit behind the question leaves
      let frame : Frame := ⟨routine.shape.function, act.locals, resume, none, act.choices⟩
      let exited : Running σ := { final with outside := note routine.shape.function (act.position + 1) final.outside }
      have left : ((config.allowing steps).watchedEnv note levels routine).watch note (more + 1) false
          ⟨[], [], act.position + 1, act.lastCall, some (.suspended reason)⟩ (final.push frame)
            = .ok (.suspended reason) (exited.push frame) := by
        rw [Env.watch_exit behind rfl, Env.noted_exit behind]
        rfl
      obtain rfl : .ok (.suspended reason) (exited.push frame) = result := left.symm.trans watched
      refine .of_waiting (fun reply answers asked ending finished => ?_) waits
      have asking (bound : Nat) (enough : steps ≤ bound) :
          config.turned note levels routine bound again act ⟨state, reply :: answers, asked⟩
            = .ok (.next { act with position := act.position + 1, pending := some (.suspended reason) })
              ⟨final, reply :: answers, asked⟩ := by
        have asks : ((config.allowing bound).watchedEnv note levels routine).crossing act = .ask question := asks
        have reasoned : ((config.allowing bound).watchedEnv note levels routine).reason
          { act with position := act.position + 1 } question before = .ok reason final :=
          reason_more enough reasoned done_ok
        rw [turned, told, Env.turn_ask asks (by simp)]
        exact Exec.bind_of_ok (Talking.lift_of_ok reasoned)
      let waiting : Activation := { act with position := act.position + 1, pending := some (.suspended reason) }
      have exit : routine.body[waiting.position]? = some .exit := behind
      have answering (bound : Nat) (_ : 0 ≤ bound) :
          config.turned note levels routine bound false waiting ⟨final, reply :: answers, asked⟩
            = .ok (.next { act with position := act.position + 1 + 1, pending := none })
              ⟨exited.answered reply, answers, asked ++ [reason]⟩ := by
        have crossing : ((config.allowing bound).watchedEnv note levels routine).crossing waiting = .wait reason := by
          rw [Env.crossing_exit exit]
          simp only [waiting, waits]
          rfl
        have looked' : config.looked note levels routine false waiting ⟨final, reply :: answers, asked⟩
            = ⟨exited, reply :: answers, asked⟩ := by
          rw [looked, Env.noted_exit exit]
          rfl
        rw [turned, looked', Env.turn_wait crossing rfl]
      rw [goesOn_of_next asking finished, notIdle, goesOn_of_next answering finished]
      have entered : config.enter routine.shape.function ((exited.push frame).answered reply)
          = .ok (routine, ⟨act.locals, act.choices, act.position + 2, none, none⟩) (exited.answered reply) := by
        have same : routine.owner.filter (· ≠ exited.actor.machine) = none := by
          rw [machine, steady.machine]
          exact owned
        exact enter_answered reply found same rfl filled.slots (Routine.entrance?_of_landing? leads) rfl
      rw [resumes_iff entered]
      have still : (false && (config.watchedEnv note levels routine).isIdle waiting) = false := rfl
      have follows : Follows routine rank
        (⟨act.locals, act.choices, act.position + 2, none, none⟩ : Activation).position ahead := follows
      have forgets : config.GoesOn note levels routine false ⟨act.locals, act.choices, act.position + 2, act.lastCall, none⟩
            ⟨exited.answered reply, answers, asked ++ [reason]⟩ ending ↔
          config.GoesOn note levels routine false ⟨act.locals, act.choices, act.position + 2, none, none⟩
            ⟨exited.answered reply, answers, asked ++ [reason]⟩ ending :=
        goesOn_recalling sound found follows soundAhead rfl act.lastCall
      rw [still]
      exact forgets

end

end RunConfig

end Reentry
