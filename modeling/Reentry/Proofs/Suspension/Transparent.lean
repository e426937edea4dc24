import Reentry.Proofs.Structure.Outline
import Reentry.Proofs.Suspension.Nested

/-!
When a run is finished. Without answers a run in direct style is a run in the code. With answers, it does
not come to an end before the code first leaves.
-/

namespace Reentry

section

variable {σ : Type} {env : Env σ} {invoke : FunctionId → Talking σ Continuation}

theorem Env.direct_unanswered (same : ∀ function state asked,
      invoke function ⟨state, [], asked⟩ = Talking.told [] asked (env.invoke function state))
    (note : Observer σ) (steps : Nat) (again : Bool) (act : Activation) (state : Running σ) (asked : List YieldReason) :
    env.direct note invoke steps again act ⟨state, [], asked⟩ = Talking.told [] asked (env.watch note steps again act state) := by
  induction steps generalizing again act state with
  | zero => rfl
  | succ steps ih =>
      have turned : env.turn invoke act ⟨env.noted note again act state, [], asked⟩
          = Talking.told [] asked (env.move act (env.noted note again act state)) := by
        by_cases calls : ∃ callee, env.crossing act = .call callee
        · obtain ⟨callee, calls⟩ := calls
          rw [turn_call calls, Exec.bind_apply, same, move_invoke (crossing_eq_call calls)]
          cases env.invoke callee (env.noted note again act state) <;> rfl
        · rw [turn_unanswered (fun callee found => calls ⟨callee, found⟩) rfl, Talking.lift_apply]
      rw [direct_succ, watch_succ, turned]
      cases env.move act (env.noted note again act state) with
      | error stop after => rfl
      | ok flow after =>
          cases flow with
          | next next => exact ih _ next after
          | leave result => rfl

end

namespace RunConfig

variable {σ : Type} {config : RunConfig σ} {note : Observer σ} {levels steps : Nat} {routine : Routine} {base : List Frame}

theorem directWithin_unanswered (config : RunConfig σ) (note : Observer σ) (levels : Nat) (function : FunctionId)
    (state : Running σ) (asked : List YieldReason) :
    config.directWithin note levels function ⟨state, [], asked⟩
      = Talking.told [] asked (config.watchWithin note levels function state) := by
  induction levels generalizing function state asked with
  | zero => rfl
  | succ levels ih =>
      rw [directWithin_succ, watchWithin_succ]
      simp only []
      cases config.enter function state with
      | error stop below => rfl
      | ok entry below =>
          obtain ⟨routine, act⟩ := entry
          simp only []
          by_cases tooDeep : config.depthLimit ≤ below.depth
          · simp only [tooDeep, if_true]
            rfl
          · simp only [tooDeep, if_false]
            have ran : (config.watchedEnv note levels routine).direct note (config.directWithin note levels) config.steps
                state.comesBack act ⟨below.deeper, [], asked⟩ = _ := Env.direct_unanswered ih note config.steps _ act _ asked
            rw [ran]
            cases (config.watchedEnv note levels routine).watch note config.steps state.comesBack act below.deeper <;> rfl

/-- Functions at this level of calls come to the point where they first leave, if they finish in direct style.
One more step is needed when a callee waits, which a call in direct style does not notice. -/
def Leaves (config : RunConfig σ) (note : Observer σ) (levels steps : Nat) : Prop :=
  ∀ function chain base state answers asked, config.image.Saved function chain → state.actor.stack = chain ++ base →
    Done ((config.allowing steps).directWithin note levels function ⟨state, answers, asked⟩) →
    Done ((config.allowing (steps + 1)).watchWithin note levels function state)

section

variable {count : Nat} {again : Bool} {act : Activation} {state : Running σ} {answers : List (Reply σ)}
  {asked : List YieldReason}

/-- A call that comes to a question leaves. -/
theorem ask_leaves (sound : config.image.Sound) (found : config.image.routine? routine.shape.function = some routine)
    (active : ((config.allowing (steps + 1)).watchedEnv note levels routine).Active base act state.actor.stack)
    {question : Question} (asks : (config.watchedEnv note levels routine).crossing act = .ask question)
    (done : Done (config.turned note levels routine steps again act ⟨state, answers, asked⟩)) :
    Done (((config.allowing (steps + 1)).watchedEnv note levels routine).watch note (count + 2) again act state) := by
  obtain ⟨request, here, asked'⟩ := Env.crossing_eq_ask asks
  obtain ⟨resume, _, _, _, rfl, behind, _⟩ := active.at_question (sound _ _ found).laid here asked'
  have here (bound : Nat) : ((config.allowing bound).watchedEnv note levels routine).routine.body[act.position]?
      = some (.yield (question.request resume)) := here
  have asks : ((config.allowing steps).watchedEnv note levels routine).crossing act = .ask question := asks
  rw [watch_succ, Env.move_question (here _)]
  rw [turned, looked] at done
  simp only [] at done
  generalize (config.watchedEnv note levels routine).noted note again act state = before at *
  cases reasoned : ((config.allowing steps).watchedEnv note levels routine).reason
    { act with position := act.position + 1 } question before with
  | ok reason final =>
      have reasoned := reason_more (Nat.le_succ steps) reasoned done_ok
      rw [reasoned]
      simp only []
      rw [Env.watch_exit behind rfl]
      exact done_ok
  | error stop final =>
      have other : stop ≠ .outOfSteps := by
        cases answers with
        | nil =>
            rw [Env.turn_unanswered (by rw [asks]; simp) rfl, Talking.lift_apply, Env.move_question (here _), reasoned] at done
            exact done_error.mp done
        | cons reply rest =>
            rw [Env.turn_ask asks (by simp), Exec.bind_of_error (Talking.lift_of_error reasoned)] at done
            exact done_error.mp done
      rw [reason_more (Nat.le_succ steps) reasoned (done_error.mpr other)]
      exact done_error.mpr other

/-- A call that invokes a callee leaves behind it, or goes on as in direct style. -/
theorem call_leaves (sound : config.image.Sound) (found : config.image.routine? routine.shape.function = some routine)
    (leaves : config.Leaves note levels steps)
    (active : ((config.allowing (steps + 1)).watchedEnv note levels routine).Active base act state.actor.stack)
    (settled : act.Settled) {callee : FunctionId} (here : routine.body[act.position]? = some (.invoke callee))
    (ih : ∀ {again act state}, ((config.allowing (steps + 1)).watchedEnv note levels routine).Active base act state.actor.stack →
      act.Settled → Done (config.directly note levels routine steps count again act ⟨state, answers, asked⟩) →
      Done (((config.allowing (steps + 1)).watchedEnv note levels routine).watch note (count + 1) again act state))
    (done : Done (config.directly note levels routine steps (count + 1) again act ⟨state, answers, asked⟩)) :
    Done (((config.allowing (steps + 1)).watchedEnv note levels routine).watch note (count + 2) again act state) := by
  have steady : state.Steady ((config.watchedEnv note levels routine).noted note again act state) :=
    Env.noted_steady note again act state
  have trusted : ((config.allowing (steps + 1)).watchedEnv note levels routine).Trusted := watchedEnv_trusted sound
  rw [← steady.stack] at active
  obtain ⟨landing, place, chain, expects, close, _, saved, above⟩ := active.at_invoke (sound _ _ found).laid here
  have meets := Env.move_leads trusted found active
  have moved (before : Running σ) := @Env.move_invoke _ ((config.allowing (steps + 1)).watchedEnv note levels routine) act before _ here
  have invokes : ((config.allowing (steps + 1)).watchedEnv note levels routine).invoke callee
      = (config.allowing (steps + 1)).watchWithin note levels callee := rfl
  rw [invokes] at moved
  rw [directly_succ, turned_call here, looked] at done
  rw [watch_succ]
  generalize (config.watchedEnv note levels routine).noted note again act state = before at *
  have finished : Done ((config.allowing steps).directWithin note levels callee ⟨before, answers, asked⟩) := by
    intro other same
    rw [same] at done
    exact done other rfl
  have left := leaves callee chain base before answers asked saved above finished
  cases watched : (config.allowing (steps + 1)).watchWithin note levels callee before with
  | error stop final =>
      rw [watched] at left
      rw [moved, watched]
      exact done_error.mpr (done_error.mp left)
  | ok value final =>
      have mirrors := mirrored sound note levels (steps + 1) callee chain base before _ saved above watched done_ok
      have moved := moved before
      rw [watched] at moved
      rw [moved]
      cases ended : value.waits with
      | false =>
          have returned := mirrors.ended value final rfl ended answers asked
          have called := ends_unique ⟨steps, rfl⟩ finished returned done_ok
          have settled' : Activation.Settled { act with position := act.position + 1, lastCall := some value } :=
            ⟨settled.pending, fun _ same => by cases same; exact ended⟩
          rw [called] at done
          exact ih (meets.ok moved).1 settled' done
      | true =>
          cases value with
          | completed _ _ => cases ended
          | suspended reason =>
              have behind : routine.body[act.position + 1]? = some (.propagateSuspension callee landing) := by
                rw [close]
                exact expects.propagate
              simp only []
              rw [Env.watch_propagate behind rfl]
              exact done_ok

/-- A call that finishes in direct style comes to the point where it first leaves. -/
theorem watch_leaves (sound : config.image.Sound) (found : config.image.routine? routine.shape.function = some routine)
    (leaves : config.Leaves note levels steps)
    (active : ((config.allowing (steps + 1)).watchedEnv note levels routine).Active base act state.actor.stack)
    (settled : act.Settled) (done : Done (config.directly note levels routine steps count again act ⟨state, answers, asked⟩)) :
    Done (((config.allowing (steps + 1)).watchedEnv note levels routine).watch note (count + 1) again act state) := by
  induction count generalizing again act state with
  | zero => exact absurd rfl (done ⟨state, answers, asked⟩)
  | succ count ih =>
      have steady : state.Steady ((config.watchedEnv note levels routine).noted note again act state) :=
        Env.noted_steady note again act state
      have trusted : ((config.allowing (steps + 1)).watchedEnv note levels routine).Trusted := watchedEnv_trusted sound
      have meets := Env.move_leads trusted found (steady.stack ▸ active)
      cases crossing : (config.watchedEnv note levels routine).crossing act with
      | wait reason =>
          obtain ⟨_, pending, waits⟩ := Env.crossing_eq_wait crossing
          have ended := settled.pending _ pending
          simp [Continuation.waits, waits] at ended
      | ask question =>
          have turned : Done (config.turned note levels routine steps again act ⟨state, answers, asked⟩) := by
            intro other same
            rw [directly_succ, same] at done
            exact done other rfl
          exact ask_leaves sound found active crossing turned
      | plain =>
          have plain (bound : Nat) : ((config.allowing bound).watchedEnv note levels routine).crossing act = .plain := crossing
          rw [directly_succ, turned, Env.turn_plain (plain _), looked, Talking.lift_apply] at done
          rw [watch_succ]
          cases moved : ((config.allowing steps).watchedEnv note levels routine).move act
            ((config.watchedEnv note levels routine).noted note again act state) with
          | error stop final =>
              rw [moved] at done
              have other := done_error.mp done
              rw [move_ok_more (Nat.le_succ steps) moved (done_error.mpr other)]
              exact done_error.mpr other
          | ok flow final =>
              rw [moved] at done
              have moved := move_ok_more (Nat.le_succ steps) moved done_ok
              rw [moved]
              cases flow with
              | leave value => exact done_ok
              | next after => exact ih (meets.ok moved).1 (Env.move_settled (plain _) settled moved) done
      | call callee =>
          exact call_leaves sound found leaves active settled (Env.crossing_eq_call crossing) ih done

end

/-- Functions at every level of calls leave, if they finish in direct style. -/
theorem leaves (sound : config.image.Sound) (note : Observer σ) (levels steps : Nat) : config.Leaves note levels steps := by
  induction levels with
  | zero => exact fun _ _ _ _ _ _ _ _ done => absurd rfl (done _)
  | succ levels ih =>
      intro function chain base state answers asked saved above done
      have meets : Exec.Meets config.handler (config.enter function) state _ := enter_meets saved above
      rw [directWithin_succ] at done
      rw [watchWithin_succ]
      have entered (bound : Nat) : (config.allowing bound).enter function state = config.enter function state := rfl
      simp only [entered] at done ⊢
      cases entered : config.enter function state with
      | error stop below =>
          rw [entered] at done
          exact done_error.mpr (done_error.mp done)
      | ok entry below =>
          obtain ⟨routine, act⟩ := entry
          rw [entered] at done
          obtain ⟨⟨found, active, _, pending, lastCall⟩, _⟩ := meets.ok entered
          have limit (bound : Nat) : (config.allowing bound).depthLimit = config.depthLimit := rfl
          simp only [limit] at done ⊢
          by_cases tooDeep : config.depthLimit ≤ below.depth
          · simp only [tooDeep, if_true]
            exact done_error.mpr (by simp)
          · simp only [tooDeep, if_false] at done ⊢
            obtain rfl : routine.shape.function = function := (sound function routine found).own
            have settled : act.Settled := .of_none pending lastCall
            have done : Done (config.directly note levels routine steps steps state.comesBack act
              ⟨below.deeper, answers, asked⟩) := done_afterwards.mp done
            exact done_afterwards.mpr (watch_leaves sound found ih (active _ _) settled done)

end RunConfig

end Reentry

/-!
Suspension cannot be noticed. A started call does the same on the trampoline as in direct style, whatever
the scheduler answers: it carries out the same instructions in the same order, with the same effects, gives
the same reasons for waiting, and ends with the same result in the same state.
-/

namespace Reentry

namespace RunConfig

variable {σ : Type} {config : RunConfig σ} {note : Observer σ} {function : FunctionId} {chain base : List Frame}
  {state : Running σ} {answers : List (Reply σ)} {asked : List YieldReason}
  {result : EStateM.Result Stop (Talk σ) Continuation}

/-- On the frames of a call its function is executed. -/
theorem watchTop_saved (saved : config.image.Saved function chain) (above : state.actor.stack = chain ++ base) :
    config.watchTop note state = config.watchWithin note (config.depthLimit + 1) function state := by
  obtain ⟨frame, below, rfl, rfl⟩ := saved.head
  have known : Exec.actor state = .ok state.actor state := rfl
  rw [watchTop, Exec.bind_of_ok known, above]
  rfl

/-- One execution on the trampoline and what follows it. -/
theorem bounce_succ (rounds : Nat) (reply : Reply σ) :
    config.bounce note (rounds + 1) ⟨state, reply :: answers, asked⟩ = (match config.watchTop note state with
      | .ok (.suspended reason) after =>
          if reason.isTerminal then .ok (.suspended reason) ⟨after, reply :: answers, asked⟩
          else config.bounce note rounds ⟨after.answered reply, answers, asked ++ [reason]⟩
      | .ok (.completed value locals) after => .ok (.completed value locals) ⟨after, reply :: answers, asked⟩
      | .error stop after => .error stop ⟨after, reply :: answers, asked⟩) := by
  rw [bounce, Exec.bind_apply, Talking.lift_apply]
  cases config.watchTop note state with
  | error stop after => rfl
  | ok value after =>
      rcases value with ⟨value, locals⟩ | reason
      · rfl
      · cases reason <;> rfl

/-- With enough steps, the trampoline ends like this. -/
def Bounces (config : RunConfig σ) (note : Observer σ) (talk : Talk σ)
    (result : EStateM.Result Stop (Talk σ) Continuation) : Prop :=
  ∃ steps, (config.allowing steps).trampoline note talk = result

theorem trampoline_below {steps bound : Nat} (le : steps ≤ bound) :
    Below ((config.allowing steps).trampoline note) ((config.allowing bound).trampoline note) :=
  .next fun talk => bounce_below le talk.answers.length

theorem bounces_unique {talk : Talk σ} {other : EStateM.Result Stop (Talk σ) Continuation}
    (bounces : config.Bounces note talk result) (done : Done result) (bounces' : config.Bounces note talk other)
    (done' : Done other) : result = other := by
  obtain ⟨steps, ran⟩ := bounces
  obtain ⟨bound, ran'⟩ := bounces'
  have more := (trampoline_below (Nat.le_max_left steps bound)).finished ran done
  have more' := (trampoline_below (Nat.le_max_right steps bound)).finished ran' done'
  exact more.symm.trans more'

/-- When the first execution has been suspended, the trampoline goes on with the answer. -/
theorem bounces_waiting {steps : Nat} {reply : Reply σ} {reason : YieldReason} {final : Running σ}
    (ran : (config.allowing steps).watchTop note state = .ok (.suspended reason) final) (waits : reason.isTerminal = false)
    (done : Done result) : config.Bounces note ⟨state, reply :: answers, asked⟩ result ↔
      config.Bounces note ⟨final.answered reply, answers, asked ++ [reason]⟩ result := by
  have bounced {bound : Nat} (enough : steps ≤ bound) :
      (config.allowing bound).trampoline note ⟨state, reply :: answers, asked⟩
        = (config.allowing bound).trampoline note ⟨final.answered reply, answers, asked ++ [reason]⟩ := by
    have ran := (watchTop_below enough).finished ran done_ok
    have next : (config.allowing bound).trampoline note ⟨state, reply :: answers, asked⟩ = _ :=
      bounce_succ answers.length reply
    simp only [ran, waits] at next
    exact next
  constructor
  · rintro ⟨bound, ends⟩
    have ends := (trampoline_below (Nat.le_max_left bound steps)).finished ends done
    exact ⟨_, (bounced (Nat.le_max_right bound steps)).symm.trans ends⟩
  · rintro ⟨bound, ends⟩
    have ends := (trampoline_below (Nat.le_max_left bound steps)).finished ends done
    exact ⟨_, (bounced (Nat.le_max_right bound steps)).trans ends⟩

/-- If they end alike after the first answer, the trampoline and direct style end alike when the first
execution comes to its end. -/
theorem bounces_iff_of_left (sound : config.image.Sound) (saved : config.image.Saved function chain)
    (above : state.actor.stack = chain ++ base) {reply : Reply σ} {steps : Nat}
    (finished : Done ((config.allowing steps).watchTop note state)) (done : Done result)
    (later : ∀ reason chain' (final : Running σ), config.image.Saved function chain' → final.actor.stack = chain' ++ base →
      (config.Bounces note ⟨final.answered reply, answers, asked ++ [reason]⟩ result ↔
        config.Ends note (config.depthLimit + 1) function ⟨final.answered reply, answers, asked ++ [reason]⟩ result)) :
    config.Bounces note ⟨state, reply :: answers, asked⟩ result ↔
      config.Ends note (config.depthLimit + 1) function ⟨state, reply :: answers, asked⟩ result := by
  have top : (config.allowing steps).watchWithin note (config.depthLimit + 1) function state
      = (config.allowing steps).watchTop note state :=
    Eq.symm (watchTop_saved saved above)
  have bounced : (config.allowing steps).trampoline note ⟨state, reply :: answers, asked⟩ = _ :=
    bounce_succ answers.length reply
  have mirrors := mirrored sound note _ steps function chain base state _ saved above top finished
  have both {ending : EStateM.Result Stop (Talk σ) Continuation} (finished : Done ending)
      (bounces : (config.allowing steps).trampoline note ⟨state, reply :: answers, asked⟩ = ending)
      (ends : config.Ends note (config.depthLimit + 1) function ⟨state, reply :: answers, asked⟩ ending) :
      config.Bounces note ⟨state, reply :: answers, asked⟩ result ↔
        config.Ends note (config.depthLimit + 1) function ⟨state, reply :: answers, asked⟩ result :=
    ⟨fun other => bounces_unique other done ⟨steps, bounces⟩ finished ▸ ends,
      fun other => ends_unique other done ends finished ▸ ⟨steps, bounces⟩⟩
  cases ran : (config.allowing steps).watchTop note state with
  | error stop final =>
      rw [ran] at finished bounced mirrors
      exact both (done_error.mpr (done_error.mp finished)) bounced (mirrors.failed stop final rfl _ _)
  | ok value final =>
      rw [ran] at bounced mirrors top
      rcases value with ⟨value, locals⟩ | reason
      · exact both done_ok bounced (mirrors.ended _ final rfl rfl _ _)
      · cases waits : reason.isTerminal with
        | true =>
            simp only [waits, if_true] at bounced
            exact both done_ok bounced (mirrors.ended _ final rfl (by simp [Continuation.waits, waits]) _ _)
        | false =>
            obtain ⟨chain', saved', above'⟩ := (handed_of_watchWithin sound saved above top).1.saved waits
            rw [bounces_waiting ran waits done, later reason chain' final saved' above']
            exact (mirrors.waiting reason final rfl waits reply answers asked result done).symm

/-- On the frames of a call that waits, the trampoline and direct style end alike. -/
theorem bounces_iff_ends (sound : config.image.Sound) (saved : config.image.Saved function chain)
    (above : state.actor.stack = chain ++ base) (done : Done result) :
    config.Bounces note ⟨state, answers, asked⟩ result ↔
      config.Ends note (config.depthLimit + 1) function ⟨state, answers, asked⟩ result := by
  induction answers generalizing chain state asked with
  | nil =>
      have bounced (steps : Nat) : (config.allowing steps).trampoline note ⟨state, [], asked⟩
          = (config.allowing steps).directWithin note (config.depthLimit + 1) function ⟨state, [], asked⟩ := by
        have top : (config.allowing steps).watchTop note state = _ := watchTop_saved saved above
        have limit : (config.allowing steps).depthLimit = config.depthLimit := rfl
        rw [directWithin_unanswered, ← limit, ← top]
        exact Talking.lift_apply _ [] asked
      simp only [Bounces, bounced, Ends]
  | cons reply answers ih =>
      have later (reason : YieldReason) (chain : List Frame) (final : Running σ) (saved : config.image.Saved function chain)
          (above : final.actor.stack = chain ++ base) :
          config.Bounces note ⟨final.answered reply, answers, asked ++ [reason]⟩ result ↔
            config.Ends note (config.depthLimit + 1) function ⟨final.answered reply, answers, asked ++ [reason]⟩ result := by
        have above : (final.answered reply).actor.stack = chain ++ base := above
        exact ih saved above
      constructor
      · rintro ⟨steps, ends⟩
        have finished : Done ((config.allowing steps).watchTop note state) := by
          intro final stuck
          have bounced : (config.allowing steps).trampoline note ⟨state, reply :: answers, asked⟩ = _ :=
            bounce_succ answers.length reply
          rw [stuck] at bounced
          exact done _ (ends.symm.trans bounced)
        exact (bounces_iff_of_left sound saved above finished done later).mp ⟨steps, ends⟩
      · rintro ⟨steps, ends⟩
        have finished := leaves sound note _ steps function chain base state _ _ saved above (ends ▸ done)
        have top : (config.allowing (steps + 1)).watchTop note state = _ := watchTop_saved saved above
        exact (bounces_iff_of_left sound saved above (top ▸ finished) done later).mpr ⟨steps, ends⟩

end RunConfig

namespace Program

/-- Suspension is transparent: a started call of lowered code ends on the trampoline, where each suspension
unwinds the call and each answer runs it again from its saved frames, exactly as it ends in direct style,
where callees run in place and answers are taken in place. The observer has been told of the same
instructions in the same order, the same effects have taken place, and the same reasons for waiting have
been given; heap, actor and result are the same as well, also when the answers run out or the call fails. -/
theorem lowered_code_suspends_unnoticed {program : Program} {options : LowerOptions} {σ : Type} {config : RunConfig σ}
    (accepted : program.lower options = .ok config.image) {function : FunctionId} {args : List Value}
    {actor started : Actor} {before heap : Heap}
    (starts : (Actor.startCall config.image function args actor).run before = .ok (started, heap))
    (note : Observer σ) (outside : σ) (depth : Nat) (answers : List (Reply σ))
    {result : EStateM.Result Stop (Talk σ) Continuation} (done : Done result) :
    (∃ steps, (config.allowing steps).trampoline note ⟨⟨heap, started, outside, depth⟩, answers, []⟩ = result) ↔
      ∃ steps, (config.allowing steps).direct note function ⟨⟨heap, started, outside, depth⟩, answers, []⟩ = result := by
  have sound := lower_sound accepted
  obtain ⟨frame, saved, pushed⟩ := Actor.startCall_saved sound starts
  have above : (⟨heap, started, outside, depth⟩ : Running σ).actor.stack = [frame] ++ actor.stack := by
    rw [pushed]
    rfl
  exact RunConfig.bounces_iff_ends sound saved above done

/-- The player of the sample game keeps one toss and stops. -/
theorem game_suspends_unnoticed : ∃ (config : RunConfig (List (FunctionId × Nat))) (talk : Talk (List (FunctionId × Nat)))
    (result : EStateM.Result Stop (Talk (List (FunctionId × Nat))) Continuation),
    Sample.game.lower {} = .ok config.image ∧ Done result ∧ talk.answers.length = 3 ∧
    ∃ steps, (config.allowing steps).direct (fun function place seen => (function, place) :: seen) ⟨0⟩ talk = result := by
  let config : RunConfig (List (FunctionId × Nat)) := ⟨Sample.image, fun _ _ seen => .ok seen, 3, 100⟩
  let note : Observer (List (FunctionId × Nat)) := fun function place seen => (function, place) :: seen
  let player : Actor := ⟨⟨0⟩, ⟨0⟩, "Player", [], .null, .null, none, [], ⟨none, none⟩, []⟩
  let answers : List (Reply (List (FunctionId × Nat))) := [.choose true, .choose false, .choose false]
  have accepted : Sample.game.lower {} = .ok config.image := rfl
  have possible : ∃ started heap, (Actor.startCall config.image ⟨0⟩ [] player).run .empty = .ok (started, heap) ∧
      (match config.trampoline note ⟨⟨heap, started, [], 0⟩, answers, []⟩ with
        | .error .outOfSteps _ => false
        | _ => true) = true := ⟨_, _, rfl, by decide +kernel⟩
  obtain ⟨started, heap, starts, finishes⟩ := possible
  have done : Done (config.trampoline note ⟨⟨heap, started, [], 0⟩, answers, []⟩) := by
    intro after stuck
    rw [stuck] at finishes
    cases finishes
  exact ⟨config, _, _, accepted, done, rfl,
    (lowered_code_suspends_unnoticed accepted starts note [] 0 answers done).mp ⟨100, rfl⟩⟩

end Program

end Reentry
