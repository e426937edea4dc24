import Reentry.Proofs.Suspension.Resume

/-!
Calls within calls. Whatever a function does in the code with calls of some depth below it, it does in
direct style: by induction on the steps of a call, and on how deep calls may be nested.
-/

namespace Reentry

namespace Running

variable {σ : Type}

/-- The state with so many active calls. -/
def within (depth : Nat) (state : Running σ) : Running σ := { state with depth }

/-- The state within one more active call. -/
def deeper (state : Running σ) : Running σ := state.within (state.depth + 1)

/-- The state when a call is no longer active. -/
def back (state : Running σ) : Running σ := state.within (state.depth - 1)

theorem within_depth {state : Running σ} {depth : Nat} (same : state.depth = depth) : state.within depth = state := by
  subst same
  rfl

end Running

namespace Talk

variable {σ : Type}

def deeper (talk : Talk σ) : Talk σ := { talk with state := talk.state.deeper }

def back (talk : Talk σ) : Talk σ := { talk with state := talk.state.back }

end Talk

/-- A result with another state afterwards. -/
def afterwards {S α : Type} (change : S → S) : EStateM.Result Stop S α → EStateM.Result Stop S α
  | .ok result after => .ok result (change after)
  | .error stop after => .error stop (change after)

theorem done_afterwards {S α : Type} {change : S → S} {result : EStateM.Result Stop S α} :
    Done (afterwards change result) ↔ Done result := by
  cases result with
  | ok value after => exact iff_of_true done_ok done_ok
  | error stop after => exact done_error.trans done_error.symm

theorem Exec.counted_apply {σ α : Type} (call : Exec σ α) (state : Running σ) :
    counted call state = afterwards Running.back (call state.deeper) := by
  unfold counted Running.deeper Running.within
  cases call { state with depth := state.depth + 1 } <;> rfl

theorem Talking.counted_apply {σ α : Type} (call : Talking σ α) (talk : Talk σ) :
    counted call talk = afterwards Talk.back (call talk.deeper) := by
  unfold counted Talk.deeper Running.deeper Running.within
  cases call { talk with state := { talk.state with depth := talk.state.depth + 1 } } <;> rfl

namespace Exec

variable {σ α β : Type}

/-- The run does not look at how many calls are active. -/
def Uncounting (work : Exec σ α) : Prop :=
  ∀ depth state, work (state.within depth) = afterwards (Running.within depth) (work state)

theorem Uncounting.bind {work : Exec σ α} {rest : α → Exec σ β} (first : Uncounting work)
    (next : ∀ value, Uncounting (rest value)) : Uncounting (work >>= rest) := by
  intro depth state
  rw [bind_apply, bind_apply, first depth state]
  cases work state with
  | ok value after => exact next value depth after
  | error stop after => rfl

/-- Reading the actor, and going on with it. -/
theorem Uncounting.actor {rest : Actor → Exec σ β} (next : ∀ actor, Uncounting (rest actor)) :
    Uncounting (Exec.actor >>= rest) := fun depth state => next state.actor depth state

theorem Uncounting.ok {work : Exec σ α} {state after : Running σ} {result : α} (uncounting : Uncounting work)
    (done : work state = .ok result after) : after.depth = state.depth := by
  have same := uncounting state.depth state
  rw [Running.within_depth rfl, done] at same
  exact (congrArg Running.depth (EStateM.Result.ok.inj same).2 :)

theorem Uncounting.error {work : Exec σ α} {state after : Running σ} {stop : Stop} (uncounting : Uncounting work)
    (failed : work state = .error stop after) : after.depth = state.depth := by
  have same := uncounting state.depth state
  rw [Running.within_depth rfl, failed] at same
  exact (congrArg Running.depth (EStateM.Result.error.inj same).2 :)

end Exec

theorem Exec.Uncounting.deeper {σ α : Type} {work : Exec σ α} {state : Running σ} (uncounting : Uncounting work) :
    work state.deeper = afterwards Running.deeper (work state) := by
  have within := uncounting (state.depth + 1) state
  cases done : work state with
  | ok result after =>
      rw [done] at within
      rw [afterwards, Running.deeper, Running.deeper, uncounting.ok done]
      exact within
  | error stop after =>
      rw [done] at within
      rw [afterwards, Running.deeper, Running.deeper, uncounting.error done]
      exact within

/-- A function keeps up when its call does within one more active call. -/
theorem Mirrors.counted {σ : Type} {goesOn resumes ends : Talk σ → EStateM.Result Stop (Talk σ) Continuation → Prop}
    {state before : Running σ} {result : EStateM.Result Stop (Running σ) Continuation}
    (mirrors : Mirrors goesOn resumes before.deeper result) (depth : before.depth = state.depth)
    (kept : ∀ value after, result = .ok value after → after.depth = before.depth + 1)
    (first : ∀ answers asked ending, Done ending → (ends ⟨state, answers, asked⟩ ending ↔
      ∃ inner, goesOn ⟨before.deeper, answers, asked⟩ inner ∧ afterwards Talk.back inner = ending))
    (later : ∀ talk ending, talk.state.depth = state.depth → Done ending → (ends talk ending ↔
      ∃ inner, resumes talk.deeper inner ∧ afterwards Talk.back inner = ending)) (done : Done result) :
    Mirrors ends ends state (afterwards Running.back result) := by
  cases result with
  | error stop after =>
      refine .of_error fun answers asked => ?_
      exact (first answers asked _ (done_error.mpr (done_error.mp done))).mpr ⟨_, mirrors.failed stop after rfl answers asked, rfl⟩
  | ok value after =>
      have returned (ended : value.waits = false) (answers : List (Reply σ)) (asked : List YieldReason) :
          ends ⟨state, answers, asked⟩ (.ok value ⟨after.back, answers, asked⟩) :=
        (first answers asked _ done_ok).mpr ⟨_, mirrors.ended value after rfl ended answers asked, rfl⟩
      rcases value with ⟨result, locals⟩ | reason
      · exact .of_ended rfl (returned rfl)
      · cases final : reason.isTerminal with
        | true =>
            have ended : (Continuation.suspended reason).waits = false := by simp [Continuation.waits, final]
            exact .of_ended ended (returned ended)
        | false =>
            refine .of_waiting (fun reply answers asked ending finished => ?_) final
            have inside : after.depth = before.depth + 1 := kept _ after rfl
            have back : (after.back.answered reply).depth = state.depth := by
              change after.depth - 1 = state.depth
              omega
            have same : (⟨after.back.answered reply, answers, asked ++ [reason]⟩ : Talk σ).deeper
                = ⟨after.answered reply, answers, asked ++ [reason]⟩ := by
              have deeper : (after.back.answered reply).deeper = after.answered reply := by
                rw [Running.deeper, back, ← depth, ← inside]
                rfl
              rw [Talk.deeper, deeper]
            rw [first _ _ _ finished, later _ _ back finished, same]
            constructor
            · rintro ⟨inner, goes, rfl⟩
              exact ⟨inner, (mirrors.waiting reason after rfl final reply answers asked inner
                (done_afterwards.mp finished)).mp goes, rfl⟩
            · rintro ⟨inner, resumed, rfl⟩
              exact ⟨inner, (mirrors.waiting reason after rfl final reply answers asked inner
                (done_afterwards.mp finished)).mpr resumed, rfl⟩

namespace RunConfig

variable {σ : Type} {config : RunConfig σ} {note : Observer σ} {levels : Nat} {routine : Routine} {function : FunctionId}

theorem enter_uncounting (config : RunConfig σ) (function : FunctionId) : Exec.Uncounting (config.enter function) := by
  cases found : config.image.routine? function with
  | none =>
      simp only [enter, found]
      exact .actor fun _ _ _ => rfl
  | some routine =>
      simp only [enter, found]
      refine .bind (.actor fun actor => ?_) fun frame => .actor fun actor => ?_
      · cases actor.stack <;> exact fun _ _ => rfl
      · repeat' split
        all_goals exact fun _ _ => rfl

theorem watchWithin_succ (state : Running σ) : config.watchWithin note (levels + 1) function state =
    (match config.enter function state with
      | .ok (routine, act) below =>
          if config.depthLimit ≤ below.depth then .error (.failed (.callDepthExceeded config.depthLimit)) below
          else afterwards Running.back
            ((config.watchedEnv note levels routine).watch note config.steps state.comesBack act below.deeper)
      | .error stop below => .error stop below) := by
  have read (state : Running σ) : (get : Exec σ (Running σ)) state = .ok state state := rfl
  rw [watchWithin, Exec.bind_of_ok (read state), Exec.bind_apply]
  cases config.enter function state with
  | error stop below => rfl
  | ok entered below =>
      obtain ⟨routine, act⟩ := entered
      simp only []
      rw [Exec.bind_of_ok (read below)]
      by_cases tooDeep : config.depthLimit ≤ below.depth
      · simp only [tooDeep, if_true]
        rfl
      · simp only [tooDeep, if_false]
        exact Exec.counted_apply _ below

theorem directWithin_succ (talk : Talk σ) : config.directWithin note (levels + 1) function talk =
    (match config.enter function talk.state with
      | .ok (routine, act) below =>
          if config.depthLimit ≤ below.depth then
            .error (.failed (.callDepthExceeded config.depthLimit)) { talk with state := below }
          else afterwards Talk.back ((config.watchedEnv note levels routine).direct note (config.directWithin note levels)
            config.steps talk.state.comesBack act { talk with state := below.deeper })
      | .error stop below => .error stop { talk with state := below }) := by
  have read (talk : Talk σ) : (get : Talking σ (Talk σ)) talk = .ok talk talk := rfl
  rw [directWithin, Exec.bind_of_ok (read talk)]
  cases entered : config.enter function talk.state with
  | error stop below => exact Exec.bind_of_error (Talking.lift_of_error entered)
  | ok entry below =>
      obtain ⟨routine, act⟩ := entry
      rw [Exec.bind_of_ok (Talking.lift_of_ok entered)]
      simp only []
      rw [Exec.bind_of_ok (read _)]
      by_cases tooDeep : config.depthLimit ≤ below.depth
      · simp only [tooDeep, if_true]
        rfl
      · simp only [tooDeep, if_false]
        exact Talking.counted_apply _ _

/-- A function ends as its call does within one more active call. -/
theorem ends_succ {talk : Talk σ} {ending : EStateM.Result Stop (Talk σ) Continuation}
    (room : talk.state.depth < config.depthLimit) (done : Done ending) :
    config.Ends note (levels + 1) function talk ending ↔
      ∃ inner, config.Resumes note levels function talk.deeper inner ∧ afterwards Talk.back inner = ending := by
  have within : config.enter function talk.state.deeper = _ := (config.enter_uncounting function).deeper
  unfold Ends Resumes
  cases entered : config.enter function talk.state with
  | error stop below =>
      have deeper : config.enter function talk.deeper.state = .error stop below.deeper := by
        rw [entered] at within
        exact within
      have ran (steps : Nat) : (config.allowing steps).directWithin note (levels + 1) function talk
          = .error stop { talk with state := below } := by
        have entered : (config.allowing steps).enter function talk.state = .error stop below := entered
        rw [directWithin_succ, entered]
      simp only [deeper, ran]
      constructor
      · rintro ⟨_, rfl⟩
        exact ⟨_, rfl, rfl⟩
      · rintro ⟨_, rfl, rfl⟩
        exact ⟨0, rfl⟩
  | ok entry below =>
      obtain ⟨routine, act⟩ := entry
      have depth : below.depth = talk.state.depth := (config.enter_uncounting function).ok entered
      have deeper : config.enter function talk.deeper.state = .ok (routine, act) below.deeper := by
        rw [entered] at within
        exact within
      have ran (steps : Nat) : (config.allowing steps).directWithin note (levels + 1) function talk
          = afterwards Talk.back (config.directly note levels routine steps steps talk.state.comesBack act
            { talk with state := below.deeper }) := by
        have entered : (config.allowing steps).enter function talk.state = .ok (routine, act) below := entered
        have notTooDeep : ¬(config.allowing steps).depthLimit ≤ below.depth := Nat.not_le.mpr (depth ▸ room)
        rw [directWithin_succ, entered]
        exact if_neg notTooDeep
      simp only [deeper, ran]
      constructor
      · rintro ⟨steps, ends⟩
        exact ⟨_, ⟨steps, steps, rfl⟩, ends⟩
      · rintro ⟨inner, ⟨steps, count, ends⟩, rfl⟩
        refine ⟨max steps count, congrArg (afterwards Talk.back) ?_⟩
        exact (directly_below (Nat.le_max_left steps count) (Nat.le_max_right steps count)).finished ends
          (done_afterwards.mp done)

/-- A call in the code that is still in its first steps is kept up with. -/
theorem keepsUp (sound : config.image.Sound) (found : config.image.routine? routine.shape.function = some routine)
    (mirrored : config.Mirrored note levels) (steps : Nat) (base : List Frame) (count : Nat) :
    config.KeepsUp note levels routine steps base count := by
  induction count with
  | zero =>
      intro again act state result _ _ _ watched done
      obtain ⟨_, same⟩ := Env.watch_done watched done
      cases same
  | succ count ih =>
      intro again act state result active settled owned watched done
      cases crossing : (config.watchedEnv note levels routine).crossing act with
      | plain => exact plain_mirrors sound found ih active settled owned crossing watched done
      | call callee =>
          exact call_mirrors sound found mirrored ih active settled owned (Env.crossing_eq_call crossing) watched done
      | ask question => exact ask_mirrors sound found active owned crossing watched done
      | wait reason =>
          obtain ⟨_, pending, waits⟩ := Env.crossing_eq_wait crossing
          have ended := settled.pending _ pending
          simp [Continuation.waits, waits] at ended

/-- In direct style, functions at every level of calls keep up with those in the code. -/
theorem mirrored (sound : config.image.Sound) (note : Observer σ) (levels : Nat) : config.Mirrored note levels := by
  induction levels with
  | zero =>
      intro steps function chain base state result _ _ watched done
      subst watched
      exact absurd rfl (done state)
  | succ levels ih =>
      intro steps function chain base state result saved above watched done
      rw [watchWithin_succ] at watched
      change (match config.enter function state with
        | .ok (routine, act) below =>
            if config.depthLimit ≤ below.depth then .error (.failed (.callDepthExceeded config.depthLimit)) below
            else afterwards Running.back (((config.allowing steps).watchedEnv note levels routine).watch note steps
              state.comesBack act below.deeper)
        | .error stop below => .error stop below) = result at watched
      have ran (steps : Nat) (answers : List (Reply σ)) (asked : List YieldReason) :
          (config.allowing steps).directWithin note (levels + 1) function ⟨state, answers, asked⟩ =
            (match config.enter function state with
            | .ok (routine, act) below =>
                if config.depthLimit ≤ below.depth then
                  .error (.failed (.callDepthExceeded config.depthLimit)) ⟨below, answers, asked⟩
                else afterwards Talk.back (config.directly note levels routine steps steps state.comesBack act
                  ⟨below.deeper, answers, asked⟩)
            | .error stop below => .error stop ⟨below, answers, asked⟩) := directWithin_succ _
      cases entered : config.enter function state with
      | error stop below =>
          rw [entered] at watched
          subst watched
          refine .of_error fun answers asked => ⟨0, ?_⟩
          rw [ran, entered]
      | ok entry below =>
          obtain ⟨routine, act⟩ := entry
          obtain ⟨⟨found, active, owned, pending, lastCall⟩, machine, depth⟩ := (enter_meets saved above).ok entered
          have deeper : config.enter function state.deeper = _ := (config.enter_uncounting function).deeper
          rw [entered] at deeper watched
          by_cases tooDeep : config.depthLimit ≤ below.depth
          · simp only [tooDeep, if_true] at watched
            subst watched
            refine .of_error fun answers asked => ⟨0, ?_⟩
            rw [ran, entered]
            exact if_pos tooDeep
          · simp only [tooDeep, if_false] at watched
            obtain rfl : routine.shape.function = function := (sound function routine found).own
            generalize inside : ((config.allowing steps).watchedEnv note levels routine).watch note steps
              state.comesBack act below.deeper = inner at watched
            subst watched
            have done := done_afterwards.mp done
            have settled : act.Settled := .of_none pending lastCall
            have trusted : ((config.allowing steps).watchedEnv note levels routine).Trusted := watchedEnv_trusted sound
            have active : ((config.allowing steps).watchedEnv note levels routine).Active base act below.deeper.actor.stack :=
              active _ _
            have mirrors := keepsUp sound found ih steps base steps _ act below.deeper inner active settled owned inside done
            refine mirrors.counted depth (fun value after returned => ?_) (fun answers asked ending finished => ?_)
              (fun talk ending same finished => ends_succ (by omega) finished) done
            · have meets := Env.watch_meets trusted found note steps state.comesBack active
              exact (meets.ok (inside.trans returned)).2.2
            · have room : (⟨state, answers, asked⟩ : Talk σ).state.depth < config.depthLimit := by
                change state.depth < config.depthLimit
                omega
              have entered : config.enter routine.shape.function (⟨state, answers, asked⟩ : Talk σ).deeper.state
                  = .ok (routine, act) below.deeper := deeper
              rw [ends_succ room finished]
              simp only [resumes_iff entered]
              rfl

end RunConfig

end Reentry
