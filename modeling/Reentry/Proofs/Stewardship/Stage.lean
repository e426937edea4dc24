import Mathlib.Logic.Relation
import Reentry.Proofs.Stewardship.Run

/-!
What operations keep, runs keep. A regime says what is asked of a heap and of the cells in use, and what may become of
them, operation by operation; code that is run on cells in use obeys it, whatever the code is, if the handler of effects
does not bring in other values.
-/

namespace Reentry

open Exec

/-- What is asked of a heap and of the cells in use, and what may become of them while values are worked with. -/
structure Regime where
  holds : Heap → Region → Prop
  turns : Heap → Region → Heap → Region → Prop
  refl : ∀ heap region, turns heap region heap region
  trans : ∀ {before between after region more most}, turns before region between more → turns between more after most →
    turns before region after most
  inside : ∀ {before after region more}, turns before region after more → region.Inside more
  /-- Operations on values in use keep what is asked for, and what they give is in use too. -/
  operate : ∀ {heap after region result} (op : Operation), holds heap region → region.OwnsAll op.operands →
    op.perform.run heap = .ok (result, after) → ∃ more, turns heap region after more ∧ holds after more ∧ more.Owns result

variable {σ α : Type}

/-- Outside is held only what was held there before and what effects have shown. -/
def Handler.Holds (handler : Handler σ) (held : σ → List Value) : Prop :=
  ∀ heap effect outside after, handler heap effect outside = .ok after →
    ∀ value ∈ held after, value ∈ held outside ∨ value ∈ effect.values

namespace Regime

variable {regime : Regime} {held : σ → List Value} {region more : Region} {state after : Running σ} {heap : Heap}

/-- The regime holds, and all values at hand are made of cells in use. -/
structure Fits (regime : Regime) (held : σ → List Value) (region : Region) (state : Running σ) : Prop where
  holds : regime.holds state.heap region
  roots : region.OwnsAll state.actor.roots
  outside : region.OwnsAll (held state.outside)

/-- What may come of a state in which the regime holds, with results made of cells in use. -/
def Permits (regime : Regime) (held : σ → List Value) (region : Region) (state after : Running σ) (values : List Value) : Prop :=
  ∃ more, regime.turns state.heap region after.heap more ∧ regime.Fits held more after ∧ more.OwnsAll values

/-- Work that the regime permits. -/
def Obeys (regime : Regime) (held : σ → List Value) : Account σ := fun _ region state work values =>
  regime.Fits held region state → Ends work state (fun result after => regime.Permits held region state after (values result))
    fun _ after => regime.Permits held region state after []

theorem Permits.refl (fits : regime.Fits held region state) {values : List Value} (owns : region.OwnsAll values) :
    regime.Permits held region state state values := ⟨region, regime.refl _ _, fits, owns⟩

/-- Work on the heap alone. -/
theorem Permits.ofHeap (fits : regime.Fits held region state) (turns : regime.turns state.heap region heap more)
    (holds : regime.holds heap more) {values : List Value} (owns : more.OwnsAll values) :
    regime.Permits held region state { state with heap } values :=
  ⟨more, turns, ⟨holds, fits.roots.mono (regime.inside turns), fits.outside.mono (regime.inside turns)⟩, owns⟩

/-- Initial values of slots are operations one after the other. -/
theorem initialSlots (regime : Regime) (slots : List Slot) (holds : regime.holds heap region) :
    let made := (slots.mapM FrameShape.initialSlot : Alloc (List Value)).run heap
    ∃ more, regime.turns heap region made.2 more ∧ regime.holds made.2 more ∧ more.OwnsAll made.1 := by
  induction slots generalizing heap region with
  | nil => exact ⟨region, regime.refl _ _, holds, Region.ownsAll_nil⟩
  | cons slot rest ih =>
      obtain ⟨more, turns, holds, own⟩ : ∃ more, regime.turns heap region ((FrameShape.initialSlot slot).run heap).2 more ∧
          regime.holds ((FrameShape.initialSlot slot).run heap).2 more ∧ more.Owns ((FrameShape.initialSlot slot).run heap).1 := by
        unfold FrameShape.initialSlot
        split
        next ty _ => exact regime.operate (.build ty.initial) holds Region.ownsAll_nil rfl
        next => exact ⟨region, regime.refl _ _, holds, Region.owns_null⟩
      obtain ⟨most, turns', holds, owns⟩ := ih holds
      rw [List.mapM_cons]
      exact ⟨most, regime.trans turns turns', holds, Region.ownsAll_cons.mpr ⟨own.mono (regime.inside turns'), owns⟩⟩

theorem startCall_turns (regime : Regime) {image : Image} {function : FunctionId} {args : List Value} {actor started : Actor}
    {after : Heap} (holds : regime.holds heap region) (roots : region.OwnsAll actor.roots) (owns : region.OwnsAll args)
    (starts : (Actor.startCall image function args actor).run heap = .ok (started, after)) :
    ∃ more, regime.turns heap region after more ∧ regime.holds after more ∧ more.OwnsAll started.roots := by
  obtain ⟨routine, values, _, created, rfl⟩ := Actor.startCall_eq_ok starts
  obtain ⟨made, run, rfl⟩ := FrameShape.createLocals_eq_ok created
  obtain ⟨more, turns, holds, own⟩ := regime.initialSlots (routine.shape.slots.drop routine.shape.paramCount) holds
  rw [run] at turns holds own
  have inside := regime.inside turns
  exact ⟨more, turns, holds, Actor.ownsAll_push.mpr ⟨Region.ownsAll_append.mpr ⟨owns.mono inside, own⟩, roots.mono inside⟩⟩

/-- What operations keep is kept by all that is made of them. -/
theorem stewards (regime : Regime) (held : σ → List Value) : Stewards (regime.Obeys held) where
  pure owns fits := .refl fits owns
  stop _ fits := .refl fits Region.ownsAll_nil
  bind {_ _ region state _ _ work rest} first next fits := by
    refine Ends.bindRan (first fits) ?_
    rintro result after ran ⟨more, turns, fits, owns⟩
    refine (next result after more ran (regime.inside turns) owns fits).weaken ?_ ?_
    · rintro value final ⟨most, turns', done⟩
      exact ⟨most, regime.trans turns turns', done⟩
    · rintro stop final ⟨most, turns', done⟩
      exact ⟨most, regime.trans turns turns', done⟩
  get next fits := next fits.roots fits
  modifyActor owns fits := ⟨_, regime.refl _ _, ⟨fits.holds, owns fits.roots, fits.outside⟩, Region.ownsAll_nil⟩
  quiet {_ region state work} quiet fits := by
    unfold Ends
    rw [ofValueOp_apply]
    rcases quiet state.heap with ⟨result, ran⟩ | ⟨error, ran⟩ <;> rw [ran] <;> exact .refl fits Region.ownsAll_nil
  operate {region state} op owns fits := by
    unfold Ends
    rw [ofValueOp_apply]
    cases ran : op.perform.run state.heap with
    | error error => exact .refl fits Region.ownsAll_nil
    | ok pair =>
        obtain ⟨more, turns, holds, own⟩ := regime.operate op fits.holds owns ran
        exact .ofHeap fits turns holds (by simpa using own)
  start {region state} image function args owns fits := by
    unfold Ends
    have read : (Exec.actor : Exec σ Actor) state = .ok state.actor state := rfl
    rw [bind_of_ok read, bind_apply, ofHeapOp_apply]
    cases ran : (Actor.startCall image function args state.actor).run state.heap with
    | error cause => exact .refl fits Region.ownsAll_nil
    | ok pair =>
        obtain ⟨more, turns, holds, roots⟩ := regime.startCall_turns fits.holds fits.roots owns ran
        exact ⟨more, turns, ⟨holds, roots, fits.outside.mono (regime.inside turns)⟩, Region.ownsAll_nil⟩
  counted {_ region state values work} keeps fits := by
    have counted := keeps { state with depth := state.depth + 1 } ⟨fits.holds, fits.roots, fits.outside⟩
    refine .counted counted ?_ ?_
    · rintro result after ⟨more, turns, fits, owns⟩
      exact ⟨more, turns, ⟨fits.holds, fits.roots, fits.outside⟩, owns⟩
    · rintro stop after ⟨more, turns, fits, owns⟩
      exact ⟨more, turns, ⟨fits.holds, fits.roots, fits.outside⟩, owns⟩

theorem perform_obeys {handler : Handler σ} (honest : handler.Holds held) {effect : Effect} (owns : region.OwnsAll effect.values) :
    regime.Obeys held Unit region state (perform handler effect) fun _ => [] := by
  intro fits
  unfold Ends
  rw [perform_apply]
  cases ran : handler state.heap effect state.outside with
  | error cause => exact .refl fits Region.ownsAll_nil
  | ok outside =>
      refine ⟨region, regime.refl _ _, ⟨fits.holds, fits.roots, fun value member => ?_⟩, Region.ownsAll_nil⟩
      exact (honest _ _ _ _ ran value member).elim (fits.outside value) (owns value)

/-- If calls obey the regime, so does the code that makes them. -/
theorem serves (regime : Regime) {config : RunConfig σ} (honest : config.handler.Holds held) (routine : Routine)
    {invoke : FunctionId → Exec σ Continuation}
    (invokes : ∀ callee region state, regime.Obeys held Continuation region state (invoke callee) Continuation.values) :
    Env.Serves ⟨config.image, routine, config.handler, invoke⟩ (regime.Obeys held) ∧
      Env.Sends ⟨config.image, routine, config.handler, invoke⟩ (regime.Obeys held) := by
  have serves : Env.Serves ⟨config.image, routine, config.handler, invoke⟩ (regime.Obeys held) :=
    ⟨invokes, fun effect region state _ owns => perform_obeys honest owns⟩
  exact ⟨serves, fun target event payload act region state _ owns => Env.enqueue_reads (regime.stewards held).readers serves owns
    target event payload fun _ _ _ _ _ _ owns => perform_obeys honest owns⟩

/-- Whatever code is run obeys the regime. -/
theorem executeWithin_obeys (regime : Regime) {config : RunConfig σ} (honest : config.handler.Holds held) (levels : Nat)
    (function : FunctionId) : regime.Obeys held Continuation region state (config.executeWithin levels function) Continuation.values :=
  RunConfig.executeWithin_keeps (regime.stewards held) (fun _ routine _ _ => regime.serves honest routine) levels function

/-- So does each instruction of it. -/
theorem step_obeys (regime : Regime) {config : RunConfig σ} (honest : config.handler.Holds held) (levels : Nat) (routine : Routine)
    {act : Activation} (owns : region.OwnsAll act.values) {instr : Instr} (among : instr ∈ routine.body) :
    regime.Obeys held Flow region state (Env.step ⟨config.image, routine, config.handler, config.executeWithin levels⟩ act instr) Flow.values := by
  obtain ⟨serves, sends⟩ := regime.serves honest routine fun callee region state => regime.executeWithin_obeys honest levels callee
  exact Env.step_keeps (regime.stewards held) serves sends owns among

end Regime

end Reentry

/-!
Everything that can be done with actors and values. Whoever runs actors has a hand full of values besides them: messages
on their way, arguments, what calls have handed back. Values are worked with, actors are run, and values are put here
and there, in any order; what a regime asks for holds all along.
-/

namespace Reentry

open Exec

/-- A heap and all that anybody has of it: actors, and values outside of them. -/
structure Stage where
  heap : Heap
  actors : List Actor
  hand : List Value

namespace Stage

def values (stage : Stage) : List Value := stage.actors.flatMap Actor.roots ++ stage.hand

/-- Whether each of these values is at hand; what has no parts always is. -/
def Has (stage : Stage) (values : List Value) : Prop := ∀ address, .cell address ∈ values → .cell address ∈ stage.values

end Stage

/-- What work has handed back, if it has come to an end by itself. -/
def Exec.given {S α : Type} (values : α → List Value) : EStateM.Result Stop S α → List Value
  | .ok result _ => values result
  | .error _ _ => []

/-- One thing that may be done. -/
inductive Deed : Stage → Stage → Prop
  /-- An operation on values at hand succeeds. If it fails, nothing happens. -/
  | operate {stage : Stage} {heap : Heap} {result : Value} (op : Operation) (has : stage.Has op.operands)
      (done : op.perform.run stage.heap = .ok (result, heap)) :
      Deed stage { stage with heap, hand := result :: stage.hand }
  /-- An actor is run with whatever code, limits and handler of effects, outside of which there are values at hand. What
  the run hands back and what lies outside in the end comes to hand. -/
  | execute {stage : Stage} {σ : Type} (config : RunConfig σ) (held : σ → List Value) (honest : config.handler.Holds held)
      (levels : Nat) (function : FunctionId) (outside : σ) (has : stage.Has (held outside)) (depth number : Nat) (actor : Actor)
      (here : stage.actors[number]? = some actor) (outcome : EStateM.Result Stop (Running σ) Continuation)
      (ran : config.executeWithin levels function ⟨stage.heap, actor, outside, depth⟩ = outcome) :
      Deed stage ⟨(final outcome).heap, stage.actors.set number (final outcome).actor,
        given Continuation.values outcome ++ held (final outcome).outside ++ stage.hand⟩
  /-- One instruction of whatever code is carried out for a call that has hold of values at hand. So a run can be watched
  from instruction to instruction. -/
  | instruct {stage : Stage} {σ : Type} (config : RunConfig σ) (held : σ → List Value) (honest : config.handler.Holds held)
      (levels : Nat) (routine : Routine) (act : Activation) (instr : Instr) (among : instr ∈ routine.body) (outside : σ)
      (has : stage.Has (act.values ++ held outside)) (depth number : Nat) (actor : Actor)
      (here : stage.actors[number]? = some actor) (outcome : EStateM.Result Stop (Running σ) Flow)
      (ran : Env.step ⟨config.image, routine, config.handler, config.executeWithin levels⟩ act instr ⟨stage.heap, actor, outside, depth⟩ = outcome) :
      Deed stage ⟨(final outcome).heap, stage.actors.set number (final outcome).actor,
        given Flow.values outcome ++ held (final outcome).outside ++ stage.hand⟩
  /-- Values at hand are put elsewhere: events are delivered, calls are started, actors come and go, fields are set. -/
  | arrange {stage : Stage} (actors : List Actor) (hand : List Value) (has : stage.Has (Stage.values ⟨stage.heap, actors, hand⟩)) :
      Deed stage ⟨stage.heap, actors, hand⟩

/-- What may become of a stage. -/
abbrev Stage.Later : Stage → Stage → Prop := Relation.ReflTransGen Deed

namespace Stage

variable {stage later : Stage} {region : Region} {regime : Regime}

theorem Has.owns {values : List Value} (has : stage.Has values) (owns : region.OwnsAll stage.values) : region.OwnsAll values := by
  rintro _ member address rfl
  exact owns _ (has address member) address rfl

theorem ownsAll_values : region.OwnsAll stage.values ↔ (∀ actor ∈ stage.actors, region.OwnsAll actor.roots) ∧ region.OwnsAll stage.hand := by
  simp only [values, Region.ownsAll_append, and_congr_left_iff]
  intro _
  simp only [Region.OwnsAll, List.mem_flatMap]
  exact ⟨fun owns actor among value member => owns value ⟨actor, among, member⟩, fun owns value ⟨actor, among, member⟩ => owns actor among value member⟩

/-- The regime holds, and everything in the stage is made of cells in use. -/
structure Under (stage : Stage) (regime : Regime) (region : Region) : Prop where
  holds : regime.holds stage.heap region
  owns : region.OwnsAll stage.values

end Stage

open Stage

variable {before after : Stage} {region : Region} {regime : Regime}

/-- Work for one of the actors that obeys the regime. -/
theorem Stage.Under.worked {σ α : Type} {held : σ → List Value} {work : Exec σ α} {values : α → List Value} {outside : σ} {depth number : Nat}
    {actor : Actor} {outcome : EStateM.Result Stop (Running σ) α} (under : before.Under regime region) (here : before.actors[number]? = some actor)
    (owns : region.OwnsAll (held outside)) (obeys : regime.Obeys held α region ⟨before.heap, actor, outside, depth⟩ work values)
    (ran : work ⟨before.heap, actor, outside, depth⟩ = outcome) :
    ∃ more, regime.turns before.heap region (final outcome).heap more ∧ Stage.Under ⟨(final outcome).heap,
      before.actors.set number (final outcome).actor, given values outcome ++ held (final outcome).outside ++ before.hand⟩ regime more := by
  obtain ⟨actors, hand⟩ := ownsAll_values.mp under.owns
  obtain ⟨more, turns, fits, own⟩ : regime.Permits held region ⟨before.heap, actor, outside, depth⟩ (final outcome) (given values outcome) := by
    have permitted := obeys ⟨under.holds, actors actor (List.mem_of_getElem? here), owns⟩
    unfold Ends at permitted
    rw [ran] at permitted
    split at permitted <;> exact permitted
  have inside := regime.inside turns
  refine ⟨more, turns, fits.holds, ownsAll_values.mpr ⟨fun other among => ?_, ?_⟩⟩
  · rcases List.mem_or_eq_of_mem_set among with old | rfl
    · exact (actors other old).mono inside
    · exact fits.roots
  · exact Region.ownsAll_append.mpr ⟨Region.ownsAll_append.mpr ⟨own, fits.outside⟩, hand.mono inside⟩

/-- Whatever is done obeys the regime. -/
theorem Deed.obeys (deed : Deed before after) (under : before.Under regime region) :
    ∃ more, regime.turns before.heap region after.heap more ∧ after.Under regime more := by
  cases deed with
  | operate op has done =>
      obtain ⟨more, turns, holds, own⟩ := regime.operate op under.holds (has.owns under.owns) done
      obtain ⟨actors, hand⟩ := ownsAll_values.mp (under.owns.mono (regime.inside turns))
      exact ⟨more, turns, holds, ownsAll_values.mpr ⟨actors, Region.ownsAll_cons.mpr ⟨own, hand⟩⟩⟩
  | execute config held honest levels function outside has depth number actor here outcome ran =>
      exact under.worked here (has.owns under.owns) (regime.executeWithin_obeys honest levels function) ran
  | instruct config held honest levels routine act instr among outside has depth number actor here outcome ran =>
      obtain ⟨locals, outsides⟩ := Region.ownsAll_append.mp (has.owns under.owns)
      exact under.worked here outsides (regime.step_obeys honest levels routine locals among) ran
  | arrange actors hand has =>
      exact ⟨region, regime.refl _ _, under.holds, has.owns under.owns⟩

/-- And so does everything that may become of a stage. -/
theorem Stage.Later.obeys (later : before.Later after) (under : before.Under regime region) :
    ∃ more, regime.turns before.heap region after.heap more ∧ after.Under regime more := by
  induction later with
  | refl => exact ⟨region, regime.refl _ _, under⟩
  | tail _ deed ih =>
      obtain ⟨more, turns, under⟩ := ih
      obtain ⟨most, turns', under⟩ := deed.obeys under
      exact ⟨most, regime.trans turns turns', under⟩

end Reentry
