import Reentry.Proofs.Frames.Below

/-!
The discipline of the call stack. Frames that wait for one another lie on the stack as a chain, and an
execution of the chain on top either uses it up, or replaces it by another chain of the same kind, or gives
up; what lies below the chain is never touched, whatever it is.
-/

namespace Reentry

open Exec

variable {σ : Type}

/-- A chain of frames, the outermost caller first: each waits for the function of the next, and the last one
waits for no callee. -/
inductive Frame.Chained : FunctionId → List Frame → Prop
  | innermost {frame : Frame} (alone : frame.pendingCall = none) : Chained frame.function [frame]
  | caller {frame : Frame} {callee below} (waits : frame.pendingCall = some callee) (inner : Chained callee below) :
      Chained frame.function (frame :: below)

/-- The stack at the end of a run, whichever way it ends. -/
def Exec.stackAfter {α : Type} : EStateM.Result Stop (Running σ) α → List Frame
  | .ok _ after | .error _ after => after.actor.stack

/-- A frame that running the program can have made: one that the start of a call has pushed, or one that an
execution of a chain of such frames has left above what was below the chain. -/
inductive RunConfig.Made (config : RunConfig σ) : Frame → Prop
  | started {function args actor frame heap after}
      (starts : (Actor.startCall config.image function args actor).run heap = .ok (actor.push frame, after)) :
      config.Made frame
  | left {function frame} {chain base above : List Frame} {state : Running σ} (chained : Frame.Chained function chain)
      (made : ∀ frame ∈ chain, config.Made frame) (stack : state.actor.stack = chain ++ base)
      (ends : stackAfter (config.execute function state) = above ++ base) (member : frame ∈ above) : config.Made frame

namespace Image

/-- A frame with all the slots of its function and one of the labels issued for it, or the start. -/
def Tidy (image : Image) (frame : Frame) : Prop :=
  ∃ routine, image.routine? frame.function = some routine ∧ frame.locals.length = routine.shape.slotCount ∧
    frame.label.number ≤ routine.labelCount

/-- A frame that comes back behind the yield, and the exit after it, that gives this reason. -/
def ParkedFor (image : Image) (reason : YieldReason) (frame : Frame) : Prop :=
  ∃ routine place, ∃ question : Question, image.routine? frame.function = some routine ∧
    routine.body[place]? = some (.yield (question.request frame.label)) ∧
    routine.landing? frame.label = some (place + 2) ∧ question.Gives reason

/-- What an execution of a function on the frames above a base may come to, as far as the stack goes. -/
structure KeepsStack (image : Image) (function : FunctionId) (base : List Frame)
    (result : EStateM.Result Stop (Running σ) Continuation) : Prop where
  returns : ∀ value locals after, result = .ok (.completed value locals) after → after.actor.stack = base
  suspends : ∀ reason after, result = .ok (.suspended reason) after → reason.isTerminal = false →
    ∃ chain lowest, after.actor.stack = chain ++ base ∧ Frame.Chained function chain ∧
      (∀ frame ∈ chain, image.Tidy frame) ∧ chain.getLast? = some lowest ∧ image.ParkedFor reason lowest
  rises : ∃ above, stackAfter result = above ++ base ∧ ∀ frame ∈ above, image.Tidy frame
  /-- A function without labels saves no frame; one that is left has not run. -/
  unlabelled : ∀ routine, image.routine? function = some routine → routine.labelCount = 0 →
    (∀ reason after, result = .ok (.suspended reason) after → reason.isTerminal = true ∧ after.actor.stack = base) ∧
      ∀ above, stackAfter result = above ++ base → ∀ frame ∈ above, frame.function = function → frame.label = .start

variable {image : Image} {function : FunctionId} {chain base : List Frame} {reason : YieldReason} {frame : Frame}

theorem Saved.chained (saved : image.Saved function chain) : Frame.Chained function chain := by
  induction saved with
  | waits waits => exact .innermost waits.alone
  | calls calls _ ih => exact .caller calls.pending ih

theorem Fits.tidy (sound : image.Sound) (fits : image.Fits frame) : image.Tidy frame := by
  cases fits with
  | @waits routine place waits =>
      refine ⟨routine, waits.known, waits.slots, ?_⟩
      have entry := waits.entry
      unfold Routine.entrance? at entry
      cases start : frame.label.isStart with
      | true =>
          have zero : frame.label.number = 0 := by simpa [LabelId.isStart] using start
          omega
      | false =>
          rw [start] at entry
          exact (sound _ _ waits.known).counted _ _ (by simpa using entry)
  | calls calls => exact ⟨_, calls.known, calls.slots, (sound _ _ calls.known).counted _ _ calls.expects.leads⟩

/-- A function that has left a frame when it gave up control has labels. -/
theorem Left.labelled (sound : image.Sound) (left : image.Left function reason chain) (nonempty : chain ≠ [])
    {routine : Routine} (found : image.routine? function = some routine) : 0 < routine.labelCount := by
  have positive {label : LabelId} {place : Nat} (leads : routine.landing? label = some place) :
      0 < routine.labelCount := by
    have bound := (sound _ _ found).counted _ _ leads
    have nonzero : label.number ≠ 0 := by simpa [LabelId.isStart] using Routine.isStart_of_landing? leads
    omega
  cases left with
  | gone _ => exact absurd rfl nonempty
  | asked waits _ leads _ =>
      cases found.symm.trans waits.known
      exact positive leads
  | calls calls _ =>
      cases found.symm.trans calls.known
      exact positive calls.expects.leads

/-- The innermost frame of a call that waits for the scheduler is parked behind the yield. -/
theorem Left.lowest (left : image.Left function reason chain) (waits : reason.isTerminal = false) :
    ∃ lowest, chain.getLast? = some lowest ∧ image.ParkedFor reason lowest := by
  induction left with
  | gone final =>
      rw [waits] at final
      cases final
  | @asked routine frame place question _ fits yields leads gives =>
      exact ⟨frame, rfl, routine, place, question, fits.known, yields, leads, gives⟩
  | calls _ inner ih =>
      obtain ⟨lowest, last, parked⟩ := ih waits
      exact ⟨lowest, by rw [List.getLast?_cons, last]; rfl, parked⟩

end Image

/-- A chain of frames that fit is one of saved frames. -/
theorem Frame.Chained.saved {image : Image} {function : FunctionId} {chain : List Frame} (chained : Frame.Chained function chain)
    (fit : ∀ frame ∈ chain, image.Fits frame) :
    image.Saved function chain := by
  induction chained with
  | @innermost frame alone =>
      cases fit frame (List.mem_singleton.mpr rfl) with
      | waits waits => exact .waits waits
      | calls calls => cases alone.symm.trans calls.pending
  | @caller frame callee below waits inner ih =>
      obtain ⟨own, others⟩ := List.forall_mem_cons.mp fit
      cases own with
      | waits alone => cases waits.symm.trans alone.alone
      | calls calls =>
          cases waits.symm.trans calls.pending
          exact .calls calls (ih others)

namespace RunConfig

variable {config : RunConfig σ} {function : FunctionId} {chain base : List Frame} {frame : Frame} {state : Running σ}

/-- An execution on saved frames leaves the base, and above it frames that fit. -/
theorem execute_rises (sound : config.image.Sound) (saved : config.image.Saved function chain)
    (above : state.actor.stack = chain ++ base) :
    config.image.Rises base (stackAfter (config.execute function state)) := by
  have ends := executeWithin_above sound (config.depthLimit + 1) saved above
  unfold Ends at ends
  unfold execute stackAfter
  cases ran : config.executeWithin (config.depthLimit + 1) function state with
  | ok result after =>
      rw [ran] at ends
      exact ends.rises
  | error stop after =>
      rw [ran] at ends
      exact ends

/-- Whatever the program has made fits. -/
theorem Made.fits (sound : config.image.Sound) (made : config.Made frame) : config.image.Fits frame := by
  induction made with
  | started starts =>
      obtain ⟨frame, saved, pushed⟩ := Actor.startCall_saved sound starts
      obtain rfl := (List.cons.inj (congrArg Actor.stack pushed)).1
      exact saved.fits _ (List.mem_singleton.mpr rfl)
  | @left function frame chain base above state chained _ stack ends member ih =>
      obtain ⟨other, same, fit⟩ := execute_rises sound (chained.saved ih) stack
      obtain rfl := List.append_cancel_right (ends.symm.trans same)
      exact fit frame member

theorem execute_keepsStack (sound : config.image.Sound) (saved : config.image.Saved function chain)
    (above : state.actor.stack = chain ++ base) :
    config.image.KeepsStack function base (config.execute function state) := by
  have ends := executeWithin_above sound (config.depthLimit + 1) saved above
  obtain ⟨upper, same, fit⟩ := execute_rises sound saved above
  have handed {result : Continuation} {after : Running σ} (ran : config.execute function state = .ok result after) :=
    ends.ok ran
  constructor
  case returns => exact fun value locals after ran => (handed ran).1
  case suspends =>
    intro reason after ran waits
    obtain ⟨chain, left, stack⟩ := handed ran
    obtain ⟨lowest, last, parked⟩ := left.lowest waits
    exact ⟨chain, lowest, stack, (left.saved waits).chained, fun frame member => (left.fits frame member).tidy sound,
      last, parked⟩
  case rises => exact ⟨upper, same, fun frame member => (fit frame member).tidy sound⟩
  case unlabelled =>
    intro routine found none
    refine ⟨fun reason after ran => ?_, fun other same' frame member own => ?_⟩
    · obtain ⟨chain, left, stack⟩ := handed ran
      obtain rfl : chain = [] := by
        by_contra nonempty
        have labelled := left.labelled sound nonempty found
        omega
      cases left with
      | gone final => exact ⟨final, stack⟩
    · obtain rfl := List.append_cancel_right (same'.symm.trans same)
      obtain ⟨other, found', _, bound⟩ := (fit frame member).tidy sound
      rw [own] at found'
      cases found.symm.trans found'
      have zero : frame.label.number = 0 := by omega
      exact congrArg LabelId.mk zero

end RunConfig

namespace Program

/-- Whatever lies below a chain of frames that the program has made, an execution of the function on top of the
chain leaves it there. If it returns, the chain is gone; if it waits for the scheduler, there is such a chain
again, whose innermost frame comes back behind the yield; and a function without labels saves no frame. -/
theorem lowered_code_keeps_call_stack {program : Program} {options : LowerOptions} {config : RunConfig σ}
    (accepted : program.lower options = .ok config.image) {function : FunctionId} {chain base : List Frame}
    (chained : Frame.Chained function chain) (made : ∀ frame ∈ chain, config.Made frame) {state : Running σ}
    (above : state.actor.stack = chain ++ base) :
    config.image.KeepsStack function base (config.execute function state) := by
  have sound := lower_sound accepted
  have saved := chained.saved fun frame member => (made frame member).fits sound
  exact config.execute_keepsStack sound saved above

/-- The sample game while `play` waits for `toss`, and `toss` for the environment, above a frame of another program. -/
theorem game_keeps_call_stack : ∃ (config : RunConfig Unit) (chain base : List Frame) (state : Running Unit),
    Sample.game.lower {} = .ok config.image ∧ chain.length = 2 ∧ base.length = 1 ∧ Frame.Chained ⟨0⟩ chain ∧
    (∀ frame ∈ chain, config.Made frame) ∧ state.actor.stack = chain ++ base ∧
    config.image.KeepsStack ⟨0⟩ base (config.execute ⟨0⟩ state) := by
  let config : RunConfig Unit := ⟨Sample.image, fun _ _ _ => .ok (), 3, 100⟩
  let player (answer : Option Bool) (stack : List Frame) : Running Unit :=
    ⟨.empty, ⟨⟨0⟩, ⟨0⟩, "Player", [], .null, .null, none, [], ⟨answer, none⟩, stack⟩, (), 0⟩
  let foreign : Frame := ⟨⟨7⟩, [], ⟨3⟩, none, []⟩
  let fresh : Frame := .atStart ⟨0⟩ [.bool false]
  let asking : Frame := ⟨⟨0⟩, [.bool false], ⟨2⟩, none, []⟩
  let calling : Frame := ⟨⟨0⟩, [.bool false], ⟨1⟩, some ⟨1⟩, [true]⟩
  let tossing : Frame := ⟨⟨1⟩, [], ⟨1⟩, none, []⟩
  have accepted : Sample.game.lower {} = .ok config.image := rfl
  have started : config.Made fresh := .started (show (Actor.startCall config.image ⟨0⟩ [] (player none []).actor).run .empty
    = .ok ((player none []).actor.push fresh, .empty) from rfl)
  have asked : stackAfter (config.execute ⟨0⟩ (player none ([fresh] ++ [foreign]))) = [asking] ++ [foreign] := by
    decide +kernel
  have first : Frame.Chained fresh.function [fresh] := .innermost rfl
  have made : config.Made asking := .left first (by simpa using started) rfl asked (by simp)
  have called : stackAfter (config.execute ⟨0⟩ (player (some true) ([asking] ++ [foreign])))
      = [calling, tossing] ++ [foreign] := by
    decide +kernel
  have second : Frame.Chained asking.function [asking] := .innermost rfl
  have inner : Frame.Chained tossing.function [tossing] := .innermost rfl
  have chained : Frame.Chained calling.function [calling, tossing] := .caller rfl inner
  have all (frame : Frame) (member : frame ∈ [calling, tossing]) : config.Made frame :=
    .left second (by simpa using made) rfl called member
  exact ⟨config, [calling, tossing], [foreign], player (some true) _, accepted, rfl, rfl, chained, all, rfl,
    lowered_code_keeps_call_stack accepted chained all rfl⟩

end Program

end Reentry
