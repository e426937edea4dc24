import Mathlib.Data.List.Nodup
import Reentry.Proofs.Frames.Run
import Reentry.Proofs.Receive.Mute

/-!
Where saved frames go on. The frames of a call that waits lead to its innermost frame, which is parked at a
receive or somewhere else. The actor waits for the events of that receive or for nothing.
-/

namespace Reentry

/-- Where the innermost of the saved frames of a call goes on. -/
inductive Spot where
  | elsewhere
  /-- At the start of its function. -/
  | start (frame : Frame)
  /-- At a receive of the function with these cases. -/
  | receive (function : FunctionId) (cases : List ReceiveCase)
  /-- Nowhere: the innermost call has given up its frame. -/
  | nowhere

namespace Spot

/-- What the actor waits for there. -/
def Awaited : Spot → List CaseEvent → Prop
  | .receive _ cases, awaited => Awaits cases awaited
  | .elsewhere, awaited | .start _, awaited | .nowhere, awaited => awaited = []

/-- Whether a call that is suspended for this reason goes on there. -/
def Follows : Spot → YieldReason → Prop
  | .elsewhere, reason => reason.isTerminal = false ∧ reason ≠ .receive
  | .start _, _ => False
  | .receive _ _, reason => reason = .receive
  | .nowhere, reason => reason.isTerminal

/-- Whether the journal tells that a call has gone on there. -/
def isTold : Spot → Bool
  | .start _ | .receive _ _ => true
  | .elsewhere | .nowhere => false

end Spot

namespace Image

variable (image : Image) (receives : FunctionId → List ReceiveCase → Prop)

/-- The code of each routine follows an outline that listens for the events of its receives. -/
def Listens : Prop :=
  ∀ function routine, image.routine? function = some routine → routine.shape.function = function ∧ routine.Laid ∧
    (∃ rank outline, Follows routine rank 0 outline ∧ Outline.Listens (receives function) [] outline) ∧
    ∀ cases, receives function cases → ∀ case ∈ cases, image.Knows case.handler

/-- The saved frames of a call, and where they go on. -/
inductive Parks : Spot → List Frame → Prop
  | gone : Parks .nowhere []
  | starts {routine frame rank outline} (known : image.routine? frame.function = some routine) (fresh : frame.label = .start)
      (follows : Follows routine rank 0 outline) (listens : Outline.Listens (receives frame.function) [] outline) :
      Parks (.start frame) [frame]
  | rests {routine frame position rank ahead} (known : image.routine? frame.function = some routine)
      (entry : routine.entrance? frame.label = some position) (follows : Follows routine rank position ahead)
      (listens : Outline.Listens (receives frame.function) [] ahead) : Parks .elsewhere [frame]
  | waits {routine frame position rank cases ahead} (known : image.routine? frame.function = some routine)
      (leads : routine.landing? frame.label = some position) (follows : Follows routine rank position (.dispatch cases :: ahead))
      (own : receives frame.function cases) (listens : Outline.Listens (receives frame.function) [] ahead) :
      Parks (.receive frame.function cases) [frame]
  | calls {routine frame callee place rank ahead spot below} (known : image.routine? frame.function = some routine)
      (leads : routine.landing? frame.label = some place) (label : routine.body[place]? = some (.label frame.label))
      (invoke : routine.body[place + 1]? = some (.invoke callee))
      (propagate : routine.body[place + 2]? = some (.propagateSuspension callee frame.label))
      (follows : Follows routine rank (place + 3) ahead) (listens : Outline.Listens (receives frame.function) [] ahead)
      (inner : Parks spot below) : Parks spot (frame :: below)

/-- What a call leaves behind above the frames that were there before it. -/
def Leaves {σ : Type} (base : List Frame) : Continuation → Running σ → Prop
  | .completed _ _, after => after.actor.stack = base ∧ after.actor.receiveSet = []
  | .suspended reason, after => ∃ spot chain, image.Parks receives spot chain ∧ after.actor.stack = chain ++ base ∧
      spot.Awaited after.actor.receiveSet ∧ spot.Follows reason

end Image

/-- Arguments of the handler of an event: a deep copy of the payload, if the handler has a parameter. -/
def FrameShape.handlerArguments (shape : FrameShape) (payload : Value) : Alloc (List Value) :=
  if shape.paramCount = 0 then pure [] else do pure [← payload.deepCopy]

/-- How a receive answers the event that has arrived: exactly one case accepts it, and its handler begins
with its own copy of the payload when no event is waited for any more. -/
structure Image.Serves (image : Image) (cases : List ReceiveCase) (heap : Heap) (actor : Actor) (start : Start) : Prop where
  chosen : ∃ case ∈ cases, case.handler = start.function ∧ case.event.accepts actor.trigger ∧
    ∀ other ∈ cases, other.event.accepts actor.trigger → other = case
  silent : start.actor = { actor with receiveSet := [] }
  locals : ∃ routine, image.routine? start.function = some routine ∧
    (routine.shape.createLocals ((routine.shape.handlerArguments actor.payload).run heap).1).run
      ((routine.shape.handlerArguments actor.payload).run heap).2 = .ok (start.locals, start.heap)

/-- A receive can answer an event: it accepts it, its cases have different events, and no handler has more
than one parameter. -/
structure Image.Answers (image : Image) (cases : List ReceiveCase) (event : Value) : Prop where
  accepted : ∃ case ∈ cases, case.event.accepts event
  distinct : (cases.map ReceiveCase.event).Nodup
  params : ∀ case ∈ cases, ∀ routine, image.routine? case.handler = some routine → routine.shape.paramCount ≤ 1

/-- Whether a run stops because the machine type or the number of active calls does not allow a call, or
because its steps have been used up. -/
def Stop.isRefusal : Stop → Bool
  | .failed (.internal _ (.wrongOwner _ _)) | .failed (.callDepthExceeded _) | .outOfSteps => true
  | _ => false

theorem Stop.missesCase_of_isRefusal {stop : Stop} (refused : stop.isRefusal) : stop.missesCase = false := by
  unfold isRefusal at refused
  split at refused <;> first | rfl | cases refused

/-- The next note says that this call begins. No receive chooses a handler from then on. -/
def Start.Begins (start : Start) (before after : List Note) : Prop :=
  ∃ starts : List Start, after = before ++ .start start :: starts.map .start

/-- A call that begins with a frame above those that were there before it. -/
def Running.opening {σ : Type} (state : Running σ) (frame : Frame) (base : List Frame) : Start :=
  ⟨frame.function, frame.locals, state.heap, { state.actor with stack := base }⟩

namespace Spot

variable {σ : Type} (image : Image) (base : List Frame)

/-- What a call that goes on there puts into the journal, above the frames that were there before it. -/
def Notes : Spot → Running (Noted σ) → Running (Noted σ) → Prop
  | .elsewhere, before, after => before.Quiet after
  | .start frame, before, after => (before.opening frame base).Begins before.journal after.journal
  | .receive function cases, before, after => ∃ (arms : List ReceiveArm) (start : Start), arms.map ReceiveArm.case = cases ∧
      image.Serves cases before.heap { before.actor with stack := base } start ∧
        start.Begins (before.journal ++ [.dispatch function arms]) after.journal
  | .nowhere, _, _ => False

/-- How a call that goes on there may fail: a call may be refused before it begins, and a receive fails if it
cannot answer the event. -/
def Fails : Spot → Running (Noted σ) → Stop → Running (Noted σ) → Prop
  | .elsewhere, before, stop, after | .nowhere, before, stop, after => stop.missesCase = false ∧ before.Quiet after
  | .start frame, before, stop, after =>
      (after.journal = before.journal ∧ stop.isRefusal) ∨
        (stop.missesCase = false ∧ Spot.Notes image base (.start frame) before after)
  | .receive function cases, before, stop, after =>
      (after.journal = before.journal ∧ (image.Answers cases before.actor.trigger → stop.isRefusal)) ∨
        (∃ arms : List ReceiveArm, arms.map ReceiveArm.case = cases ∧
          after.journal = before.journal ++ [.dispatch function arms] ∧ stop.isRefusal) ∨
        (stop.missesCase = false ∧ Spot.Notes image base (.receive function cases) before after)

/-- What is to be noted from one state on, if something else is to be noted from another one on. -/
structure Owes (spot : Spot) (before : Running (Noted σ)) (other : Spot) (middle : Running (Noted σ)) : Prop where
  notes : ∀ after, other.Notes image base middle after → spot.Notes image base before after
  fails : ∀ stop after, other.Fails image base middle stop after → spot.Fails image base before stop after

variable {image base} {spot other : Spot} {before middle after : Running (Noted σ)} {stop : Stop}

theorem Owes.refl : spot.Owes image base before spot before := ⟨fun _ => id, fun _ _ => id⟩

/-- The frames on top of the others and the number of active calls do not matter. -/
theorem Owes.of_entered (below : List Frame) (depth : Nat) :
    spot.Owes image base before spot { before with actor := { before.actor with stack := below }, depth } := by
  cases spot <;> exact ⟨fun _ => id, fun _ _ => id⟩

theorem Notes.quiet {frame : Frame} (notes : Spot.Notes image base (.start frame) before after) : before.Quiet after := by
  obtain ⟨starts, grown⟩ := notes
  exact ⟨_ :: starts, grown⟩

theorem Notes.still (notes : spot.Notes image base before middle) (quiet : middle.Quiet after) :
    spot.Notes image base before after := by
  obtain ⟨more, grown⟩ := quiet
  have begun {start : Start} {first : List Note} (begins : start.Begins first middle.journal) :
      start.Begins first after.journal := by
    obtain ⟨starts, told⟩ := begins
    exact ⟨starts ++ more, by rw [grown, told, List.map_append, List.append_assoc, List.cons_append]⟩
  cases spot with
  | elsewhere => exact Running.Quiet.trans notes ⟨more, grown⟩
  | start frame => exact begun notes
  | receive function cases =>
      obtain ⟨arms, start, same, serves, begins⟩ := notes
      exact ⟨arms, start, same, serves, begun begins⟩
  | nowhere => exact notes

theorem Notes.fails (notes : spot.Notes image base before middle) (hits : stop.missesCase = false)
    (quiet : middle.Quiet after) : spot.Fails image base before stop after := by
  cases spot with
  | elsewhere => exact ⟨hits, Running.Quiet.trans notes quiet⟩
  | start frame => exact .inr ⟨hits, notes.still quiet⟩
  | receive function cases => exact .inr (.inr ⟨hits, notes.still quiet⟩)
  | nowhere => exact notes.elim

/-- What is to be noted has been noted. -/
theorem Notes.owes (notes : spot.Notes image base before middle) : spot.Owes image base before .elsewhere middle :=
  ⟨fun _ quiet => notes.still quiet, fun _ _ ⟨hits, quiet⟩ => notes.fails hits quiet⟩

theorem Owes.quiet (quiet : before.Quiet middle) : Spot.Owes image base .elsewhere before .elsewhere middle :=
  @Notes.owes _ _ _ .elsewhere _ _ quiet

/-- A refusal that leaves the journal as it was. -/
theorem Fails.refused (refused : stop.isRefusal) (journal : after.journal = before.journal) :
    spot.Fails image base before stop after := by
  have hits := Stop.missesCase_of_isRefusal refused
  cases spot with
  | elsewhere | nowhere => exact ⟨hits, .same journal⟩
  | start frame => exact .inl ⟨journal, refused⟩
  | receive function cases => exact .inl ⟨journal, fun _ => refused⟩

/-- A new call, where nothing is told yet. -/
theorem Owes.start {frame : Frame} (quiet : before.Quiet middle) :
    Spot.Owes image base .elsewhere before (.start frame) middle := by
  refine ⟨fun after notes => quiet.trans notes.quiet, ?_⟩
  rintro stop after (⟨journal, refused⟩ | ⟨hits, notes⟩)
  · exact ⟨Stop.missesCase_of_isRefusal refused, quiet.trans (.same journal)⟩
  · exact ⟨hits, quiet.trans (Notes.quiet notes)⟩

/-- The call of a handler that a receive has chosen. -/
theorem Owes.handler {function : FunctionId} {arms : List ReceiveArm} {frame : Frame}
    (serves : image.Serves (arms.map ReceiveArm.case) before.heap { before.actor with stack := base } (middle.opening frame base))
    (journal : middle.journal = before.journal ++ [.dispatch function arms]) :
    Spot.Owes image base (.receive function (arms.map ReceiveArm.case)) before (.start frame) middle := by
  have told {after : Running (Noted σ)} (notes : Spot.Notes image base (.start frame) middle after) :
      Spot.Notes image base (.receive function (arms.map ReceiveArm.case)) before after :=
    ⟨arms, middle.opening frame base, rfl, serves, journal ▸ notes⟩
  refine ⟨fun after notes => told notes, ?_⟩
  rintro stop after (⟨same, refused⟩ | ⟨hits, notes⟩)
  · exact .inr (.inl ⟨arms, rfl, same.trans journal, refused⟩)
  · exact .inr (.inr ⟨hits, told notes⟩)

end Spot

/-- Two cases that accept the same event are cases of the same event. -/
theorem CaseEvent.accepts_unique {first second : CaseEvent} {event : Value} (left : first.accepts event)
    (right : second.accepts event) : first = second := by
  unfold accepts at left right
  grind

namespace Image.Answers

variable {image : Image} {cases : List ReceiveCase} {event : Value}

/-- Exactly one case accepts an event that can be answered. -/
theorem filter (answers : image.Answers cases event) : ∃ case, cases.filter (·.event.accepts event) = [case] := by
  obtain ⟨case, member, accepts⟩ := answers.accepted
  have within : case ∈ cases.filter (·.event.accepts event) := List.mem_filter.mpr ⟨member, accepts⟩
  have nodup : (cases.filter (·.event.accepts event)).Nodup := (List.Nodup.of_map _ answers.distinct).filter _
  have same (other : ReceiveCase) (among : other ∈ cases.filter (·.event.accepts event)) : other = case := by
    obtain ⟨present, accepts'⟩ := List.mem_filter.mp among
    exact List.inj_on_of_nodup_map answers.distinct present member (CaseEvent.accepts_unique accepts' accepts)
  generalize cases.filter (·.event.accepts event) = picked at within nodup same
  rcases picked with _ | ⟨first, _ | ⟨second, rest⟩⟩
  · cases within
  · exact ⟨first, rfl⟩
  · have first' := same first (by simp)
    have second' := same second (by simp)
    simp [first', second'] at nodup

end Image.Answers

end Reentry
