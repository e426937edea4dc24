import Reentry.Execution.Run
import Reentry.Proofs.Frames.Scoped
import Reentry.Proofs.Structure.Control

/-!
Images of lowered programs: every routine is found under the identifier of its function, its code follows
a sound outline, and its frames have a slot for each parameter.
-/

namespace Reentry

/-- Functions that an image has a routine for. -/
def Image.Knows (image : Image) (function : FunctionId) : Prop := (image.routine? function).isSome

/-- A routine that can run among the routines of an image. -/
structure Routine.Sound (image : Image) (function : FunctionId) (routine : Routine) : Prop where
  own : routine.shape.function = function
  slots : routine.shape.paramCount ≤ routine.shape.slotCount
  laid : routine.Laid
  counted : ∀ label place, routine.landing? label = some place → label.number ≤ routine.labelCount
  body : ∃ rank outline, Follows routine rank 0 outline ∧ Outline.Sound image.Knows [] none outline

def Image.Sound (image : Image) : Prop :=
  ∀ function routine, image.routine? function = some routine → routine.Sound image function

theorem FrameShape.of_eq_ok {function : FunctionId} {info : FunctionInfo} {shape : FrameShape}
    (succeeds : FrameShape.of function info = .ok shape) :
    shape.function = function ∧ shape.paramCount ≤ shape.slotCount := by
  unfold FrameShape.of at succeeds
  by_cases tooMany : info.slotCount.toNat < info.params.length + info.locals.length
  · simp only [tooMany, if_true] at succeeds
    cases succeeds
  · simp only [tooMany, if_false] at succeeds
    cases checked : checkSlots info.name 0 (info.params ++ info.locals) with
    | error cause => simp [checked, bind, Except.bind] at succeeds
    | ok _ =>
        simp only [checked, bind, Except.bind, pure, Except.pure, Except.ok.injEq] at succeeds
        subst succeeds
        exact ⟨rfl, by simp [slotCount]⟩

namespace Program

variable {program : Program} {options : LowerOptions} {image : Image}

theorem lower_eq_ok (succeeds : program.lower options = .ok image) :
    program.functionIds.mapM (fun id => program.lowerFunction id options) = .ok image.routines := by
  unfold Program.lower at succeeds
  cases lowered : program.functionIds.mapM (fun id => program.lowerFunction id options) with
  | error cause =>
      rw [lowered] at succeeds
      cases succeeds
  | ok routines =>
      rw [lowered] at succeeds
      cases succeeds
      rfl

theorem functionIds_getElem? (program : Program) (function : FunctionId) :
    program.functionIds[function.index.toNat]? = (program.function? function).map fun _ => function := by
  unfold functionIds
  rw [List.getElem?_map]
  by_cases inside : function.index.toNat < program.functions.length
  · rw [List.getElem?_range inside]
    simp [function?, inside]
  · have outside : program.functions.length ≤ function.index.toNat := Nat.le_of_not_lt inside
    rw [List.getElem?_eq_none (by simpa using outside)]
    simp [function?, List.getElem?_eq_none outside]

/-- The routine of a function is what lowering the function gives. -/
theorem lower_routine? (succeeds : program.lower options = .ok image) (function : FunctionId) :
    (program.Knows function ↔ image.Knows function) ∧
      ∀ routine, image.routine? function = some routine → program.lowerFunction function options = .ok routine := by
  obtain ⟨present, absent⟩ := mapM_getElem? (lower_eq_ok succeeds) function.index.toNat
  rw [functionIds_getElem?] at present absent
  cases known : program.function? function with
  | some info =>
      rw [known] at present
      obtain ⟨routine, lowered, found⟩ := present function rfl
      refine ⟨by simp [Program.Knows, Image.Knows, Image.routine?, known, found], fun other same => ?_⟩
      rw [Image.routine?, found] at same
      cases same
      exact lowered
  | none =>
      rw [known] at absent
      have missing : image.routine? function = none := absent rfl
      refine ⟨by simp [Program.Knows, Image.Knows, known, missing], fun other same => ?_⟩
      rw [missing] at same
      cases same

/-- The routines of a lowered program are sound. -/
theorem lower_sound (succeeds : program.lower options = .ok image) : image.Sound := by
  intro function routine found
  have lowered := (lower_routine? succeeds function).2 routine found
  have same : program.Knows = image.Knows := by
    funext other
    exact propext (lower_routine? succeeds other).1
  obtain ⟨laid, outline, rank, outlined, follows⟩ := lowerFunction_follows lowered
  obtain ⟨info, shape, code, labelCount, _, shaped, _, assembled⟩ := lowerFunction_eq_ok lowered
  obtain ⟨_, ownShape, _⟩ := Routine.assemble_eq_ok assembled
  obtain ⟨own, slots⟩ := FrameShape.of_eq_ok shaped
  refine ⟨by rw [ownShape, own], by rw [ownShape]; exact slots, laid,
    fun _ _ leads => (Routine.assemble_landing?_eq assembled leads).1, rank, outline, follows, ?_⟩
  rw [← same]
  exact outline_sound outlined

end Program

end Reentry

/-!
Saved frames. The frames of a call that waits are a chain: the frame of the caller first, then, if the
caller waits for a callee, the chain of that callee. Each frame has the slots of its function and comes
back at a position from which the code follows a sound outline.
-/

namespace Reentry

namespace Routine

/-- Position at which a frame with this label is entered. -/
def entrance? (routine : Routine) (label : LabelId) : Option Nat :=
  if label.isStart then some 0 else routine.landing? label

theorem isStart_of_landing? {routine : Routine} {label : LabelId} {position : Nat}
    (leads : routine.landing? label = some position) : label.isStart = false := by
  cases start : label.number with
  | zero => simp [landing?, start] at leads
  | succ number => simp [LabelId.isStart, start]

theorem entrance?_of_landing? {routine : Routine} {label : LabelId} {position : Nat}
    (leads : routine.landing? label = some position) : routine.entrance? label = some position := by
  simp only [entrance?, isStart_of_landing? leads, leads, Bool.false_eq_true, if_false]

end Routine

/-- The reason that the scheduler gets to know for a question. -/
def Question.Gives : Question → YieldReason → Prop
  | .send, reason => reason = .send
  | .receive, reason => reason = .receive
  | .new machine _, reason => ∃ payload, reason = .new machine payload
  | .nondet, reason => reason = .nondet

namespace Image

variable (image : Image)

/-- A frame of a routine that goes on by itself when it is entered. -/
structure Waits (routine : Routine) (frame : Frame) (position : Nat) : Prop where
  known : image.routine? frame.function = some routine
  slots : frame.locals.length = routine.shape.slotCount
  entry : routine.entrance? frame.label = some position
  alone : frame.pendingCall = none
  goesOn : ∃ rank recorded outline, Follows routine rank position outline ∧
    Outline.Sound image.Knows recorded none outline ∧ ∀ number ∈ recorded, number < frame.choices.length

/-- What comes behind the invocation of a callee. -/
structure Expects (routine : Routine) (callee : FunctionId) (landing : LabelId) (choices : List Bool)
    (place : Nat) : Prop where
  known : image.Knows callee
  leads : routine.landing? landing = some place
  label : routine.body[place]? = some (.label landing)
  invoke : routine.body[place + 1]? = some (.invoke callee)
  propagate : routine.body[place + 2]? = some (.propagateSuspension callee landing)
  goesOn : ∃ rank recorded count outline, Follows routine rank (place + 3) outline ∧
    Outline.Sound image.Knows recorded (some count) outline ∧ (∀ number ∈ recorded, number < choices.length) ∧
    ∀ other, image.routine? callee = some other → count ≤ other.shape.slotCount

/-- A frame of a routine that enters the frame of its callee first. -/
structure Calls (routine : Routine) (frame : Frame) (callee : FunctionId) (place : Nat) : Prop where
  known : image.routine? frame.function = some routine
  slots : frame.locals.length = routine.shape.slotCount
  pending : frame.pendingCall = some callee
  expects : image.Expects routine callee frame.label frame.choices place

/-- The saved frames of a call of a function, the caller's first. -/
inductive Saved : FunctionId → List Frame → Prop
  | waits {routine frame position} (waits : image.Waits routine frame position) : Saved frame.function [frame]
  | calls {routine frame callee place below} (calls : image.Calls routine frame callee place)
      (inner : Saved callee below) : Saved frame.function (frame :: below)

/-- A stack of the frames of several calls, the one started last on top. -/
inductive Stacked : List Frame → Prop
  | nil : Stacked []
  | call {function chain below} (saved : image.Saved function chain) (rest : Stacked below) : Stacked (chain ++ below)

/-- The frames that a call leaves when it gives up control, the caller's first. The call that asks for
something leaves a frame, unless it ends for good; those that wait for it always do. -/
inductive Left : FunctionId → YieldReason → List Frame → Prop
  | gone {function reason} (final : reason.isTerminal = true) : Left function reason []
  | asked {routine frame place} {question : Question} {reason} (waits : image.Waits routine frame (place + 2))
      (yields : routine.body[place]? = some (.yield (question.request frame.label)))
      (leads : routine.landing? frame.label = some (place + 2)) (gives : question.Gives reason) :
      Left frame.function reason [frame]
  | calls {routine frame callee place below reason} (calls : image.Calls routine frame callee place)
      (inner : Left callee reason below) : Left frame.function reason (frame :: below)

/-- What a call hands back and the frames that it leaves above those that were there before it. -/
def Handed (function : FunctionId) (base : List Frame) : Continuation → List Frame → Prop
  | .completed _ locals, stack => stack = base ∧
      ∀ routine, image.routine? function = some routine → locals.length = routine.shape.slotCount
  | .suspended reason, stack => ∃ chain, image.Left function reason chain ∧ stack = chain ++ base

end Image

namespace Image.Saved

variable {image : Image} {function : FunctionId} {chain : List Frame}

/-- On top of the frames of a call is the frame of its function. -/
theorem head (saved : image.Saved function chain) : ∃ frame below, chain = frame :: below ∧ frame.function = function := by
  cases saved with
  | waits _ => exact ⟨_, _, rfl, rfl⟩
  | calls _ _ => exact ⟨_, _, rfl, rfl⟩

theorem known (saved : image.Saved function chain) : image.Knows function := by
  cases saved with
  | waits waits => exact Option.isSome_iff_exists.mpr ⟨_, waits.known⟩
  | calls calls _ => exact Option.isSome_iff_exists.mpr ⟨_, calls.known⟩

end Image.Saved

namespace Image

variable {image : Image} {function : FunctionId} {chain base stack : List Frame} {reason : YieldReason}

theorem Left.saved (left : image.Left function reason chain) (waits : reason.isTerminal = false) :
    image.Saved function chain := by
  induction left with
  | gone final =>
      rw [waits] at final
      cases final
  | asked fits _ _ _ => exact .waits fits
  | calls calls _ ih => exact .calls calls (ih waits)

theorem Handed.saved (handed : image.Handed function base (.suspended reason) stack) (waits : reason.isTerminal = false) :
    ∃ chain, image.Saved function chain ∧ stack = chain ++ base := by
  obtain ⟨chain, left, above⟩ := handed
  exact ⟨chain, left.saved waits, above⟩

end Image

end Reentry
