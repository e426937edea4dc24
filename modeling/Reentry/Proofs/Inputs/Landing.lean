import Reentry.Proofs.Frames.Stack
import Reentry.Proofs.Lowering.Statements
import Reentry.Proofs.Mail.Single
import Reentry.Proofs.Structure.Statements

/-!
Where inputs are taken. What the scheduler supplies to a call is taken by an instruction that stands right behind the
label at which the call comes back: a choice is recorded, an instance is stored, an event is dispatched. Control gets to
such an instruction in no other way, for the label stands behind the exit, and nothing else leads to it.
-/

namespace Reentry

/-- What a call takes when it comes back. -/
inductive Input where
  | choice
  | machine
  /-- An event, for a receive with cases of these events. -/
  | event (events : List CaseEvent)
deriving DecidableEq

/-- The input that the instruction takes. -/
def Instr.input? : Instr → Option Input
  | .recordChoice _ => some .choice
  | .readCreated _ => some .machine
  | .dispatchReceive arms => some (.event (arms.map ReceiveArm.event))
  | _ => none

/-- What a call may take that has been suspended for this reason. The instance that has been created is taken only if
the program has a place for it. -/
def YieldReason.Wants : YieldReason → Option Input → Prop
  | .nondet, input => input = some .choice
  | .new _ _, input => input = some .machine ∨ input = none
  | .receive, input => ∃ events, input = some (.event events)
  | .send, input | .goto, input | .raise, input | .pop, input => input = none

/-- Whether the instruction takes no input, keeps to its own call and leads to marks only, if it leads anywhere. -/
def Instr.isInner : Instr → Bool
  | .jump (.label _) | .jumpUnless _ (.label _) | .dispatchReceive _ | .readCreated _ | .recordChoice _ | .pushFrame ..
  | .invoke _ | .propagateSuspension .. | .yield _ | .exit => false
  | _ => true

namespace Instr

variable {instr : Instr}

theorem input?_of_isInner (inner : instr.isInner) : instr.input? = none := by
  cases instr <;> first | rfl | cases inner

theorem of_takesAnswer (takes : instr.takesAnswer) : (∃ number, instr = .recordChoice number) ∨ ∃ dest, instr = .readCreated dest := by
  cases instr with
  | recordChoice number => exact .inl ⟨number, rfl⟩
  | readCreated dest => exact .inr ⟨dest, rfl⟩
  | _ => cases takes

theorem takesAnswer_of_isInner (inner : instr.isInner) : instr.takesAnswer = false := by
  cases instr <;> first | rfl | cases inner

theorem keepsControl_of_isInner (inner : instr.isInner) : instr.keepsControl := by
  cases instr <;> first | rfl | cases inner

theorem mark_of_isInner {target : Target} (inner : instr.isInner) (member : target ∈ instr.targets) : ∃ mark, target = .mark mark := by
  cases instr with
  | jump own | jumpUnless _ own =>
      obtain rfl := List.mem_singleton.mp member
      cases target with
      | label _ => cases inner
      | mark mark => exact ⟨mark, rfl⟩
  | dispatchReceive _ | propagateSuspension _ _ | «yield» _ => cases inner
  | _ => cases member

end Instr

/-- Code that takes this input first, if any, and then takes none but right behind the label of a yield that asks for it. -/
inductive Prompt : Option Input → List Instr → Prop
  | nil : Prompt none []
  | inner {instr code} (inner : instr.isInner) (rest : Prompt none code) : Prompt none (instr :: code)
  | leave {request code} (final : request.question? = none) (rest : Prompt none code) : Prompt none (.yield request :: .exit :: code)
  | ask {question : Question} {resume input code} (wants : ∀ reason, question.Gives reason → reason.Wants input)
      (rest : Prompt input code) : Prompt none (.yield (question.request resume) :: .exit :: .label resume :: code)
  | call {callee args landing code} (rest : Prompt none code) :
      Prompt none (.pushFrame callee args :: .label landing :: .invoke callee :: .propagateSuspension callee landing :: code)
  | take {instr code} (takes : instr.takesAnswer) (rest : Prompt none code) : Prompt instr.input? (instr :: code)
  | dispatch {arms done code} (rest : Prompt none code) : Prompt (some (.event (arms.map ReceiveArm.event)))
      (.dispatchReceive arms :: (arms.flatMap (Template.receiveArm done) ++ .label done :: code))

namespace Prompt

variable {input : Option Input} {first rest code : List Instr}

theorem append (left : Prompt input first) (right : Prompt none rest) : Prompt input (first ++ rest) := by
  induction left with
  | nil => exact right
  | inner inner _ ih => exact .inner inner ih
  | leave final _ ih => exact .leave final ih
  | ask wants _ ih => exact .ask wants ih
  | call _ ih => exact .call ih
  | take takes _ ih => exact .take takes ih
  | dispatch _ ih =>
      rw [List.cons_append, List.append_assoc]
      exact .dispatch ih

theorem map {α : Type} {items : List α} {instr : α → Instr} (inner : ∀ item, (instr item).isInner) : Prompt none (items.map instr) := by
  induction items with
  | nil => exact .nil
  | cons item rest ih => exact .inner (inner item) ih

theorem suspend {question : Question} (resume : LabelId) (wants : ∀ reason, question.Gives reason → reason.Wants input)
    (rest : Prompt input code) : Prompt none (Template.suspend (question.request resume) resume ++ code) := .ask wants rest

theorem receive (after done : LabelId) (arms : List ReceiveArm) : Prompt none (Template.receive after done arms) := by
  have waits : Prompt none (arms.map fun arm => Instr.registerReceive arm.event) := .map fun _ => rfl
  have dispatches : Prompt _ (.dispatchReceive arms :: (arms.flatMap (Template.receiveArm done) ++ [.label done])) := .dispatch .nil
  have asks := @suspend _ _ .receive after (fun reason gives => gives ▸ ⟨_, rfl⟩) dispatches
  have same : Template.receive after done arms = (arms.map fun arm => Instr.registerReceive arm.event) ++
      (Template.suspend (Question.receive.request after) after ++
        .dispatchReceive arms :: (arms.flatMap (Template.receiveArm done) ++ [.label done])) := by
    simp [Template.receive, Question.request]
  rw [same]
  exact waits.append asks

theorem composes : Composes (Prompt none) where
  nil := .nil
  append := append
  waypoint {instr} waypoint := by
    cases instr with
    | mark _ => exact .inner rfl .nil
    | jump target => cases target <;> first | exact .inner rfl .nil | cases waypoint
    | _ => cases waypoint
  choose resume choice := @suspend _ _ .nondet resume (fun reason gives => gives ▸ rfl) (@take (.recordChoice choice) _ rfl .nil)
  receive := receive

end Prompt

open Lower

variable {scope : Lowering.Scope} {start stop : Lowering.Progress} {inNew : Bool} {access : Access} {span : Span} {code : List Instr}

/-- The code of a statement without inner statements. -/
theorem NodeKind.single_prompt {kind : NodeKind} (single : kind.isStructured = false)
    (succeeds : kind.lower inNew access span scope start = .ok (.code code, stop)) : Prompt none code := by
  cases lower_written single succeeds with
  | @send _ _ _ _ _ _ _ _ resume =>
      exact .inner rfl (.inner rfl (@Prompt.suspend _ _ .send resume (fun reason gives => gives ▸ rfl) .nil))
  | @new machine _ _ _ dest payload resume =>
      cases dest with
      | none =>
          refine @Prompt.suspend _ _ (.new machine payload) resume (fun reason gives => ?_) .nil
          obtain ⟨_, rfl⟩ := gives
          exact .inr rfl
      | some dest =>
          refine @Prompt.suspend _ _ (.new machine payload) resume (fun reason gives => ?_) (@Prompt.take (.readCreated dest) _ rfl .nil)
          obtain ⟨_, rfl⟩ := gives
          exact .inl rfl
  | call =>
      unfold Template.call
      rw [List.append_assoc]
      exact .call ((Prompt.map fun _ => rfl).append (.map fun _ => rfl))
  | @ret _ operand => cases operand <;> exact .leave rfl .nil
  | raise | goto => exact .inner rfl (.inner rfl (.inner rfl (.leave rfl .nil)))
  | pop => exact .inner rfl (.inner rfl (.leave rfl .nil))
  | announce | assert | print | remove | insert => exact .inner rfl .nil
  | assign _ _ assigns =>
      exact assigns.elim (fun _ _ _ => .inner rfl .nil) (fun _ _ => .inner rfl .nil) (fun _ _ _ => .inner rfl .nil)
        fun _ _ => .inner rfl .nil

theorem Prompt.covers (scope : Lowering.Scope) : Composes.Covers (Prompt none) scope (fun _ => True) fun _ => True where
  toComposes := composes
  single single _ := NodeKind.single_prompt single
  test _ _ _ := .inner rfl .nil

end Reentry

/-!
Where calls come back. Behind a label at which a call is entered again there is either what takes the input for which
the call has been suspended, or the invocation of a callee that has been suspended itself.
-/

namespace Reentry

/-- At this position no input is taken next: there is such code, or a jump to a label in front of some. -/
inductive PromptFrom (body : List Instr) (position : Nat) : Prop
  | here (rest : Prompt none (body.drop position))
  | hop {done place} (jump : body[position]? = some (.jump (.label done))) (there : body[place]? = some (.label done))
      (rest : Prompt none (body.drop place))

/-- At this place the callee is invoked behind the label at which its caller comes back. -/
structure Invokes (body : List Instr) (callee : FunctionId) (landing : LabelId) (place : Nat) : Prop where
  label : body[place]? = some (.label landing)
  invoke : body[place + 1]? = some (.invoke callee)
  propagate : body[place + 2]? = some (.propagateSuspension callee landing)
  next : PromptFrom body (place + 3)

/-- What there is behind the label at this place. -/
inductive Lands (body : List Instr) (landing : LabelId) (place : Nat) : Prop
  | goesOn {input} (rest : Prompt input (body.drop (place + 1)))
  | calls {callee} (invokes : Invokes body callee landing place)

section

variable {body code : List Instr} {position place count : Nat} {callee : FunctionId} {landing : LabelId} {input : Option Input}

theorem getElem?_under (body : List Instr) (count position : Nat) : (body.drop count)[position]? = body[position + count]? := by
  rw [List.getElem?_drop, Nat.add_comm]

theorem drop_under (body : List Instr) (count position : Nat) : (body.drop count).drop position = body.drop (position + count) := by
  rw [List.drop_drop, Nat.add_comm]

theorem PromptFrom.under (next : PromptFrom (body.drop count) position) : PromptFrom body (position + count) := by
  cases next with
  | here rest => exact .here (by rwa [drop_under] at rest)
  | hop jump there rest =>
      rw [getElem?_under] at jump there
      exact .hop jump there (by rwa [drop_under] at rest)

theorem Invokes.under (invokes : Invokes (body.drop count) callee landing place) : Invokes body callee landing (place + count) := by
  have shift (offset : Nat) : place + offset + count = place + count + offset := by omega
  obtain ⟨label, invoke, propagate, next⟩ := invokes
  rw [getElem?_under] at label invoke propagate
  exact ⟨label, shift 1 ▸ invoke, shift 2 ▸ propagate, shift 3 ▸ next.under⟩

theorem Lands.under (lands : Lands (body.drop count) landing place) : Lands body landing (place + count) := by
  cases lands with
  | goesOn rest =>
      rw [drop_under] at rest
      exact .goesOn (by rwa [show place + 1 + count = place + count + 1 by omega] at rest)
  | calls invokes => exact .calls invokes.under

end

/-! The arms of a receive: behind each there is a jump to the code behind all of them. -/

section

variable {code : List Instr} {done landing : LabelId} {arms : List ReceiveArm} {arm : ReceiveArm} {place : Nat}

theorem receiveArms_next (rest : Prompt none code)
    (jump : (arms.flatMap (Template.receiveArm done) ++ .label done :: code)[place]? = some (.jump (.label done))) :
    PromptFrom (arms.flatMap (Template.receiveArm done) ++ .label done :: code) place := by
  have behind : (arms.flatMap (Template.receiveArm done) ++ .label done :: code).drop (arms.flatMap (Template.receiveArm done)).length
      = .label done :: code := List.drop_left
  exact .hop jump (Env.drop_cons behind).1 (by rw [behind]; exact .inner rfl rest)

theorem receiveArms_first (rest : Prompt none code) :
    Invokes ((arm :: arms).flatMap (Template.receiveArm done) ++ .label done :: code) arm.handler arm.entry 0 :=
  ⟨rfl, rfl, rfl, receiveArms_next rest rfl⟩

theorem receiveArms_under {first : ReceiveArm} :
    ((first :: arms).flatMap (Template.receiveArm done) ++ .label done :: code).drop 4
      = arms.flatMap (Template.receiveArm done) ++ .label done :: code := rfl

theorem receiveArms_invokes (rest : Prompt none code) (member : arm ∈ arms) :
    ∃ place, Invokes (arms.flatMap (Template.receiveArm done) ++ .label done :: code) arm.handler arm.entry place := by
  induction arms with
  | nil => cases member
  | cons first others ih =>
      rcases List.mem_cons.mp member with rfl | among
      · exact ⟨0, receiveArms_first rest⟩
      · obtain ⟨place, invokes⟩ := ih among
        rw [← receiveArms_under] at invokes
        exact ⟨place + 4, invokes.under⟩

/-- Every label among the arms and behind them is one at which a call may come back. -/
theorem receiveArms_lands (rest : Prompt none code)
    (lands : ∀ landing place, code[place]? = some (.label landing) → Lands code landing place)
    (here : (arms.flatMap (Template.receiveArm done) ++ .label done :: code)[place]? = some (.label landing)) :
    Lands (arms.flatMap (Template.receiveArm done) ++ .label done :: code) landing place := by
  induction arms generalizing place with
  | nil =>
      cases place with
      | zero => exact .goesOn rest
      | succ place => exact @Lands.under (.label done :: code) _ 1 _ (lands landing place here)
  | cons first others ih =>
      match place with
      | 0 =>
          obtain rfl : first.entry = landing := by simpa [Template.receiveArm] using here
          exact .calls (receiveArms_first rest)
      | 1 | 2 | 3 => simp [Template.receiveArm] at here
      | place + 4 =>
          have inner := @ih place here
          rw [← receiveArms_under] at inner
          exact inner.under

end

namespace Prompt

variable {input : Option Input} {code : List Instr} {landing : LabelId} {place : Nat}

/-- At every label in such code a call may come back. -/
theorem lands (prompt : Prompt input code) (here : code[place]? = some (.label landing)) : Lands code landing place := by
  induction prompt generalizing place landing with
  | nil => simp at here
  | @inner instr rest inner prompt ih =>
      cases place with
      | zero => exact .goesOn prompt
      | succ place => exact @Lands.under (instr :: rest) _ 1 _ (ih here)
  | @leave request rest final prompt ih =>
      match place with
      | 0 | 1 => simp at here
      | place + 2 => exact @Lands.under (.yield request :: .exit :: rest) _ 2 _ (ih here)
  | @ask question resume _ rest wants prompt ih =>
      match place with
      | 0 | 1 => simp at here
      | 2 => exact .goesOn prompt
      | place + 3 => exact @Lands.under (.yield (question.request resume) :: .exit :: .label resume :: rest) _ 3 _ (ih here)
  | @call callee args landing' rest prompt ih =>
      match place with
      | 0 | 2 | 3 => simp at here
      | 1 =>
          obtain rfl : landing' = landing := by simpa using here
          exact .calls ⟨rfl, rfl, rfl, .here prompt⟩
      | place + 4 =>
          exact @Lands.under (.pushFrame callee args :: .label landing' :: .invoke callee :: .propagateSuspension callee landing' :: rest)
            _ 4 _ (ih here)
  | @take instr rest takes prompt ih =>
      cases place with
      | zero =>
          obtain rfl : instr = .label landing := by simpa using here
          cases takes
      | succ place => exact @Lands.under (instr :: rest) _ 1 _ (ih here)
  | @dispatch arms done rest prompt ih =>
      cases place with
      | zero => simp at here
      | succ place =>
          exact @Lands.under (.dispatchReceive arms :: (arms.flatMap (Template.receiveArm done) ++ .label done :: rest)) _ 1 _
            (receiveArms_lands prompt (fun _ _ found => ih found) here)

/-- From a mark on, no input is taken next. -/
theorem drop_mark {mark : MarkId} (prompt : Prompt input code) (here : code[place]? = some (.mark mark)) :
    Prompt none (code.drop place) := by
  induction prompt generalizing place with
  | nil => simp at here
  | inner inner rest ih =>
      cases place with
      | zero => exact .inner inner rest
      | succ place => exact ih here
  | leave _ _ ih =>
      match place with
      | 0 | 1 => simp at here
      | place + 2 => exact ih here
  | ask _ _ ih =>
      match place with
      | 0 | 1 | 2 => simp at here
      | place + 3 => exact ih here
  | call _ ih =>
      match place with
      | 0 | 1 | 2 | 3 => simp at here
      | place + 4 => exact ih here
  | @take instr _ takes _ ih =>
      cases place with
      | zero =>
          obtain rfl : instr = .mark mark := by simpa using here
          cases takes
      | succ place => exact ih here
  | @dispatch arms done rest prompt ih =>
      cases place with
      | zero => simp at here
      | succ place =>
          -- no arm has a mark, so the mark stands behind all of them
          induction arms generalizing place with
          | nil =>
              cases place with
              | zero => simp at here
              | succ place => exact ih here
          | cons first others each =>
              match place with
              | 0 | 1 | 2 | 3 => simp [Template.receiveArm] at here
              | place + 4 => exact @each place here

end Prompt

/-- A routine of prompt code whose labels and marks are where it says. -/
structure Routine.IsPrompt (routine : Routine) : Prop where
  laid : routine.Laid
  body : Prompt none routine.body
  labels : ∀ label place, routine.landing? label = some place → routine.body[place]? = some (.label label)
  marks : ∀ mark place, routine.position? (.mark mark) = some place → routine.body[place]? = some (.mark mark)

namespace Routine.IsPrompt

variable {routine : Routine} {label : LabelId} {mark : MarkId} {place : Nat}

theorem lands (prompt : routine.IsPrompt) (leads : routine.landing? label = some place) : Lands routine.body label place :=
  prompt.body.lands (prompt.labels label place leads)

theorem drop_mark (prompt : routine.IsPrompt) (leads : routine.position? (.mark mark) = some place) :
    Prompt none (routine.body.drop place) := prompt.body.drop_mark (prompt.marks mark place leads)

end Routine.IsPrompt

/-- An image of prompt routines, each under the identifier of its function. -/
def Image.IsPrompt (image : Image) : Prop := ∀ function routine, image.routine? function = some routine →
  routine.shape.function = function ∧ routine.IsPrompt

/-- The routines of a lowered program are prompt. -/
theorem Program.lower_prompt {program : Program} {options : LowerOptions} {image : Image} (succeeds : program.lower options = .ok image) :
    image.IsPrompt := by
  intro function routine found
  obtain ⟨info, shape, code, labelCount, _, _, _, assembled⟩ := lowerFunction_eq_ok ((lower_routine? succeeds function).2 routine found)
  have sound := lower_sound succeeds function routine found
  have body : Prompt none routine.body :=
    lower_composes succeeds (.leave rfl .nil) (fun info _ => info.body.every_trivial) (fun _ _ => Prompt.covers _) function routine found
  exact ⟨sound.own, sound.laid, body, fun _ _ leads => (Routine.assemble_landing?_eq assembled leads).2,
    fun _ _ leads => Routine.assemble_mark_eq assembled leads⟩

end Reentry
