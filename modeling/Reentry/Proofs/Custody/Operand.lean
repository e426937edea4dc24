import Reentry.Execution.Operand
import Reentry.Proofs.Custody.Work
import Reentry.Proofs.Ownership.Run

/-!
Evaluation looks after the cells in hand. An operand either makes its value, and then nothing else names it, or it
finds its value in a place; what is found may only be packed or handed over where it may be named once more.
-/

namespace Reentry

mutual

/-- Whether nothing else names the value that the operand gives. -/
def Operand.isOwned : Operand → Bool
  | .load _ | .lookup _ _ _ | .part _ _ => false
  | .binary op _ _ => op != .index
  | .cast value _ => value.isOwned
  | .tuple items => allOwned items
  | .named fields => fieldsOwned fields
  | .const _ | .this | .clone _ | .unary _ _ | .default _ | .call _ _ | .choice _ => true

def allOwned : List Operand → Bool
  | [] => true
  | operand :: rest => operand.isOwned && allOwned rest

def fieldsOwned : List (String × Operand) → Bool
  | [] => true
  | (_, operand) :: rest => operand.isOwned && fieldsOwned rest

end

def argumentsOwned : List Argument → Bool
  | [] => true
  | .mk operand _ :: rest => operand.isOwned && argumentsOwned rest

mutual

/-- Whether what is found in a place is only packed or handed over where it may be named once more. -/
def Place.Fair (shares : Bool) : Place → Prop
  | .slot _ | .field _ | .trigger | .payload => True
  | .part base _ => base.Fair shares
  | .element base key _ => base.Fair shares ∧ key.Fair shares

def Operand.Fair (shares : Bool) : Operand → Prop
  | .const _ | .this | .default _ | .choice _ => True
  | .load place => place.Fair shares
  | .clone inner | .unary _ inner | .part inner _ | .cast inner _ => inner.Fair shares
  | .binary _ lhs rhs | .lookup lhs rhs _ => lhs.Fair shares ∧ rhs.Fair shares
  | .tuple items => AllFair shares items ∧ (shares = true ∨ allOwned items = true)
  | .named fields => FieldsFair shares fields ∧ (shares = true ∨ fieldsOwned fields = true)
  | .call _ args => ArgumentsFair shares args ∧ (shares = true ∨ argumentsOwned args = true)

def AllFair (shares : Bool) : List Operand → Prop
  | [] => True
  | operand :: rest => operand.Fair shares ∧ AllFair shares rest

def FieldsFair (shares : Bool) : List (String × Operand) → Prop
  | [] => True
  | (_, operand) :: rest => operand.Fair shares ∧ FieldsFair shares rest

def ArgumentsFair (shares : Bool) : List Argument → Prop
  | [] => True
  | .mk operand _ :: rest => operand.Fair shares ∧ ArgumentsFair shares rest

end

def YieldReason.stake : YieldReason → Stake
  | .new _ payload => ⟨[], [payload]⟩
  | .goto | .raise | .send | .receive | .nondet | .pop => .none

/-- What a call hands back: nothing else names the value that it returns. -/
def Continuation.stake : Continuation → Stake
  | .completed value locals => ⟨value.toList, locals⟩
  | .suspended reason => reason.stake

open Exec

theorem FrameShape.initialSlots_plants (slots : List Slot) : Alloc.Plants [] (slots.mapM initialSlot) fun values => values := by
  refine .each (fun slot => ?_) slots
  unfold initialSlot
  split
  · exact .initial _
  · exact .scalar (by simp)

/-- A new frame takes the arguments up. -/
theorem Exec.Plants.startCall {σ : Type} {house : Household σ} {base : List Value} (image : Image) (callee : FunctionId) (args : List Value) :
    Plants house base ⟨[], args⟩ (do
        let actor ← Exec.ofHeapOp (Actor.startCall image callee args (← Exec.actor))
        Exec.modifyActor fun _ => actor)
      fun _ => .none := by
  intro state rest holds
  refine Ends.after (show Exec.actor state = .ok state.actor state from rfl) ?_
  unfold Ends
  rw [Exec.bind_apply, Exec.ofHeapOp_apply]
  cases starts : (Actor.startCall image callee args state.actor).run state.heap with
  | error cause => exact holds.rest.rest
  | ok started =>
      obtain ⟨started, after⟩ := started
      obtain ⟨routine, locals, _, created, rfl⟩ := Actor.startCall_eq_ok starts
      obtain ⟨more, planted, same⟩ := FrameShape.createLocals_eq_ok created
      refine holds.stay rfl fun keeps => ?_
      have kept := FrameShape.initialSlots_plants (routine.shape.slots.drop routine.shape.paramCount)
        (house.tends _) state.heap rest.own keeps
      rw [planted] at kept
      refine house.less kept ⟨fun address => ?_, fun address => ?_⟩ <;>
        simp only [Household.within, Stake.none_append, Stake.own_append, Stake.lent_append, Actor.roots, Actor.push, same,
          List.flatMap_cons, List.count_append, List.nil_append, Frame.atStart, Frame.atLabel] <;> omega

namespace Env

variable {σ : Type} {house : Household σ} {env : Env σ} {base : List Value} {act : Activation}

/-- What is needed of the surroundings of running code. -/
structure Tended (house : Household σ) (base : List Value) (env : Env σ) : Prop where
  served : house.Served env.handler
  invokes : ∀ callee, Plants house base .none (env.invoke callee) Continuation.stake

theorem startCall_plants (callee : FunctionId) (args : List Value) :
    Plants house base ⟨[], args⟩ (env.startCall callee args) fun _ => .none := .startCall env.image callee args

theorem callToEnd_plants (tended : env.Tended house base) (callee : FunctionId) (args : List Value) :
    Plants house base ⟨[], args⟩ (env.callToEnd callee args) fun value => ⟨[value], []⟩ := by
  refine .next (startCall_plants callee args) fun _ => .next (tended.invokes callee) fun result => ?_
  cases result with
  | completed value locals =>
      cases value with
      | none => exact .pure ((Stake.of_scalar false true (by simp)).trans (.none _))
      | some value => exact .pure ⟨.refl _, .of_sublist (List.sublist_append_left _ _)⟩
  | suspended reason => exact .fail

theorem expectKind_plants {spent : Stake} (kind : ContainerKind) (container : Value) :
    Plants house base spent (expectKind kind container) fun _ => spent := by
  refine .quiet (.bind .get fun heap => ?_)
  split
  · exact .pure _
  · exact .pure _
  · exact .mismatch _ _ _
  · exact .mismatch _ _ _

/-- Both values are dropped but what is found in the container. -/
theorem lookup_plants {owned : Bool} (container key : Value) :
    Plants house base (.of house.shares owned [container]) (Exec.ofValueOp (container.lookup key))
      fun value => .of house.shares false [value] :=
  .lends fun _ => Value.lookup_lends

/-- A cast gives the value itself. -/
theorem cast_plants {owned : Bool} (value : Value) (ty : Ty) :
    Plants house base (.of house.shares owned [value]) (Exec.ofValueOp (value.cast ty)) fun result => .of house.shares owned [result] := by
  intro state rest holds
  unfold Ends
  rw [ofValueOp_apply]
  cases ran : (value.cast ty).run state.heap with
  | error error => exact holds.rest.rest
  | ok pair =>
      obtain ⟨result, after⟩ := pair
      obtain ⟨rfl, rfl⟩ := Value.cast_eq_ok ran
      exact holds

/-- A new cell around values, all of them in hand or all with other names. -/
theorem new_plants {owned : Bool} (may : house.shares = true ∨ owned = true) (cell : Cell) :
    Plants house base (.of house.shares owned cell.contents) (Exec.ofAlloc (Cell.new cell)) fun value => .of house.shares owned [value] := by
  cases owned with
  | true => exact .ofAlloc (.new cell)
  | false =>
      have shared : house.shares = true := by simpa using may
      intro state rest holds
      rw [shared] at holds ⊢
      refine holds.stay rfl fun keeps => house.less
        (house.around shared keeps fun value among => by simp [among]) (.ofLent (.of_sublist (.cons_cons _ ?_)))
      simp

mutual

theorem load_plants (tended : env.Tended house base) (locals : ∀ value ∈ act.locals, value ∈ base) : (place : Place) →
    place.Fair house.shares → Plants house base .none (env.load act place) fun value => .of house.shares false [value]
  | .slot index, _ => by
      unfold load
      split
      next value found =>
        exact fun state rest holds => .pure (holds.named (.inl (by simp [locals value (List.mem_of_getElem? found)])))
      next => exact .fail
  | .field index, _ => by
      intro state rest holds
      unfold load
      refine Ends.after (show Exec.actor state = .ok state.actor state from rfl) ?_
      split
      next value found =>
        exact .pure (holds.named (.inr (by simp [Actor.roots, List.mem_of_getElem? found])))
      next => exact .fail holds.rest.rest
  | .trigger, _ => fun state rest holds => by
      unfold load
      exact Ends.after (show Exec.actor state = .ok state.actor state from rfl)
        (.pure (holds.named (.inr (by simp [Actor.roots]))))
  | .payload, _ => fun state rest holds => by
      unfold load
      exact Ends.after (show Exec.actor state = .ok state.actor state from rfl)
        (.pure (holds.named (.inr (by simp [Actor.roots]))))
  | .part base index, fair => .next (load_plants tended locals base fair) fun _ => .lends fun _ => Value.field_lends index
  | .element base key kind, fair => .next (load_plants tended locals base fair.1) fun container =>
      .next (expectKind_plants kind container) fun _ => .aside (eval_plants tended locals key fair.2) fun key =>
        lookup_plants container key

theorem eval_plants (tended : env.Tended house base) (locals : ∀ value ∈ act.locals, value ∈ base) : (operand : Operand) →
    operand.Fair house.shares →
      Plants house base .none (env.eval act operand) fun value => .of house.shares operand.isOwned [value]
  | .const constant, _ => .pure (Stake.of_scalar _ _ constant.value_scalar)
  | .this, _ => .actor fun _ => .pure (Stake.of_scalar _ _ (by simp))
  | .load place, fair => load_plants tended locals place fair
  | .clone inner, fair => .aside (eval_plants tended locals inner fair) fun value => .ofAlloc (.deepCopy value)
  | .unary op arg, fair => .aside (eval_plants tended locals arg fair) fun value => .ofValueOp fun _ => op.apply_plants value
  | .binary op lhs rhs, fair => by
      by_cases index : op = .index
      · subst index
        exact .next (eval_plants tended locals lhs fair.1) fun container =>
          .aside (eval_plants tended locals rhs fair.2) fun key => lookup_plants container key
      · have owned : (Operand.binary op lhs rhs).isOwned = true := by simpa [Operand.isOwned] using index
        rw [owned]
        refine .aside (eval_plants tended locals lhs fair.1) fun left => ?_
        cases op with
        | index => exact absurd rfl index
        | and | or =>
            refine .aside (.quiet (.asBool _ _)) fun holds => ?_
            cases holds
            all_goals first
              | exact .pure (Stake.of_scalar _ _ (by simp))
              | exact .aside (eval_plants tended locals rhs fair.2) fun _ => .aside (.quiet (.asBool _ _)) fun _ =>
                  .pure (Stake.of_scalar _ _ (by simp))
        | _ => exact .aside (eval_plants tended locals rhs fair.2) fun _ => .ofValueOp fun _ => BinaryOp.apply_plants index _ _
  | .lookup base key kind, fair => .next (eval_plants tended locals base fair.1) fun container =>
      .next (expectKind_plants kind container) fun _ => .aside (eval_plants tended locals key fair.2) fun key =>
        lookup_plants container key
  | .part base index, fair => .next (eval_plants tended locals base fair) fun _ => .lends fun _ => Value.field_lends index
  | .tuple items, fair => .next (evalAll_plants tended locals items fair.1) fun values => new_plants fair.2 (.tuple values)
  | .named fields, fair => .next (evalFields_plants tended locals fields fair.1) fun values => new_plants fair.2 (.named values)
  | .default ty, _ => .ofAlloc (.initial ty)
  | .cast value ty, fair => .next (eval_plants tended locals value fair) fun value => cast_plants value ty
  | .call callee args, fair => .next (evalArguments_plants tended locals args fair.1) fun values =>
      (callToEnd_plants tended callee values).weaken (Stake.lent_less fair.2 values) fun _ => .refl _
  | .choice number, _ => by
      unfold eval
      split
      · exact .pure (Stake.of_scalar _ _ (by simp))
      · exact .fail

theorem evalAll_plants (tended : env.Tended house base) (locals : ∀ value ∈ act.locals, value ∈ base) : (operands : List Operand) →
    AllFair house.shares operands →
      Plants house base .none (env.evalAll act operands) fun values => .of house.shares (allOwned operands) values
  | [], _ => .pure (.refl _)
  | operand :: rest, fair => .next (eval_plants tended locals operand fair.1) fun value =>
      .bind (evalAll_plants tended locals rest fair.2) fun values => .pure (Stake.of_cons _ _ value values)

theorem evalFields_plants (tended : env.Tended house base) (locals : ∀ value ∈ act.locals, value ∈ base) :
    (fields : List (String × Operand)) → FieldsFair house.shares fields →
      Plants house base .none (env.evalFields act fields) fun values => .of house.shares (fieldsOwned fields) (values.map Prod.snd)
  | [], _ => .pure (.refl _)
  | (_, operand) :: rest, fair => .next (eval_plants tended locals operand fair.1) fun value =>
      .bind (evalFields_plants tended locals rest fair.2) fun values => .pure (Stake.of_cons _ _ value (values.map Prod.snd))

theorem evalArguments_plants (tended : env.Tended house base) (locals : ∀ value ∈ act.locals, value ∈ base) :
    (args : List Argument) → ArgumentsFair house.shares args →
      Plants house base .none (env.evalArguments act args) fun values => .of house.shares (argumentsOwned args) values
  | [], _ => .pure (.refl _)
  | .mk operand _ :: rest, fair => .next (eval_plants tended locals operand fair.1) fun value =>
      .bind (evalArguments_plants tended locals rest fair.2) fun values => .pure (Stake.of_cons _ _ value values)

end

end Env

end Reentry
