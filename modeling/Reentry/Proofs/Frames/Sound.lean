import Reentry.Code.Instr
import Reentry.Proofs.Structure.Spelling

/-!
What operands need when they are evaluated: every choice that they read has been recorded, and every
function that they call is known.
-/

namespace Reentry

variable (knows : FunctionId → Prop) (recorded : List Nat)

mutual

/-- The operands within the place read recorded choices and call known functions only. -/
def Place.Reads : Place → Prop
  | .slot _ | .field _ | .trigger | .payload => True
  | .part base _ => base.Reads
  | .element base key _ => base.Reads ∧ key.Reads

def Operand.Reads : Operand → Prop
  | .const _ | .this | .default _ => True
  | .load place => place.Reads
  | .clone inner => inner.Reads
  | .unary _ arg => arg.Reads
  | .binary _ lhs rhs => lhs.Reads ∧ rhs.Reads
  | .lookup base key _ => base.Reads ∧ key.Reads
  | .part base _ => base.Reads
  | .tuple items => Operand.ReadAll items
  | .named fields => Operand.ReadFields fields
  | .cast value _ => value.Reads
  | .call callee args => knows callee ∧ Argument.ReadAll args
  | .choice number => number ∈ recorded

def Operand.ReadAll : List Operand → Prop
  | [] => True
  | operand :: rest => operand.Reads ∧ Operand.ReadAll rest

def Operand.ReadFields : List (String × Operand) → Prop
  | [] => True
  | (_, operand) :: rest => operand.Reads ∧ Operand.ReadFields rest

def Argument.ReadAll : List Argument → Prop
  | [] => True
  | .mk operand _ :: rest => operand.Reads ∧ Argument.ReadAll rest

end

def Selector.Reads : Selector → Prop
  | .part _ => True
  | .element key _ => key.Reads knows recorded

/-- What an instruction behind which the call goes on needs of its operands. -/
def Instr.Reads : Instr → Prop
  | .assign dest value => dest.Reads knows recorded ∧ value.Reads knows recorded
  | .swap dest source => dest.Reads knows recorded ∧ source.Reads knows recorded
  | .update container selector value =>
      container.Reads knows recorded ∧ selector.Reads knows recorded ∧ value.Reads knows recorded
  | .exchange container selector source =>
      container.Reads knows recorded ∧ selector.Reads knows recorded ∧ source.Reads knows recorded
  | .remove container _ key => container.Reads knows recorded ∧ key.Reads knows recorded
  | .insert container _ entry => container.Reads knows recorded ∧ entry.Reads knows recorded
  | .assert cond _ => cond.Reads knows recorded
  | .print _ args => Operand.ReadAll knows recorded args
  | .announce event payload => event.Reads knows recorded ∧ payload.Reads knows recorded
  | .enqueue target event payload =>
      target.Reads knows recorded ∧ event.Reads knows recorded ∧ payload.Reads knows recorded
  | .pushFrame callee args => knows callee ∧ Argument.ReadAll knows recorded args
  | .collectReturn dest | .writeBack dest _ | .readCreated dest => dest.Reads knows recorded
  | _ => True

def YieldRequest.Reads : YieldRequest → Prop
  | .new _ payload _ => payload.Reads knows recorded
  | .retValue value => value.Reads knows recorded
  | _ => True

variable {knows} {recorded}

theorem Operand.readAll_iff {operands : List Operand} :
    Operand.ReadAll knows recorded operands ↔ ∀ operand ∈ operands, operand.Reads knows recorded := by
  induction operands with
  | nil => simp [Operand.ReadAll]
  | cons operand rest ih => simp [Operand.ReadAll, ih]

theorem Operand.readFields_iff {fields : List (String × Operand)} :
    Operand.ReadFields knows recorded fields ↔ ∀ field ∈ fields, field.2.Reads knows recorded := by
  induction fields with
  | nil => simp [Operand.ReadFields]
  | cons field rest ih => simp [Operand.ReadFields, ih]

theorem Argument.readAll_iff {args : List Argument} :
    Argument.ReadAll knows recorded args ↔ ∀ arg ∈ args, arg.value.Reads knows recorded := by
  induction args with
  | nil => simp [Argument.ReadAll]
  | cons arg rest ih =>
      cases arg
      simp [Argument.ReadAll, Argument.value, ih]

theorem Operand.Reads.cloned {operand : Operand} (reads : operand.Reads knows recorded) :
    operand.cloned.Reads knows recorded := by
  cases operand <;> exact reads

theorem Operand.Reads.transferred {operand : Operand} {qualifier : Qualifier} (reads : operand.Reads knows recorded) :
    (operand.transferred qualifier).Reads knows recorded := by
  cases qualifier with
  | move => exact reads
  | none | swap => exact reads.cloned

variable {more : List Nat} (subset : ∀ number ∈ recorded, number ∈ more)

mutual

theorem Place.Reads.mono (subset : ∀ number ∈ recorded, number ∈ more) :
    (place : Place) → place.Reads knows recorded → place.Reads knows more
  | .slot _, _ | .field _, _ | .trigger, _ | .payload, _ => trivial
  | .part base _, reads => Place.Reads.mono subset base reads
  | .element base key _, reads => ⟨Place.Reads.mono subset base reads.1, Operand.Reads.mono subset key reads.2⟩

theorem Operand.Reads.mono (subset : ∀ number ∈ recorded, number ∈ more) :
    (operand : Operand) → operand.Reads knows recorded → operand.Reads knows more
  | .const _, _ | .this, _ | .default _, _ => trivial
  | .load place, reads => Place.Reads.mono subset place reads
  | .clone inner, reads => Operand.Reads.mono subset inner reads
  | .unary _ arg, reads => Operand.Reads.mono subset arg reads
  | .binary _ lhs rhs, reads => ⟨Operand.Reads.mono subset lhs reads.1, Operand.Reads.mono subset rhs reads.2⟩
  | .lookup base key _, reads => ⟨Operand.Reads.mono subset base reads.1, Operand.Reads.mono subset key reads.2⟩
  | .part base _, reads => Operand.Reads.mono subset base reads
  | .tuple items, reads => Operand.ReadAll.mono subset items reads
  | .named fields, reads => Operand.ReadFields.mono subset fields reads
  | .cast value _, reads => Operand.Reads.mono subset value reads
  | .call _ args, reads => ⟨reads.1, Argument.ReadAll.mono subset args reads.2⟩
  | .choice number, reads => subset number reads

theorem Operand.ReadAll.mono (subset : ∀ number ∈ recorded, number ∈ more) :
    (operands : List Operand) → Operand.ReadAll knows recorded operands → Operand.ReadAll knows more operands
  | [], _ => trivial
  | operand :: rest, reads => ⟨Operand.Reads.mono subset operand reads.1, Operand.ReadAll.mono subset rest reads.2⟩

theorem Operand.ReadFields.mono (subset : ∀ number ∈ recorded, number ∈ more) :
    (fields : List (String × Operand)) → Operand.ReadFields knows recorded fields →
      Operand.ReadFields knows more fields
  | [], _ => trivial
  | (_, operand) :: rest, reads =>
      ⟨Operand.Reads.mono subset operand reads.1, Operand.ReadFields.mono subset rest reads.2⟩

theorem Argument.ReadAll.mono (subset : ∀ number ∈ recorded, number ∈ more) :
    (args : List Argument) → Argument.ReadAll knows recorded args → Argument.ReadAll knows more args
  | [], _ => trivial
  | .mk operand _ :: rest, reads =>
      ⟨Operand.Reads.mono subset operand reads.1, Argument.ReadAll.mono subset rest reads.2⟩

end

include subset

theorem Selector.Reads.mono {selector : Selector} (reads : selector.Reads knows recorded) :
    selector.Reads knows more := by
  cases selector with
  | part _ => trivial
  | element key _ => exact Operand.Reads.mono subset key reads

theorem YieldRequest.Reads.mono {request : YieldRequest} (reads : request.Reads knows recorded) :
    request.Reads knows more := by
  cases request with
  | new _ payload _ => exact Operand.Reads.mono subset payload reads
  | retValue value => exact Operand.Reads.mono subset value reads
  | _ => trivial

theorem Instr.Reads.mono {instr : Instr} (reads : instr.Reads knows recorded) : instr.Reads knows more := by
  have place (place : Place) : place.Reads knows recorded → place.Reads knows more := Place.Reads.mono subset place
  have operand (operand : Operand) : operand.Reads knows recorded → operand.Reads knows more :=
    Operand.Reads.mono subset operand
  cases instr with
  | assign dest value => exact ⟨place _ reads.1, operand _ reads.2⟩
  | swap dest source => exact ⟨place _ reads.1, place _ reads.2⟩
  | update container selector value => exact ⟨place _ reads.1, reads.2.1.mono subset, operand _ reads.2.2⟩
  | exchange container selector source => exact ⟨place _ reads.1, reads.2.1.mono subset, place _ reads.2.2⟩
  | remove container _ key => exact ⟨place _ reads.1, operand _ reads.2⟩
  | insert container _ entry => exact ⟨place _ reads.1, operand _ reads.2⟩
  | assert cond _ => exact operand _ reads
  | print _ args => exact Operand.ReadAll.mono subset args reads
  | announce event payload => exact ⟨operand _ reads.1, operand _ reads.2⟩
  | enqueue target event payload => exact ⟨operand _ reads.1, operand _ reads.2.1, operand _ reads.2.2⟩
  | pushFrame callee args => exact ⟨reads.1, Argument.ReadAll.mono subset args reads.2⟩
  | collectReturn dest | writeBack dest _ | readCreated dest => exact place _ reads
  | _ => trivial

end Reentry

/-!
Outlines that use choices and callees in a sound way: a choice is read only where it has been recorded,
a callee is run only behind the push of its frame, and what a callee returned is used only behind the
call and only as far as the callee has parameters.
-/

namespace Reentry

/-- Choices that the instruction records. -/
def Instr.records : Instr → List Nat
  | .recordChoice number => [number]
  | _ => []

/-- Whether what the last call returned, with at least so many locals, is enough for the instruction. -/
def Instr.Fits (returned : Option Nat) : Instr → Prop
  | .collectReturn _ => returned.isSome
  | .writeBack _ slot => ∃ count, returned = some count ∧ slot < count
  | .pushFrame .. => False
  | _ => True

namespace Outline

/-- An outline is sound when these choices have been recorded and the last call has returned this many
locals. -/
inductive Sound (knows : FunctionId → Prop) : List Nat → Option Nat → List Outline → Prop
  | nil {recorded returned} : Sound knows recorded returned []
  | act {recorded returned instr rest} (straight : instr.isStraight) (reads : instr.Reads knows recorded)
      (fits : instr.Fits returned) (next : Sound knows (instr.records ++ recorded) returned rest) :
      Sound knows recorded returned (.act instr :: rest)
  | finish {recorded returned request rest} (reads : request.Reads knows recorded)
      (next : Sound knows recorded returned rest) : Sound knows recorded returned (.finish request :: rest)
  | ask {recorded returned question rest} (reads : ∀ resume, (question.request resume).Reads knows recorded)
      (next : Sound knows recorded none rest) : Sound knows recorded returned (.ask question :: rest)
  | call {recorded returned callee args rest} (known : knows callee) (reads : Argument.ReadAll knows recorded args)
      (next : Sound knows recorded (some args.length) rest) :
      Sound knows recorded returned (.act (.pushFrame callee args) :: .call callee :: rest)
  | dispatch {recorded returned cases rest} (known : ∀ case ∈ cases, knows case.handler)
      (next : Sound knows recorded none rest) : Sound knows recorded returned (.dispatch cases :: rest)
  | branch {recorded returned cond onTrue onFalse rest} (reads : cond.Reads knows recorded)
      (whenTrue : Sound knows recorded none onTrue) (whenFalse : Sound knows recorded none onFalse)
      (next : Sound knows recorded none rest) : Sound knows recorded returned (.branch cond onTrue onFalse :: rest)
  | loop {recorded returned choices cond body rest} (reads : cond.Reads knows (choices ++ recorded))
      (round : Sound knows recorded none body) (next : Sound knows recorded none rest) :
      Sound knows recorded returned (.loop choices cond body :: rest)

namespace Sound

variable {knows : FunctionId → Prop} {recorded more : List Nat} {returned other : Option Nat}
  {first rest : List Outline}

/-- More recorded choices do no harm, and neither does a call that has returned. -/
theorem mono (sound : Sound knows recorded returned first) (subset : ∀ number ∈ recorded, number ∈ more)
    (enough : returned = none ∨ returned = other) : Sound knows more other first := by
  induction sound generalizing more other with
  | nil => exact .nil
  | @act recorded returned instr rest straight reads fits next ih =>
      refine .act straight (reads.mono subset) ?_ (ih (fun number member => ?_) enough)
      · rcases enough with rfl | rfl
        · cases instr <;> first | exact fits | simp [Instr.Fits] at fits
        · exact fits
      · rcases List.mem_append.mp member with own | old
        · exact List.mem_append_left _ own
        · exact List.mem_append_right _ (subset number old)
  | finish reads next ih => exact .finish (reads.mono subset) (ih subset enough)
  | ask reads next ih => exact .ask (fun resume => (reads resume).mono subset) (ih subset (.inl rfl))
  | call known reads next ih => exact .call known (Argument.ReadAll.mono subset _ reads) (ih subset (.inr rfl))
  | dispatch known next ih => exact .dispatch known (ih subset (.inl rfl))
  | branch reads whenTrue whenFalse next ihTrue ihFalse ih =>
      exact .branch (Operand.Reads.mono subset _ reads) (ihTrue subset (.inl rfl)) (ihFalse subset (.inl rfl))
        (ih subset (.inl rfl))
  | loop reads round next ihRound ih =>
      refine .loop (Operand.Reads.mono (fun number member => ?_) _ reads) (ihRound subset (.inl rfl))
        (ih subset (.inl rfl))
      rcases List.mem_append.mp member with own | old
      · exact List.mem_append_left _ own
      · exact List.mem_append_right _ (subset number old)

theorem append (sound : Sound knows recorded returned first) (after : Sound knows recorded none rest) :
    Sound knows recorded returned (first ++ rest) := by
  induction sound with
  | nil => exact after.mono (fun _ member => member) (.inl rfl)
  | act straight reads fits next ih =>
      exact .act straight reads fits (ih (after.mono (fun _ member => List.mem_append_right _ member) (.inl rfl)))
  | finish reads next ih => exact .finish reads (ih after)
  | ask reads next ih => exact .ask reads (ih after)
  | call known reads next ih => exact .call known reads (ih after)
  | dispatch known next ih => exact .dispatch known (ih after)
  | branch reads whenTrue whenFalse next _ _ ih => exact .branch reads whenTrue whenFalse (ih after)
  | loop reads round next _ ih => exact .loop reads round (ih after)

/-- What follows the choices of a statement may read them. -/
theorem chooseAll {choices : List Nat} (after : Sound knows (choices ++ recorded) none rest) :
    Sound knows recorded none (chooseAll choices ++ rest) := by
  induction choices generalizing recorded with
  | nil => exact after
  | cons choice others ih =>
      refine .ask (fun _ => trivial) (.act rfl trivial trivial (ih (after.mono (fun number member => ?_) (.inl rfl))))
      simp only [Instr.records, List.cons_append, List.nil_append, List.mem_append, List.mem_cons] at member ⊢
      grind

/-- A loop is sound if a round of it and then the loop again is. -/
theorem unroll {choices : List Nat} {cond : Operand} {body : List Outline}
    (sound : Sound knows recorded returned (.loop choices cond body :: rest)) :
    Sound knows recorded none (Outline.chooseAll choices ++ .branch cond (body ++ [.loop choices cond body]) [] :: rest) := by
  cases sound with
  | loop reads round next =>
      have grow : ∀ number ∈ recorded, number ∈ choices ++ recorded := fun _ member => List.mem_append_right _ member
      have again : Sound knows recorded none (body ++ [.loop choices cond body]) := round.append (.loop reads round .nil)
      exact .chooseAll (.branch reads (again.mono grow (.inl rfl)) .nil (next.mono grow (.inl rfl)))

end Sound

end Outline

end Reentry
