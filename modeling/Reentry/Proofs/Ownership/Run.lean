import Reentry.Proofs.Ownership.Kept
import Reentry.Proofs.Stewardship.Run

/-!
Operands and places stay within what the running actor owns: they are made of its locals, fields and
registers, of what its calls return, and of new cells. An operand that copies gives new cells only.
-/

namespace Reentry

namespace Operand

/-- Whether the operand gives a value that shares nothing with any place. -/
def isCopy : Operand → Bool
  | .const _ | .this | .clone _ | .choice _ => true
  | _ => false

/-- Whether the operand packs nothing but copies. -/
def isParcel : Operand → Bool
  | .tuple items => items.all isCopy
  | operand => operand.isCopy

end Operand

/-- Sends are made of copies. -/
def Instr.SendsParcel : Instr → Prop
  | .enqueue _ _ payload => payload.isParcel
  | _ => True

open Exec

namespace FrameShape

/-- New locals are the arguments and values in new cells. -/
theorem createLocals_fresh {shape : FrameShape} {args locals : List Value} {heap after : Heap}
    (created : (shape.createLocals args).run heap = .ok (locals, after)) : ∃ made, locals = args ++ made ∧ heap.Fresh after made := by
  have makes : Alloc.Makes heap [] ((shape.slots.drop shape.paramCount).mapM initialSlot) fun values => values ++ [] := by
    refine .each (fun held slot => ?_) [] _
    unfold initialSlot
    split
    · exact .initial held _
    · exact .scalar (by simp)
  obtain ⟨made, run, rfl⟩ := createLocals_eq_ok created
  have fresh := makes.fresh
  rw [run, List.append_nil] at fresh
  exact ⟨made, rfl, fresh⟩

theorem createLocals_grows {shape : FrameShape} {args locals : List Value} {region : Region} {heap after : Heap}
    (closed : heap.Closed region) (owns : region.OwnsAll args) (created : (shape.createLocals args).run heap = .ok (locals, after)) :
    ∃ more, heap.Grows region after more ∧ more.OwnsAll locals := by
  obtain ⟨made, rfl, fresh⟩ := createLocals_fresh created
  have joins := fresh.joins closed
  have new := fresh.owns.mono (Region.inside_union_right region _)
  exact ⟨_, joins, Region.ownsAll_append.mpr ⟨owns.mono joins.inside, new⟩⟩

end FrameShape

namespace Actor

variable {region : Region} {actor : Actor}

theorem startCall_grows {image : Image} {function : FunctionId} {args : List Value} {started : Actor} {heap after : Heap}
    (closed : heap.Closed region) (roots : region.OwnsAll actor.roots) (owns : region.OwnsAll args)
    (starts : (startCall image function args actor).run heap = .ok (started, after)) :
    ∃ more, heap.Grows region after more ∧ more.OwnsAll started.roots := by
  obtain ⟨routine, values, _, created, rfl⟩ := startCall_eq_ok starts
  obtain ⟨more, grows, locals⟩ := FrameShape.createLocals_grows closed owns created
  exact ⟨more, grows, ownsAll_push.mpr ⟨locals, roots.mono grows.inside⟩⟩

theorem ownsAll_fields (owns : region.OwnsAll actor.roots) : region.OwnsAll actor.fields :=
  owns.subset fun value member => by simp [roots, member]

theorem owns_trigger (owns : region.OwnsAll actor.roots) : region.Owns actor.trigger := owns _ (by simp [roots])

theorem owns_payload (owns : region.OwnsAll actor.roots) : region.Owns actor.payload := owns _ (by simp [roots])

end Actor

/-- Work within what the actor owns. -/
abbrev Exec.owning : Account Surroundings := fun _ => Within

/-- Operations stay within what the actor owns, and so does whatever is made of them. -/
theorem Exec.Within.stewards : Stewards owning where
  pure := .pure
  stop _ := fun closed roots => ⟨_, .refl closed, roots⟩
  bind := .bindRan
  get := .get
  modifyActor := .modifyActor
  quiet := .ofQuiet
  operate op owns := .ofValueOp (op.perform_stays owns)
  start _ _ _ owns := .actor fun _ => .bind (.ofHeapOp fun closed roots _ _ => Actor.startCall_grows closed roots owns)
    fun _ _ _ _ started => .modifyActor fun _ => started
  counted := .counted

namespace Env

/-- Code that sends only copies, whose callees stay within what the actor owns. -/
structure Sealed (env : Env Surroundings) : Prop where
  handler : env.handler = Surroundings.handle
  sends : ∀ instr ∈ env.routine.body, instr.SendsParcel
  invokes : ∀ callee region state, Within region state (env.invoke callee) Continuation.values

variable {env : Env Surroundings} {region : Region} {state : Running Surroundings} {act : Activation}

theorem Sealed.serves (sealed : env.Sealed) : env.Serves owning where
  invokes := sealed.invokes
  performs effect region state plain _ := by
    rw [sealed.handler]
    cases effect with
    | enqueue => cases plain
    | announce sender event payload => exact .announce _ _ _
    | print sender message => exact .print _ _

/-- A copy shares nothing with the actor. -/
theorem eval_gives_copy (sealed : env.Sealed) (locals : region.OwnsAll act.locals) {operand : Operand} (copy : operand.isCopy) :
    Gives region state (env.eval act operand) fun value => [value] := by
  cases operand with
  | const constant => exact .scalar constant.value_scalar
  | this => exact .actor (.scalar (by simp))
  | clone inner => exact .after (eval_keeps Within.stewards sealed.serves locals inner) fun value _ _ => .ofAlloc (.deepCopy [] value)
  | choice number =>
      unfold eval
      split
      · exact .scalar (by simp)
      · exact .trap _ _
  | _ => cases copy

theorem evalAll_gives_copies (sealed : env.Sealed) (locals : region.OwnsAll act.locals) {operands : List Operand}
    (copies : ∀ operand ∈ operands, operand.isCopy) : Gives region state (env.evalAll act operands) id := by
  induction operands generalizing region state with
  | nil => exact fun closed roots => ⟨region, _, .refl closed, roots, Region.ownsAll_nil⟩
  | cons operand rest ih =>
      exact .cons (eval_gives_copy sealed locals (copies operand (by simp))) fun _ _ grown =>
        ih (locals.mono grown) fun other member => copies other (by simp [member])

/-- A parcel of copies shares nothing with the actor. -/
theorem eval_gives_parcel (sealed : env.Sealed) (locals : region.OwnsAll act.locals) {operand : Operand}
    (parcel : operand.isParcel) : Gives region state (env.eval act operand) fun value => [value] := by
  cases operand with
  | tuple items => exact .new (evalAll_gives_copies sealed locals (List.all_eq_true.mp parcel))
  | const _ | this | clone _ | choice _ => exact eval_gives_copy sealed locals parcel
  | _ => cases parcel

end Env

end Reentry

/-!
Instructions and calls stay within what the running actor owns, and what they send is made of copies.
-/

namespace Reentry

open Exec

/-- A send of copies gives nothing away. -/
theorem Env.Sealed.sendsParcels {env : Env Surroundings} (sealed : env.Sealed) : env.Sends owning := by
  intro target event payload act region state among owns
  have locals := Activation.ownsAll_locals owns
  have parcel : payload.isParcel := sealed.sends _ among
  have serves := sealed.serves
  refine .bind (eval_keeps Within.stewards serves locals target) fun _ _ _ grown _ =>
    .bind (.ofQuiet (.asMachine _ _)) fun machine _ _ grown₁ _ =>
      .bind (eval_keeps Within.stewards serves ((locals.mono grown).mono grown₁) event) fun value _ _ grown₂ _ => ?_
  split
  next kind =>
      rw [sealed.handler]
      exact .enqueue (eval_gives_parcel sealed (((locals.mono grown).mono grown₁).mono grown₂) parcel) machine kind
  next => exact .ofQuiet (.mismatch _ _ _)

/-- All sends in the code of an image are made of copies. -/
def Image.SendsParcels (image : Image) : Prop :=
  ∀ function routine, image.routine? function = some routine → ∀ instr ∈ routine.body, instr.SendsParcel

namespace RunConfig

variable {config : RunConfig Surroundings} {region : Region} {state : Running Surroundings}

/-- A run of an actor stays within what the actor owns. -/
theorem executeWithin_within (handler : config.handler = Surroundings.handle) (sends : config.image.SendsParcels)
    (levels : Nat) (function : FunctionId) : Within region state (config.executeWithin levels function) Continuation.values := by
  refine executeWithin_keeps Within.stewards (fun function routine invoke found invokes => ?_) levels function
  have sealed : Env.Sealed ⟨config.image, routine, config.handler, invoke⟩ := ⟨handler, sends function routine found, invokes⟩
  exact ⟨sealed.serves, sealed.sendsParcels⟩

end RunConfig

end Reentry
