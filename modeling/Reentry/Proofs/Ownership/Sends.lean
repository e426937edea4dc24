import Reentry.Proofs.Frames.Stack
import Reentry.Proofs.Ownership.Run

/-!
Programs that move nothing when they send. Their lowered code sends copies only: whatever is not moved is
lowered to a copy, whether it is sent alone or together with others in a tuple.
-/

namespace Reentry

mutual

/-- Qualifiers under which the cells of a list hand their values over. -/
def Node.qualifiers : Node → List Qualifier
  | .mk _ _ (.exprs qualifier _ tail) => qualifier :: listQualifiers tail
  | .mk _ _ (.namedExprs _ _ tail) => .none :: listQualifiers tail
  | _ => []
termination_by structural cell => cell

def listQualifiers : Option Node → List Qualifier
  | none => []
  | some cell => cell.qualifiers
termination_by structural list => list

end

mutual

/-- Whether no send among the statements of the node moves one of its arguments. -/
def Node.sendsCopies : Node → Bool
  | .mk _ _ kind => kind.sendsCopies

def NodeKind.sendsCopies : NodeKind → Bool
  | .send _ _ args => (listQualifiers args).all (· != .move)
  | .loop _ body => body.sendsCopies
  | .branch _ onTrue onFalse => onTrue.sendsCopies && optionalSendsCopies onFalse
  | .seq first rest => first.sendsCopies && rest.sendsCopies
  | .block statements => allSendCopies statements
  | _ => true

def optionalSendsCopies : Option Node → Bool
  | none => true
  | some node => node.sendsCopies

def allSendCopies : List Node → Bool
  | [] => true
  | node :: rest => node.sendsCopies && allSendCopies rest

end

/-- Whether no send in the program moves one of its arguments. -/
def Program.sendsCopies (program : Program) : Bool := program.functions.all (·.body.sendsCopies)

namespace Operand

theorem isCopy_cloned (operand : Operand) : operand.cloned.isCopy := by
  cases operand <;> rfl

theorem isCopy_transferred {qualifier : Qualifier} (copied : qualifier ≠ .move) (operand : Operand) :
    (operand.transferred qualifier).isCopy := by
  cases qualifier with
  | move => exact absurd rfl copied
  | none | swap => exact isCopy_cloned operand

theorem isParcel_of_isCopy {operand : Operand} (copy : operand.isCopy) : operand.isParcel := by
  cases operand <;> first | exact copy | cases copy

/-- Copies make a parcel, however many there are. -/
theorem isParcel_payload {operands : List Operand} (copies : ∀ operand ∈ operands, operand.isCopy) :
    (Template.payload operands).isParcel := by
  match operands with
  | [] => rfl
  | [operand] => exact isParcel_of_isCopy (copies operand (by simp))
  | _ :: _ :: _ => exact List.all_eq_true.mpr copies

end Operand

/-- All sends in a piece of code are made of copies. -/
def SendsParcels (code : List Instr) : Prop := ∀ instr ∈ code, instr.SendsParcel

namespace SendsParcels

variable {first rest code : List Instr}

@[simp] theorem nil : SendsParcels [] := nofun

@[simp] theorem cons {instr : Instr} : SendsParcels (instr :: code) ↔ instr.SendsParcel ∧ SendsParcels code := by
  simp [SendsParcels]

@[simp] theorem append : SendsParcels (first ++ rest) ↔ SendsParcels first ∧ SendsParcels rest := by
  simp only [SendsParcels, List.mem_append, or_imp, forall_and]

theorem map {α : Type} {items : List α} {instr : α → Instr} (each : ∀ item, (instr item).SendsParcel) :
    SendsParcels (items.map instr) := by
  intro other member
  obtain ⟨item, _, rfl⟩ := List.mem_map.mp member
  exact each item

theorem withChoices {isLoop : Bool} (asks : SendsParcels first) (parcels : SendsParcels code) :
    SendsParcels (Template.withChoices isLoop first code) := by
  cases isLoop with
  | false => exact append.mpr ⟨asks, parcels⟩
  | true =>
      cases code with
      | nil => exact append.mpr ⟨asks, parcels⟩
      | cons instr code =>
          obtain ⟨own, others⟩ := cons.mp parcels
          exact cons.mpr ⟨own, append.mpr ⟨asks, others⟩⟩

theorem receive (after done : LabelId) (arms : List ReceiveArm) : SendsParcels (Template.receive after done arms) := by
  simp only [Template.receive, append]
  refine ⟨⟨⟨⟨map fun _ => trivial, ?_⟩, ?_⟩, ?_⟩, ?_⟩
  · simp [Template.suspend, Instr.SendsParcel]
  · simp [Instr.SendsParcel]
  · intro instr member
    obtain ⟨arm, _, inside⟩ := List.mem_flatMap.mp member
    simp only [Template.receiveArm, List.mem_cons, List.not_mem_nil, or_false] at inside
    rcases inside with rfl | rfl | rfl | rfl <;> trivial
  · simp [Instr.SendsParcel]

end SendsParcels

open Lower

variable {scope : Lowering.Scope} {start stop : Lowering.Progress} {code : List Instr}

namespace Lower

theorem settleChoices_parcels {isLoop : Bool} {kept : Nat} {result : List Instr} (parcels : SendsParcels code)
    (succeeds : settleChoices isLoop kept code scope start = .ok (result, stop)) : SendsParcels result := by
  simp only [settleChoices, bind_eq_ok, pure_eq_ok] at succeeds
  obtain ⟨choices, _, _, asks, _, issue, rfl, rfl⟩ := succeeds
  obtain ⟨pairs, rfl, rfl, _⟩ := mapM_freshLabel_eq_ok issue
  refine .withChoices (fun instr member => ?_) parcels
  obtain ⟨_, among, inside⟩ := List.mem_flatten.mp member
  obtain ⟨pair, _, rfl⟩ := List.mem_map.mp among
  simp only [Template.choose, Template.suspend, List.cons_append, List.nil_append, List.mem_cons, List.not_mem_nil, or_false] at inside
  rcases inside with rfl | rfl | rfl | rfl <;> trivial

mutual

/-- The items of a list are handed over as its cells say. -/
theorem lowerCell_qualifiers {inNew swapsWrite : Bool} {start stop : Lowering.Progress} {items : List ListItem} : (cell : Node) →
    cell.lowerCell inNew swapsWrite scope start = .ok (items, stop) → items.map (·.qualifier) = cell.qualifiers
  | .mk _ _ kind, succeeds => by
      cases kind with
      | exprs qualifier head tail | namedExprs name head tail =>
          simp only [Node.lowerCell, bind_eq_ok, pure_eq_ok] at succeeds
          obtain ⟨_, _, _, others, _, later, rfl, rfl⟩ := succeeds
          simp only [List.map_cons, Node.qualifiers, lowerItems_qualifiers tail later]
      | _ => exact (unexpected_ne_ok.mp succeeds).elim
termination_by structural cell => cell

theorem lowerItems_qualifiers {inNew swapsWrite : Bool} {start stop : Lowering.Progress} {items : List ListItem} : (list : Option Node) →
    lowerItems inNew swapsWrite list scope start = .ok (items, stop) → items.map (·.qualifier) = listQualifiers list
  | none, succeeds => by
      obtain ⟨rfl, rfl⟩ := pure_eq_ok.mp succeeds
      rfl
  | some cell, succeeds => lowerCell_qualifiers cell succeeds
termination_by structural list => list

end

theorem mapM_transferred_copies {items : List ListItem} {operands : List Operand} (copied : ∀ item ∈ items, item.qualifier ≠ .move)
    (succeeds : items.mapM ListItem.transferred scope start = .ok (operands, stop)) : ∀ operand ∈ operands, operand.isCopy := by
  induction items generalizing start operands with
  | nil =>
      rw [List.mapM_nil, pure_eq_ok] at succeeds
      obtain ⟨rfl, rfl⟩ := succeeds
      simp
  | cons item rest ih =>
      simp only [List.mapM_cons, ListItem.transferred, bind_eq_ok, pure_eq_ok] at succeeds
      obtain ⟨_, _, ⟨operand, _, _, rfl, rfl⟩, others, _, later, rfl, rfl⟩ := succeeds
      have copies := ih (fun other member => copied other (by simp [member])) later
      simpa using ⟨Operand.isCopy_transferred (copied item (by simp)) operand, copies⟩

/-- What a send sends is a parcel unless something is moved. -/
theorem payload_parcel {inNew : Bool} {args : Option Node} {items : List ListItem} {operand : Operand}
    {before between : Lowering.Progress} (copied : (listQualifiers args).all (· != .move))
    (lowered : lowerItems inNew false args scope before = .ok (items, between))
    (succeeds : payload items scope start = .ok (operand, stop)) : operand.isParcel := by
  simp only [payload, bind_eq_ok, pure_eq_ok] at succeeds
  obtain ⟨operands, _, transferred, rfl, rfl⟩ := succeeds
  refine Operand.isParcel_payload (mapM_transferred_copies (fun item member moved => ?_) transferred)
  have among : item.qualifier ∈ listQualifiers args := by
    rw [← lowerItems_qualifiers args lowered]
    exact List.mem_map_of_mem member
  have kept := List.all_eq_true.mp copied _ among
  simp [moved] at kept

end Lower

/-- A statement without inner statements, if it moves nothing when it sends. -/
theorem NodeKind.single_parcels {inNew : Bool} {access : Access} {span : Span} {kind : NodeKind}
    (single : kind.isStructured = false) (copies : kind.sendsCopies)
    (succeeds : kind.lower inNew access span scope start = .ok (.code code, stop)) : SendsParcels code := by
  cases lower_written single succeeds with
  | send _ _ listed paid =>
      have parcel := payload_parcel copies listed paid
      simp [Template.send, Template.suspend, Instr.SendsParcel, parcel]
  | @new _ _ _ _ dest => cases dest <;> simp [Template.new, Template.suspend, Instr.SendsParcel]
  | call =>
      simp only [Template.call, SendsParcels.append]
      exact ⟨⟨by simp [Instr.SendsParcel], .map fun _ => trivial⟩, .map fun _ => trivial⟩
  | @ret _ operand => cases operand <;> simp [Template.ret, Template.terminate, Instr.SendsParcel]
  | goto | raise | pop => simp [Template.goto, Template.raise, Template.pop, Template.terminate, Instr.SendsParcel]
  | announce | assert | print | remove | insert => simp [Instr.SendsParcel]
  | assign _ _ assigns => exact assigns.elim (by simp [Instr.SendsParcel]) (by simp [Instr.SendsParcel]) (by simp [Instr.SendsParcel]) (by simp [Instr.SendsParcel])

mutual

/-- Lowering statements that move nothing when they send gives code that sends copies only. -/
theorem Node.lower_parcels {inNew : Bool} {access : Access} {start stop : Lowering.Progress} {code : List Instr} :
    (node : Node) → node.sendsCopies → node.lower inNew access scope start = .ok (.code code, stop) → SendsParcels code
  | .mk _ span kind, copies, succeeds => by
      unfold Node.lower at succeeds
      split at succeeds
      · exact (throw_ne_ok.mp (bind_eq_ok.mp succeeds).choose_spec.choose_spec.2).elim
      · simp only [bind_eq_ok, get_eq_ok] at succeeds
        obtain ⟨_, _, ⟨rfl, rfl⟩, fragment, _, lowered, settled⟩ := succeeds
        cases fragment with
        | value _ | place _ => simp [pure_eq_ok] at settled
        | code body =>
            simp only [map_eq_ok, Fragment.code.injEq] at settled
            obtain ⟨_, settled, rfl⟩ := settled
            exact settleChoices_parcels (NodeKind.lower_parcels kind copies lowered) settled

theorem NodeKind.lower_parcels {inNew : Bool} {access : Access} {span : Span} {start stop : Lowering.Progress} {code : List Instr} :
    (kind : NodeKind) → kind.sendsCopies → kind.lower inNew access span scope start = .ok (.code code, stop) → SendsParcels code
  | .receive cases, _, succeeds => by
      simp only [NodeKind.lower, Lower.receive, map_eq_ok, bind_eq_ok, pure_eq_ok, Fragment.code.injEq] at succeeds
      obtain ⟨_, ⟨_, _, _, after, _, _, done, _, _, arms, _, _, rfl, rfl⟩, rfl⟩ := succeeds
      exact .receive after done arms
  | .loop cond body, copies, succeeds => by
      simp only [NodeKind.lower, Lower.loop, bind_eq_ok, map_eq_ok, expectValue_eq_ok, expectCode_eq_ok, pure_eq_ok,
        Fragment.code.injEq] at succeeds
      obtain ⟨_, _, _, _, _, lowered, _, ⟨_, _, ⟨rfl, rfl⟩, inner, _, ⟨rfl, rfl⟩, _, _, _, _, _, _, rfl, rfl⟩, rfl⟩ := succeeds
      have inside := Node.lower_parcels body copies lowered
      simp [Template.loop, Instr.SendsParcel, inside]
  | .branch cond onTrue onFalse, copies, succeeds => by
      simp only [NodeKind.lower, Lower.branch, bind_eq_ok, map_eq_ok, expectValue_eq_ok, expectCode_eq_ok,
        Fragment.code.injEq] at succeeds
      obtain ⟨_, _, _, _, _, lowered, other, _, otherwise, _,
        ⟨_, _, ⟨rfl, rfl⟩, inner, _, ⟨rfl, rfl⟩, _, _, _, joined⟩, rfl⟩ := succeeds
      obtain ⟨left, right⟩ := Bool.and_eq_true_iff.mp copies
      have inside := Node.lower_parcels onTrue left lowered
      cases other with
      | none =>
          simp only [pure_eq_ok] at joined
          obtain ⟨rfl, rfl⟩ := joined
          simp [Template.branch, Instr.SendsParcel, inside]
      | some fragment =>
          simp only [bind_eq_ok, expectCode_eq_ok, pure_eq_ok] at joined
          obtain ⟨other, _, ⟨rfl, rfl⟩, _, _, _, rfl, rfl⟩ := joined
          have inside' := lowerOptional_parcels onFalse right otherwise
          simp [Template.branchElse, Instr.SendsParcel, inside, inside']
  | .seq first rest, copies, succeeds => by
      simp only [NodeKind.lower, bind_eq_ok, expectCode_eq_ok, pure_eq_ok, Fragment.code.injEq] at succeeds
      obtain ⟨_, _, lowered, _, _, lowered', _, _, ⟨rfl, rfl⟩, _, _, ⟨rfl, rfl⟩, rfl, rfl⟩ := succeeds
      obtain ⟨left, right⟩ := Bool.and_eq_true_iff.mp copies
      exact SendsParcels.append.mpr ⟨Node.lower_parcels first left lowered, Node.lower_parcels rest right lowered'⟩
  | .block statements, copies, succeeds => by
      simp only [NodeKind.lower, bind_eq_ok, pure_eq_ok, Fragment.code.injEq] at succeeds
      obtain ⟨fragments, _, lowered, codes, _, expected, rfl, rfl⟩ := succeeds
      exact lowerAll_parcels statements copies lowered expected
  | .name _, copies, succeeds | .lit _, copies, succeeds | .nondet _, copies, succeeds | .unary _ _, copies, succeeds
  | .binary _ _ _, copies, succeeds | .field _ _, copies, succeeds | .tuple _, copies, succeeds
  | .namedTuple _, copies, succeeds | .default _, copies, succeeds | .cast _ _, copies, succeeds
  | .app _ _, copies, succeeds | .exprs _ _ _, copies, succeeds | .namedExprs _ _ _, copies, succeeds
  | .new _ _ _, copies, succeeds | .call _ _ _, copies, succeeds | .goto _ _, copies, succeeds
  | .raise _ _, copies, succeeds | .send _ _ _, copies, succeeds | .announce _ _, copies, succeeds
  | .assert _ _, copies, succeeds | .print _ _, copies, succeeds | .assign _ _ _, copies, succeeds
  | .remove _ _, copies, succeeds | .insert _ _, copies, succeeds | .pop, copies, succeeds
  | .ret _, copies, succeeds => NodeKind.single_parcels rfl copies succeeds

theorem lowerOptional_parcels {inNew : Bool} {access : Access} {start stop : Lowering.Progress} {code : List Instr} :
    (node : Option Node) → optionalSendsCopies node →
      lowerOptional inNew access node scope start = .ok (some (.code code), stop) → SendsParcels code
  | none, _, succeeds => by simp [lowerOptional, pure_eq_ok] at succeeds
  | some node, copies, succeeds => by
      simp only [lowerOptional, map_eq_ok, Option.some.injEq] at succeeds
      obtain ⟨_, lowered, rfl⟩ := succeeds
      exact Node.lower_parcels node copies lowered

theorem lowerAll_parcels {inNew : Bool} {start between stop : Lowering.Progress} {fragments : List Fragment}
    {codes : List (List Instr)} : (nodes : List Node) → allSendCopies nodes →
      lowerAll inNew nodes scope start = .ok (fragments, between) →
        fragments.mapM expectCode scope between = .ok (codes, stop) → SendsParcels codes.flatten
  | [], _, lowered, expected => by
      simp only [lowerAll, pure_eq_ok] at lowered
      obtain ⟨rfl, rfl⟩ := lowered
      simp only [List.mapM_nil, pure_eq_ok] at expected
      obtain ⟨rfl, rfl⟩ := expected
      exact .nil
  | node :: rest, copies, lowered, expected => by
      simp only [lowerAll, bind_eq_ok, pure_eq_ok] at lowered
      obtain ⟨_, _, first, others, _, later, rfl, rfl⟩ := lowered
      simp only [List.mapM_cons, bind_eq_ok, expectCode_eq_ok, pure_eq_ok] at expected
      obtain ⟨_, _, ⟨rfl, rfl⟩, codes, _, expected, rfl, rfl⟩ := expected
      obtain ⟨left, right⟩ := Bool.and_eq_true_iff.mp copies
      exact SendsParcels.append.mpr ⟨Node.lower_parcels node left first, lowerAll_parcels rest right later expected⟩

end

namespace Program

variable {program : Program} {options : LowerOptions} {image : Image}

/-- A program that moves nothing when it sends is lowered to code that sends copies only. -/
theorem lower_sendsParcels (succeeds : program.lower options = .ok image) (copies : program.sendsCopies) : image.SendsParcels := by
  intro function routine found
  obtain ⟨info, shape, code, labelCount, known, _, lowered, assembled⟩ :=
    lowerFunction_eq_ok ((lower_routine? succeeds function).2 routine found)
  obtain ⟨_, _, _, _, body, _⟩ := Routine.assemble_eq_ok assembled
  obtain ⟨_, ran, _⟩ := Lowering.Scope.body_lowered lowered
  have own : info.body.sendsCopies := List.all_eq_true.mp copies info (List.mem_of_getElem? known)
  have inside : SendsParcels (code ++ Routine.implicitReturn) :=
    SendsParcels.append.mpr ⟨Node.lower_parcels info.body own ran, by simp [Routine.implicitReturn, Instr.SendsParcel]⟩
  rw [body]
  exact inside

end Program

end Reentry
