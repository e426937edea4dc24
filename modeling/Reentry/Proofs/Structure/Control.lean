import Reentry.Proofs.Structure.Layout

/-!
Control in an assembled body. A position follows an outline if control that reaches it does what the
outline says and then leaves the call without a value. What stands at such a position is decided by the
head of the outline, apart from labels, marks and jumps, of which only a bounded number come in a row.
-/

namespace Reentry

/-- Whether nothing happens at the instruction. -/
def Instr.isPosition : Instr → Bool
  | .label _ | .mark _ => true
  | _ => false

/-- Control at a position does what the outline says and then returns without a value. The rank bounds
how many labels, marks and jumps come before anything is done. -/
inductive Follows (routine : Routine) : Nat → Nat → List Outline → Prop
  | stop {rank position} (placed : CodeAt routine.body position Routine.implicitReturn) :
      Follows routine rank position []
  | code {rank position stop outline code rest} (spelled : Spells outline code)
      (placed : CodeAt routine.body position code) (ends : position + code.length = stop)
      (next : Follows routine rank stop rest) : Follows routine (rank + 1) position (outline ++ rest)
  | pass {rank position instr outline} (here : routine.body[position]? = some instr) (idle : instr.isPosition)
      (next : Follows routine rank (position + 1) outline) : Follows routine (rank + 1) position outline
  | jump {rank position target place outline} (here : routine.body[position]? = some (.jump target))
      (leads : routine.position? target = some place) (next : Follows routine rank place outline) :
      Follows routine (rank + 1) position outline
  | branch {rank less more position target place cond onTrue onFalse outline}
      (here : routine.body[position]? = some (.jumpUnless cond target))
      (leads : routine.position? target = some place)
      (whenTrue : Follows routine less (position + 1) (onTrue ++ outline))
      (whenFalse : Follows routine more place (onFalse ++ outline)) :
      Follows routine rank position (.branch cond onTrue onFalse :: outline)
  | invoke {rank less position callee landing outline} (label : routine.body[position]? = some (.label landing))
      (here : routine.body[position + 1]? = some (.invoke callee))
      (behind : routine.body[position + 2]? = some (.propagateSuspension callee landing))
      (next : Follows routine less (position + 3) outline) :
      Follows routine rank (position + 1) (.call callee :: outline)

/-- What stands at a position that follows an outline, and which positions follow what then remains. -/
inductive Stands (routine : Routine) (follows : Nat → Nat → List Outline → Prop) : Nat → Nat → List Outline → Prop
  | stop {rank position} (here : routine.body[position]? = some (.yield .ret))
      (behind : routine.body[position + 1]? = some .exit) : Stands routine follows rank position []
  | pass {rank less position instr outline} (here : routine.body[position]? = some instr) (idle : instr.isPosition)
      (next : follows less (position + 1) outline) (falls : less < rank) : Stands routine follows rank position outline
  | jump {rank less position target place outline} (here : routine.body[position]? = some (.jump target))
      (leads : routine.position? target = some place) (next : follows less place outline) (falls : less < rank) :
      Stands routine follows rank position outline
  | act {rank less position instr outline} (here : routine.body[position]? = some instr) (straight : instr.isStraight)
      (next : follows less (position + 1) outline) : Stands routine follows rank position (.act instr :: outline)
  | finish {rank position request outline} (here : routine.body[position]? = some (.yield request))
      (behind : routine.body[position + 1]? = some .exit) (final : request.question? = none) :
      Stands routine follows rank position (.finish request :: outline)
  | ask {rank less position question resume place outline}
      (here : routine.body[position]? = some (.yield (question.request resume)))
      (behind : routine.body[position + 1]? = some .exit) (leads : routine.landing? resume = some place)
      (close : place = position + 2) (next : follows less place outline) :
      Stands routine follows rank position (.ask question :: outline)
  | call {rank less more position callee landing place outline}
      (here : routine.body[position]? = some (.invoke callee))
      (behind : routine.body[position + 1]? = some (.propagateSuspension callee landing))
      (leads : routine.landing? landing = some place) (close : position = place + 1)
      (label : routine.body[place]? = some (.label landing)) (again : follows less place (.call callee :: outline))
      (next : follows more (position + 2) outline) : Stands routine follows rank position (.call callee :: outline)
  | dispatch {rank less position arms outline} (here : routine.body[position]? = some (.dispatchReceive arms))
      (next : ∀ arm ∈ arms, ∃ place, routine.landing? arm.entry = some place ∧
        follows less place (.call arm.handler :: outline)) :
      Stands routine follows rank position (.dispatch (arms.map ReceiveArm.case) :: outline)
  | branch {rank less more position target place cond onTrue onFalse outline}
      (here : routine.body[position]? = some (.jumpUnless cond target))
      (leads : routine.position? target = some place)
      (whenTrue : follows less (position + 1) (onTrue ++ outline))
      (whenFalse : follows more place (onFalse ++ outline)) :
      Stands routine follows rank position (.branch cond onTrue onFalse :: outline)
  | loop {rank less position mark choices cond body outline} (here : routine.body[position]? = some (.mark mark))
      (next : follows less (position + 1)
        (Outline.chooseAll choices ++ .branch cond (body ++ [.loop choices cond body]) [] :: outline)) :
      Stands routine follows rank position (.loop choices cond body :: outline)

namespace Stands

variable {routine : Routine} {follows : Nat → Nat → List Outline → Prop} {rank more position : Nat}
  {outline : List Outline}

theorem mono (stands : Stands routine follows rank position outline) (le : rank ≤ more) :
    Stands routine follows more position outline := by
  cases stands with
  | stop here behind => exact .stop here behind
  | pass here idle next falls => exact .pass here idle next (by omega)
  | jump here leads next falls => exact .jump here leads next (by omega)
  | act here straight next => exact .act here straight next
  | finish here behind final => exact .finish here behind final
  | ask here behind leads close next => exact .ask here behind leads close next
  | call here behind leads close label again next => exact .call here behind leads close label again next
  | dispatch here next => exact .dispatch here next
  | branch here leads whenTrue whenFalse => exact .branch here leads whenTrue whenFalse
  | loop here next => exact .loop here next

end Stands

namespace Follows

variable {routine : Routine} {rank position : Nat} {outline : List Outline}

theorem moved (follows : Follows routine rank position outline) (place : Nat) (same : position = place) :
    Follows routine rank place outline :=
  same ▸ follows

/-- The arms of a receive, in front of what follows the receive. -/
theorem arms {stop : Nat} {arms : List ReceiveArm} {done : LabelId} (laid : routine.Laid)
    (placed : CodeAt routine.body position (arms.flatMap (Template.receiveArm done)))
    (label : routine.body[stop]? = some (.label done)) (next : Follows routine rank (stop + 1) outline) :
    ∀ arm ∈ arms, ∃ place, routine.landing? arm.entry = some place ∧
      Follows routine 1 place (.call arm.handler :: outline) := by
  intro arm member
  obtain ⟨before, after, rfl⟩ := List.append_of_mem member
  rw [List.flatMap_append, List.flatMap_cons] at placed
  have own := placed.right.left
  generalize position + (before.flatMap (Template.receiveArm done)).length = place at own
  have back : Follows routine (rank + 2) (place + 3) outline :=
    .jump own.tail.tail.tail.head (laid.landing stop done label) (.pass label rfl next)
  exact ⟨place, laid.landing place arm.entry own.head,
    .pass own.head rfl (.invoke own.head own.tail.head own.tail.tail.head back)⟩

/-- What stands at a position is what the outline begins with. -/
theorem stands (laid : routine.Laid) (follows : Follows routine rank position outline) :
    Stands routine (Follows routine) rank position outline := by
  induction follows with
  | stop placed => exact .stop placed.head placed.tail.head
  | pass here idle next _ => exact .pass here idle next (Nat.lt_succ_self _)
  | jump here leads next _ => exact .jump here leads next (Nat.lt_succ_self _)
  | branch here leads whenTrue whenFalse _ _ => exact .branch here leads whenTrue whenFalse
  | @invoke rank less position callee landing outline label here behind next _ =>
      have again : Follows routine 0 (position + 1) (.call callee :: outline) := .invoke label here behind next
      exact .call here behind (laid.landing position landing label) rfl label (.pass label rfl again) next
  | @code rank position stop outline code rest spelled placed ends next ih =>
      cases spelled with
      | nil =>
          obtain rfl : position = stop := by simpa using ends
          exact ih.mono (Nat.le_succ _)
      | act straight tail =>
          rw [List.length_cons] at ends
          exact .act placed.head straight (.code tail placed.tail (by omega) next)
      | finish final tail => exact .finish placed.head placed.tail.head final
      | ask resume tail =>
          simp only [List.length_cons] at ends
          have label := placed.tail.tail.head
          exact .ask placed.head placed.tail.head (laid.landing _ resume label) rfl
            (.pass label rfl (.code tail placed.tail.tail.tail (by omega) next))
      | call landing tail =>
          simp only [List.length_cons] at ends
          have after := Follows.code tail placed.tail.tail.tail (by omega) next
          have own : Follows routine 0 (position + 1) _ :=
            .invoke placed.head placed.tail.head placed.tail.tail.head after
          exact .pass placed.head rfl own (Nat.succ_pos _)
      | dispatch arms done tail =>
          have behind := placed.tail.right
          simp only [List.length_cons, List.length_append] at ends
          have after := Follows.code tail behind.tail (by omega) next
          exact .dispatch placed.head (Follows.arms laid placed.tail.left behind.head after)
      | @branch cond onTrue inner _ code mark body tail =>
          have branch : CodeAt routine.body position (Template.branch mark cond inner) := placed.left
          have mark' := branch.tail.right.head
          have long : (Template.branch mark cond inner).length = inner.length + 2 := by simp [Template.branch]
          rw [List.length_append, long] at ends
          have behind := placed.right.moved (position + 1 + inner.length + 1) (by omega)
          have atMark := Follows.pass mark' rfl (.code tail behind (by omega) next)
          exact .branch branch.head (laid.target _ mark mark') (.code body branch.tail.left rfl atMark) atMark
      | @branchElse cond onTrue onFalse inner other _ code mark otherwise left right tail =>
          have branch : CodeAt routine.body position (Template.branchElse mark otherwise cond inner other) := placed.left
          have turn := branch.tail.left.left.right
          have elsewhere := branch.tail.left.right.moved (position + inner.length + 3) (by simp; omega)
          have mark' := (branch.tail.right.moved (position + inner.length + other.length + 3)
            (by simp; omega)).head
          have long : (Template.branchElse mark otherwise cond inner other).length = inner.length + other.length + 4 := by
            simp [Template.branchElse]
            omega
          rw [List.length_append, long] at ends
          have behind := placed.right.moved (position + inner.length + other.length + 3 + 1) (by omega)
          have atMark := Follows.pass mark' rfl (.code tail behind (by omega) next)
          have whenTrue := Follows.code left branch.tail.left.left.left rfl
            (.jump turn.head (laid.target _ mark mark') atMark)
          have whenFalse := Follows.code right elsewhere (by omega) atMark
          have otherwise' := turn.tail.head
          exact .branch branch.head (laid.target _ otherwise otherwise') whenTrue
            (.pass otherwise' rfl (whenFalse.moved _ (by omega)))
      | @loop choices asks cond body inner _ code start mark head round tail =>
          -- the jump at the end of a round leads back to this very loop
          have again := Follows.code (.loop start mark head round tail) placed ends next
          have loop : CodeAt routine.body position (.mark start :: (asks ++ (.jumpUnless cond (.mark mark) ::
            (inner ++ [.jump (.mark start), .mark mark])))) := placed.left
          have test := loop.tail.right
          have turn := test.tail.right
          have mark' := turn.tail.head
          have long : (Template.withChoices true asks (Template.loop start mark cond inner)).length
              = asks.length + inner.length + 4 := by
            simp [Template.withChoices, Template.loop]
            omega
          rw [List.length_append, long] at ends
          have behind := placed.right.moved (position + 1 + asks.length + 1 + inner.length + 1 + 1) (by omega)
          have atMark := Follows.pass mark' rfl (.code tail behind (by omega) next)
          have back := Follows.jump turn.head (laid.target position start loop.head) again
          have rounds := Follows.code round test.tail.left rfl back
          rw [List.cons_append, ← List.singleton_append, ← List.append_assoc] at rounds
          have choice : Follows routine 0 _ (.branch cond _ [] :: _) :=
            .branch test.head (laid.target _ mark mark') rounds atMark
          exact .loop loop.head (.code head loop.tail.left rfl choice)

end Follows

namespace Lowering.Scope

variable {scope : Lowering.Scope} {code : List Instr} {labelCount : Nat}

/-- A body that can be lowered is a statement. -/
theorem body_lowered (succeeds : scope.body = .ok (code, labelCount)) :
    ∃ progress, scope.function.body.lower false .read scope .start = .ok (.code code, progress) ∧
      progress.supply.labels = labelCount := by
  unfold Lowering.Scope.body at succeeds
  cases lowered : (scope.function.body.lower false .read >>= Lower.expectCode) scope .start with
  | error cause =>
      change ((scope.function.body.lower false .read >>= Lower.expectCode) scope .start >>= fun pair =>
        pure (pair.1, pair.2.supply.labels)) = _ at succeeds
      rw [lowered] at succeeds
      cases succeeds
  | ok pair =>
      change ((scope.function.body.lower false .read >>= Lower.expectCode) scope .start >>= fun pair =>
        pure (pair.1, pair.2.supply.labels)) = _ at succeeds
      rw [lowered] at succeeds
      cases succeeds
      obtain ⟨fragment, between, body, expected⟩ := Lower.bind_eq_ok.mp lowered
      obtain ⟨rfl, rfl⟩ := Lower.expectCode_eq_ok.mp expected
      exact ⟨_, body, rfl⟩

/-- It has an outline, which its code spells with labels that were issued for it. -/
theorem body_eq_ok (succeeds : scope.body = .ok (code, labelCount)) :
    Issued labelCount code ∧ ∃ outline progress,
      scope.function.body.outline scope .start = .ok (outline, progress) ∧ Spells outline code := by
  obtain ⟨progress, body, rfl⟩ := body_lowered succeeds
  obtain ⟨outline, outlined, spelled⟩ := Node.lower_spells scope.function.body body
  exact ⟨Node.lower_issued _ body, outline, progress, outlined, spelled⟩

end Lowering.Scope

namespace Program

variable {program : Program} {id : FunctionId} {options : LowerOptions} {routine : Routine}

/-- What lowering a function consists of. -/
theorem lowerFunction_eq_ok (succeeds : program.lowerFunction id options = .ok routine) :
    ∃ info shape code labelCount, program.function? id = some info ∧ FrameShape.of id info = .ok shape ∧
      Lowering.Scope.body ⟨program, info, options⟩ = .ok (code, labelCount) ∧
      Routine.assemble info shape code labelCount options.verify = .ok routine := by
  unfold lowerFunction at succeeds
  cases known : program.function? id with
  | none =>
      rw [known] at succeeds
      cases succeeds
  | some info =>
      rw [known] at succeeds
      cases shaped : FrameShape.of id info with
      | error cause =>
          simp only [shaped] at succeeds
          cases succeeds
      | ok shape =>
          simp only [shaped] at succeeds
          cases lowered : Lowering.Scope.body ⟨program, info, options⟩ with
          | error cause =>
              simp only [lowered] at succeeds
              cases succeeds
          | ok pair =>
              simp only [lowered] at succeeds
              exact ⟨info, shape, pair.1, pair.2, rfl, shaped, lowered, succeeds⟩

/-- The code of a lowered function follows the outline of its body from the start on. -/
theorem lowerFunction_follows (succeeds : program.lowerFunction id options = .ok routine) :
    routine.Laid ∧ ∃ outline rank, program.outline id options = .ok outline ∧ Follows routine rank 0 outline := by
  obtain ⟨info, shape, code, labelCount, known, _, lowered, assembled⟩ := lowerFunction_eq_ok succeeds
  obtain ⟨issued, outline, progress, outlined, spelled⟩ := Lowering.Scope.body_eq_ok lowered
  have laid := Routine.assemble_laid assembled issued
  obtain ⟨_, _, _, _, body, _⟩ := Routine.assemble_eq_ok assembled
  refine ⟨laid, outline, 1, ?_, ?_⟩
  · unfold Program.outline
    rw [known]
    change (info.body.outline ⟨program, info, options⟩ .start >>= fun pair => pure pair.1) = _
    rw [outlined]
    rfl
  · have whole : CodeAt routine.body 0 (code ++ Routine.implicitReturn) := by
      rw [body]
      simpa only [List.append_nil] using CodeAt.refl (code ++ Routine.implicitReturn) []
    have behind := whole.right.moved _ (Nat.zero_add _)
    have finish : Follows routine 0 code.length [] := .stop behind
    rw [← List.append_nil outline]
    exact .code spelled whole.left (Nat.zero_add _) finish

end Program

end Reentry
