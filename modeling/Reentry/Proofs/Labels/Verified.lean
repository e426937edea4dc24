import Reentry.Proofs.Labels.Assembled

/-!
The checks on assembled code never refuse what was lowered. Therefore lowering with and without them
gives the same, and neither fails as they do.
-/

namespace Reentry

open Lower

namespace Lowering.Scope

/-- Lowering a body is a step of which the code and the number of labels are kept. -/
theorem body_eq (scope : Lowering.Scope) : scope.body =
    ((scope.function.body.lower false .read >>= Lower.expectCode) scope .start >>= fun pair =>
      pure (pair.1, pair.2.supply.labels)) := rfl

/-- The code of a body does not depend on whether it will be checked. -/
theorem body_withVerify (scope : Lowering.Scope) (verify : Bool) : (scope.withVerify verify).body = scope.body := by
  have blind : Blind (scope.function.body.lower false .read >>= Lower.expectCode) :=
    Regular.bind (Regular.nodeLower false .read scope.function.body) Regular.expectCode
  rw [body_eq, body_eq]
  exact congrArg (· >>= _) (blind scope .start verify)

theorem body_unverified (scope : Lowering.Scope) (function message : String) :
    scope.body ≠ .error (.verification function message) := by
  have unverified : Unverified (scope.function.body.lower false .read >>= Lower.expectCode) :=
    Regular.bind (Regular.nodeLower false .read scope.function.body) Regular.expectCode
  rw [body_eq]
  intro failed
  cases done : (scope.function.body.lower false .read >>= Lower.expectCode) scope .start with
  | ok pair =>
      rw [done] at failed
      cases failed
  | error cause =>
      rw [done] at failed
      cases failed
      exact unverified scope .start function message done

end Lowering.Scope

namespace FrameShape

theorem checkSlots_unverified (name : String) (position : Nat) (decls : List VarDecl) (function message : String) :
    checkSlots name position decls ≠ .error (.verification function message) := by
  induction decls generalizing position with
  | nil => nofun
  | cons decl rest ih =>
      unfold checkSlots
      split
      · exact ih (position + 1)
      · nofun

theorem of_unverified (id : FunctionId) (info : FunctionInfo) (function message : String) :
    FrameShape.of id info ≠ .error (.verification function message) := by
  intro failed
  unfold FrameShape.of at failed
  by_cases tooMany : info.slotCount.toNat < info.params.length + info.locals.length
  · simp only [tooMany, if_true] at failed
    cases failed
  · simp only [tooMany, if_false] at failed
    cases checked : checkSlots info.name 0 (info.params ++ info.locals) with
    | error cause =>
        rw [checked] at failed
        cases failed
        exact checkSlots_unverified _ _ _ function message checked
    | ok _ =>
        rw [checked] at failed
        cases failed

end FrameShape

/-- A pass over a list fails as it does at one of the items. -/
theorem mapM_eq_error {ε α β : Type} {work : α → Except ε β} {items : List α} {cause : ε}
    (failed : items.mapM work = .error cause) : ∃ item ∈ items, work item = .error cause := by
  induction items with
  | nil => cases failed
  | cons item rest ih =>
      rw [List.mapM_cons] at failed
      cases first : work item with
      | error reason =>
          rw [first] at failed
          cases failed
          exact ⟨item, by simp, first⟩
      | ok result =>
          rw [first] at failed
          cases later : rest.mapM work with
          | error reason =>
              rw [later] at failed
              cases failed
              obtain ⟨other, member, fails⟩ := ih later
              exact ⟨other, by simp [member], fails⟩
          | ok results =>
              rw [later] at failed
              cases failed

namespace Program

variable {program : Program} {id : FunctionId} {info : FunctionInfo} {options : LowerOptions} {shape : FrameShape}
  {code : List Instr} {labelCount : Nat}

theorem lowerFunction_eq (known : program.function? id = some info) : program.lowerFunction id options = (do
    let shape ← FrameShape.of id info
    let (code, labelCount) ← Lowering.Scope.body ⟨program, info, options⟩
    Routine.assemble info shape code labelCount options.verify) := by
  unfold lowerFunction
  rw [known]

/-- A function whose frame and body can be laid out is assembled, checked or not. -/
theorem assemble_lowered (shaped : FrameShape.of id info = .ok shape)
    (lowered : Lowering.Scope.body ⟨program, info, options⟩ = .ok (code, labelCount)) :
    ∃ routine, (∀ verified, Routine.assemble info shape code labelCount verified = .ok routine) ∧
      (routine.dispatch = none ↔ labelCount = 0) ∧
      ∀ table, routine.dispatch = some table → table.length = labelCount :=
  Routine.assemble_succeeds (Lowering.Scope.body_exact lowered) (FrameShape.of_eq_ok shaped).2

/-- Whether a function can be lowered, and to what, does not depend on whether the result is checked. -/
theorem lowerFunction_verify (program : Program) (id : FunctionId) (options : LowerOptions) (verify : Bool) :
    program.lowerFunction id { options with verify } = program.lowerFunction id options := by
  cases known : program.function? id with
  | none =>
      unfold lowerFunction
      rw [known]
  | some info =>
      rw [lowerFunction_eq known, lowerFunction_eq known]
      cases shaped : FrameShape.of id info with
      | error cause => rfl
      | ok shape =>
          have same := Lowering.Scope.body_withVerify ⟨program, info, options⟩ verify
          simp only [Lowering.Scope.withVerify] at same
          simp only [same]
          cases lowered : Lowering.Scope.body ⟨program, info, options⟩ with
          | error cause => rfl
          | ok pair =>
              obtain ⟨routine, assembled, _⟩ := assemble_lowered shaped lowered
              change Routine.assemble info shape pair.1 pair.2 verify = Routine.assemble info shape pair.1 pair.2 options.verify
              rw [assembled, assembled]

theorem lowerFunction_unverified (program : Program) (id : FunctionId) (options : LowerOptions) (function message : String) :
    program.lowerFunction id options ≠ .error (.verification function message) := by
  intro failed
  cases known : program.function? id with
  | none =>
      unfold lowerFunction at failed
      rw [known] at failed
      cases failed
  | some info =>
      rw [lowerFunction_eq known] at failed
      cases shaped : FrameShape.of id info with
      | error cause =>
          rw [shaped] at failed
          cases failed
          exact FrameShape.of_unverified id info function message shaped
      | ok shape =>
          rw [shaped] at failed
          cases lowered : Lowering.Scope.body ⟨program, info, options⟩ with
          | error cause =>
              rw [lowered] at failed
              cases failed
              exact Lowering.Scope.body_unverified _ function message lowered
          | ok pair =>
              rw [lowered] at failed
              obtain ⟨routine, assembled, _⟩ := assemble_lowered shaped lowered
              change Routine.assemble info shape pair.1 pair.2 options.verify = _ at failed
              rw [assembled] at failed
              cases failed

theorem lower_verify (program : Program) (options : LowerOptions) (verify : Bool) :
    program.lower { options with verify } = program.lower options := by
  unfold lower
  simp only [lowerFunction_verify]

theorem lower_unverified (program : Program) (options : LowerOptions) (function message : String) :
    program.lower options ≠ .error (.verification function message) := by
  intro failed
  unfold lower at failed
  cases all : program.functionIds.mapM (fun id => program.lowerFunction id options) with
  | error cause =>
      rw [all] at failed
      cases failed
      obtain ⟨id, _, fails⟩ := mapM_eq_error all
      exact lowerFunction_unverified program id options function message fails
  | ok routines =>
      rw [all] at failed
      cases failed

end Program

/-- The labels of a routine are those from 1 to a number, each once; it can be entered at each of them,
every mark that it jumps to stands in it once, and whatever is resumed is resumed right behind the yield. -/
structure Routine.Labelled (routine : Routine) (labels : Nat) : Prop where
  count : routine.labelCount = labels
  each : routine.labelsInBody.Perm (LabelId.upTo labels)
  marks : ∀ instr ∈ routine.body, ∀ mark, .mark mark ∈ instr.targets →
    (routine.body.filterMap Instr.mark?).count mark = 1
  undispatched : routine.dispatch = none ↔ labels = 0
  dispatched : ∀ table, routine.dispatch = some table → table.length = labels ∧
    ∀ number position, table[number]? = some position → routine.body[position]? = some (Instr.label ⟨number + 1⟩)
  resumed : Resumable routine.body

namespace Routine.Labelled

variable {info : FunctionInfo} {shape : FrameShape} {code : List Instr} {labelCount needed : Nat} {verified : Bool}
  {routine : Routine}

/-- Exact code gives such a routine. -/
theorem of_exact (exact : Exact labelCount needed code)
    (assembled : assemble info shape code labelCount verified = .ok routine)
    (undispatched : routine.dispatch = none ↔ labelCount = 0)
    (entries : ∀ table, routine.dispatch = some table → table.length = labelCount) : routine.Labelled needed := by
  have laid := assemble_laid assembled exact.issued
  obtain ⟨_, _, _, count, body, _⟩ := assemble_eq_ok assembled
  have whole := exact.behind
  rw [← body] at whole
  obtain rfl := exact.count
  refine ⟨count, whole.labels, ?_, undispatched, ?_, whole.resumable⟩
  · intro instr member mark among
    obtain ⟨place, present, stands⟩ := whole.closed instr member (.mark mark) among
    have once := whole.once (.mark mark)
    have some := occurrences_pos present stands
    rw [← occurrences_mark]
    omega
  · intro table present
    refine ⟨entries table present, fun number position found => ?_⟩
    have bound : number < labelCount := by
      rw [← entries table present]
      exact (List.getElem?_eq_some_iff.mp found).1
    -- the label stands somewhere, and where it stands is where the table points
    have among : ⟨number + 1⟩ ∈ routine.labelsInBody :=
      whole.labels.mem_iff.mpr (LabelId.mem_upTo.mpr ⟨Nat.succ_pos _, bound⟩)
    obtain ⟨instr, member, stands⟩ := List.mem_filterMap.mp among
    obtain ⟨place, there⟩ := List.mem_iff_getElem?.mp member
    cases instr <;> cases stands
    have landing := laid.landing place _ there
    simp only [landing?, present, Option.bind_some, found, Option.some.injEq] at landing
    rw [landing]
    exact there

end Routine.Labelled

namespace Program

/-- The labels of a lowered function are exact, and the checks never refuse it: they neither change what
is assembled nor make lowering fail, so checking a program is lowering it. -/
theorem lowered_labels_exact (program : Program) (id : FunctionId) (info : FunctionInfo) (options : LowerOptions)
    (shape : FrameShape) (code : List Instr) (labelCount : Nat) (known : program.function? id = some info)
    (shaped : FrameShape.of id info = .ok shape)
    (lowered : Lowering.Scope.body ⟨program, info, options⟩ = .ok (code, labelCount)) :
    (∃ routine, (∀ verified, Routine.assemble info shape code labelCount verified = .ok routine) ∧
      (∀ verify, program.lowerFunction id { options with verify } = .ok routine) ∧
      routine.body = code ++ Routine.implicitReturn ∧ labelCount = info.body.labels ∧
      routine.Labelled info.body.labels) ∧
    (∀ options function message, program.lower options ≠ .error (.verification function message)) ∧
    ∀ settings, Command.check program settings =
      (program.lower settings.lower).mapError (.loweringWhile "Verification failed") := by
  have exact := Lowering.Scope.body_exact lowered
  obtain ⟨routine, assembled, undispatched, entries⟩ := assemble_lowered shaped lowered
  obtain ⟨_, _, _, _, body, _⟩ := Routine.assemble_eq_ok (assembled options.verify)
  have labelled := Routine.Labelled.of_exact exact (assembled options.verify) undispatched entries
  refine ⟨⟨routine, assembled, fun verify => ?_, body, exact.count, labelled⟩, program.lower_unverified, fun settings => ?_⟩
  · rw [lowerFunction_verify, lowerFunction_eq known, shaped]
    change (Lowering.Scope.body ⟨program, info, options⟩ >>= _) = _
    rw [lowered]
    exact assembled options.verify
  · unfold Command.check
    rw [lower_verify]

theorem game_labels_exact : ∃ shape code labelCount, Sample.game.function? ⟨0⟩ = some Sample.play ∧
    FrameShape.of ⟨0⟩ Sample.play = .ok shape ∧
    Lowering.Scope.body ⟨Sample.game, Sample.play, {}⟩ = .ok (code, labelCount) ∧ labelCount = 2 ∧
    ∃ routine, (∀ verified, Routine.assemble Sample.play shape code labelCount verified = .ok routine) ∧
      routine.Labelled 2 := by
  refine ⟨_, _, _, rfl, rfl, rfl, rfl, ?_⟩
  obtain ⟨⟨routine, assembled, _, _, _, labelled⟩, _⟩ :=
    lowered_labels_exact Sample.game ⟨0⟩ Sample.play {} _ _ _ rfl rfl rfl
  exact ⟨routine, assembled, labelled⟩

end Program

end Reentry
