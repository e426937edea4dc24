import Reentry.Proofs.Grammar.Admitted
import Reentry.Proofs.Labels.Verified

/-!
Lowering accepts the grammar and nothing else. A function is lowered just when its frame can be laid out and its body is a
statement; the options do not matter, and the checks on the assembled code refuse nothing.
-/

namespace Reentry

open Grammar

namespace FrameShape

theorem checkSlots_eq_ok {name : String} {position : Nat} {decls : List VarDecl} :
    checkSlots name position decls = .ok () ↔
      ∀ index (bound : index < decls.length), decls[index].slot.toNat = position + index := by
  induction decls generalizing position with
  | nil => exact ⟨fun _ _ bound => absurd bound (Nat.not_lt_zero _), fun _ => rfl⟩
  | cons decl rest ih =>
      rw [checkSlots]
      constructor
      · intro checked index bound
        split at checked
        · rename_i here
          cases index with
          | zero => exact here
          | succ index =>
              have later := ih.mp checked index (Nat.lt_of_succ_lt_succ bound)
              rw [List.getElem_cons_succ, later]
              omega
        · cases checked
      · intro placed
        have here : decl.slot.toNat = position := placed 0 (Nat.succ_pos _)
        rw [if_pos here]
        refine ih.mpr fun index bound => ?_
        have later := placed (index + 1) (Nat.succ_lt_succ bound)
        rw [List.getElem_cons_succ] at later
        omega

/-- A frame has a shape just when the variables are laid out in it. -/
theorem of_succeeds_iff {function : FunctionId} {info : FunctionInfo} :
    (∃ shape, FrameShape.of function info = .ok shape) ↔ info.LaidOut := by
  have placed : checkSlots info.name 0 (info.params ++ info.locals) = .ok () ↔
      ∀ index (bound : index < (info.params ++ info.locals).length), (info.params ++ info.locals)[index].slot.toNat = index := by
    rw [checkSlots_eq_ok]
    simp only [Nat.zero_add]
  constructor
  · rintro ⟨shape, succeeds⟩
    unfold FrameShape.of at succeeds
    by_cases tooMany : info.slotCount.toNat < info.params.length + info.locals.length
    · simp only [tooMany, if_true] at succeeds
      cases succeeds
    · simp only [tooMany, if_false] at succeeds
      cases checked : checkSlots info.name 0 (info.params ++ info.locals) with
      | error cause =>
          rw [checked] at succeeds
          cases succeeds
      | ok done => exact ⟨Nat.not_lt.mp tooMany, placed.mp checked⟩
  · rintro ⟨fits, each⟩
    unfold FrameShape.of
    simp only [Nat.not_lt.mpr fits, if_false, placed.mpr each]
    exact ⟨_, rfl⟩

end FrameShape

namespace Lowering.Scope

/-- A body has code just when it is a statement. -/
theorem body_succeeds_iff {scope : Lowering.Scope} :
    (∃ code labelCount, scope.body = .ok (code, labelCount)) ↔
      Statement scope.program scope.function scope.function.body := by
  constructor
  · rintro ⟨code, labelCount, succeeds⟩
    obtain ⟨progress, lowered, _⟩ := body_run succeeds
    exact node_admits false .read scope.function.body _ _ _ lowered
  · intro statement
    obtain ⟨_, progress, lowered, code, rfl⟩ := statement.lowered .start
    refine ⟨code, progress.supply.labels, ?_⟩
    rw [body_eq, Lower.bind_eq_ok.mpr ⟨_, _, lowered, Lower.expectCode_eq_ok.mpr ⟨rfl, rfl⟩⟩]
    rfl

end Lowering.Scope

namespace Program

/-- Lowering accepts exactly the functions of the program that can be laid out and whose body is a statement of the grammar,
whatever the options are. -/
theorem lowering_accepts_grammar (program : Program) (id : FunctionId) (options : LowerOptions) :
    (∃ routine, program.lowerFunction id options = .ok routine) ↔
      ∃ info, program.function? id = some info ∧ info.LaidOut ∧ Statement program info info.body := by
  constructor
  · rintro ⟨routine, succeeds⟩
    obtain ⟨info, shape, code, labelCount, known, shaped, lowered, _⟩ := lowerFunction_eq_ok succeeds
    exact ⟨info, known, FrameShape.of_succeeds_iff.mp ⟨shape, shaped⟩, Lowering.Scope.body_succeeds_iff.mp ⟨_, _, lowered⟩⟩
  · rintro ⟨info, known, laidOut, statement⟩
    obtain ⟨shape, shaped⟩ := (@FrameShape.of_succeeds_iff id info).mpr laidOut
    obtain ⟨code, labelCount, lowered⟩ := (@Lowering.Scope.body_succeeds_iff ⟨program, info, options⟩).mpr statement
    obtain ⟨routine, assembled, _⟩ := assemble_lowered shaped lowered
    refine ⟨routine, ?_⟩
    rw [lowerFunction_eq known, shaped]
    change (Lowering.Scope.body ⟨program, info, options⟩ >>= _) = _
    rw [lowered]
    exact assembled options.verify

/-- A program is lowered just when each of its functions is. -/
theorem lower_succeeds_iff {program : Program} {options : LowerOptions} :
    (∃ image, program.lower options = .ok image) ↔
      ∀ id ∈ program.functionIds, ∃ routine, program.lowerFunction id options = .ok routine := by
  constructor
  · rintro ⟨image, succeeds⟩ id member
    obtain ⟨position, found⟩ := List.mem_iff_getElem?.mp member
    obtain ⟨routine, lowered, _⟩ := (mapM_getElem? (lower_eq_ok succeeds) position).1 id found
    exact ⟨routine, lowered⟩
  · intro each
    obtain ⟨routines, lowered, _⟩ := mapM_succeeds each
    unfold lower
    rw [lowered]
    exact ⟨_, rfl⟩

end Program

end Reentry
