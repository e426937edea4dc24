import Reentry.Lowering.Body

/-!
When steps of lowering succeed. A step reads the scope, takes the progress made so far and either fails
or gives a result and the new progress; a sequence of steps succeeds if each one does, so a success is
taken apart step by step.
-/

namespace Reentry.Lower

variable {α β : Type} {scope : Lowering.Scope} {start stop : Lowering.Progress}

theorem bind_eq_ok {work : Lower α} {rest : α → Lower β} {result : β} :
    (work >>= rest) scope start = .ok (result, stop) ↔
      ∃ middle between, work scope start = .ok (middle, between) ∧
        rest middle scope between = .ok (result, stop) := by
  change (work scope start >>= fun pair => rest pair.1 scope pair.2) = _ ↔ _
  constructor
  · intro succeeds
    cases first : work scope start with
    | error cause =>
        rw [first] at succeeds
        cases succeeds
    | ok pair =>
        rw [first] at succeeds
        exact ⟨pair.1, pair.2, rfl, succeeds⟩
  · rintro ⟨middle, between, first, second⟩
    rw [first]
    exact second

theorem pure_eq_ok {value result : α} :
    (pure value : Lower α) scope start = .ok (result, stop) ↔ value = result ∧ start = stop := by
  change Except.ok (value, start) = Except.ok (result, stop) ↔ _
  simp

theorem map_eq_ok {work : Lower α} {change : α → β} {result : β} :
    (change <$> work) scope start = .ok (result, stop) ↔
      ∃ middle, work scope start = .ok (middle, stop) ∧ change middle = result := by
  have unfolded : change <$> work = work >>= fun middle => pure (change middle) := rfl
  rw [unfolded, bind_eq_ok]
  constructor
  · rintro ⟨middle, between, first, second⟩
    obtain ⟨same, rfl⟩ := pure_eq_ok.mp second
    exact ⟨middle, first, same⟩
  · rintro ⟨middle, first, same⟩
    exact ⟨middle, stop, first, pure_eq_ok.mpr ⟨same, rfl⟩⟩

theorem get_eq_ok {result : Lowering.Progress} :
    (get : Lower Lowering.Progress) scope start = .ok (result, stop) ↔ start = result ∧ start = stop := by
  change Except.ok (start, start) = Except.ok (result, stop) ↔ _
  simp

theorem read_eq_ok {result : Lowering.Scope} :
    (read : Lower Lowering.Scope) scope start = .ok (result, stop) ↔ scope = result ∧ start = stop := by
  change Except.ok (scope, start) = Except.ok (result, stop) ↔ _
  simp

theorem throw_ne_ok {cause : LowerError} {result : α} :
    (throw cause : Lower α) scope start = .ok (result, stop) ↔ False := by
  change Except.error cause = Except.ok (result, stop) ↔ _
  simp

theorem unexpected_ne_ok {expected found : String} {result : α} :
    (unexpected expected found : Lower α) scope start = .ok (result, stop) ↔ False := by
  change Except.error _ = Except.ok (result, stop) ↔ _
  simp

theorem expectValue_eq_ok {fragment : Fragment} {operand : Operand} :
    expectValue fragment scope start = .ok (operand, stop) ↔ fragment = .value operand ∧ start = stop := by
  cases fragment <;> simp [expectValue, pure_eq_ok, unexpected_ne_ok]

theorem expectPlace_eq_ok {fragment : Fragment} {place : Place} :
    expectPlace fragment scope start = .ok (place, stop) ↔ fragment = .place place ∧ start = stop := by
  cases fragment <;> simp [expectPlace, pure_eq_ok, unexpected_ne_ok]

theorem expectCode_eq_ok {fragment : Fragment} {code : List Instr} :
    expectCode fragment scope start = .ok (code, stop) ↔ fragment = .code code ∧ start = stop := by
  cases fragment <;> simp [expectCode, pure_eq_ok, unexpected_ne_ok]

/-- Operands that name no location are lowered to values only. -/
theorem readOnly_eq_ok {access : Access} {operand : Operand} {fragment : Fragment} :
    readOnly access operand scope start = .ok (fragment, stop) ↔
      access = .read ∧ .value operand = fragment ∧ start = stop := by
  cases access <;> simp [readOnly, pure_eq_ok, unexpected_ne_ok]

theorem freshLabel_eq_ok {label : LabelId} :
    freshLabel scope start = .ok (label, stop) ↔
      label = ⟨start.supply.labels + 1⟩ ∧
        stop = { start with supply := { start.supply with labels := start.supply.labels + 1 } } := by
  change Except.ok (_, _) = Except.ok (label, stop) ↔ _
  simp [eq_comm]

theorem freshMark_eq_ok {mark : MarkId} :
    freshMark scope start = .ok (mark, stop) ↔
      mark = ⟨start.supply.marks + 1⟩ ∧
        stop = { start with supply := { start.supply with marks := start.supply.marks + 1 } } := by
  change Except.ok (_, _) = Except.ok (mark, stop) ↔ _
  simp [eq_comm]

theorem freshChoice_eq_ok {choice : Nat} :
    freshChoice scope start = .ok (choice, stop) ↔
      choice = start.nextChoice ∧
        stop = { start with
          pending := start.pending ++ [start.nextChoice]
          nextChoice := start.nextChoice + 1 } := by
  change Except.ok (_, _) = Except.ok (choice, stop) ↔ _
  simp [eq_comm]

theorem takeChoices_eq_ok {kept : Nat} {choices : List Nat} :
    takeChoices kept scope start = .ok (choices, stop) ↔
      choices = start.pending.drop kept ∧ stop = { start with pending := start.pending.take kept } := by
  change Except.ok (_, _) = Except.ok (choices, stop) ↔ _
  simp [eq_comm]

end Reentry.Lower
