import Mathlib.Algebra.GroupWithZero.Nat
import Reentry.Proofs.Lowering.Monad

/-!
Accounts of the labels and marks that lowering issues. Whatever is issued while a part of a body is
lowered stands in the code of that part, and stands there once; a label that a choice gets later is
promised when the choice becomes pending. So the tree of a body tells how many labels its code has.
-/

namespace Reentry

/-- The label or the mark that an instruction puts at its place. -/
def Instr.target? : Instr → Option Target
  | .label landing => some (.label landing)
  | .mark position => some (.mark position)
  | _ => none

/-- How often a label or a mark stands in code. -/
def occurrences (target : Target) (code : List Instr) : Nat := (code.filterMap Instr.target?).count target

section

variable (target : Target)

@[simp] theorem occurrences_nil : occurrences target [] = 0 := rfl

theorem occurrences_cons (instr : Instr) (code : List Instr) :
    occurrences target (instr :: code) = (if instr.target? = some target then 1 else 0) + occurrences target code := by
  unfold occurrences
  cases found : instr.target? with
  | none => simp [found]
  | some other =>
      rw [List.filterMap_cons, found]
      simp only [List.count_cons, beq_iff_eq, Option.some.injEq]
      omega

@[simp] theorem occurrences_append (first rest : List Instr) :
    occurrences target (first ++ rest) = occurrences target first + occurrences target rest := by
  simp [occurrences]

/-- A label or a mark in a list of code parts stands in one of the parts. -/
theorem occurrences_flatten (parts : List (List Instr)) :
    occurrences target parts.flatten = (parts.map (occurrences target)).sum := by
  induction parts with
  | nil => rfl
  | cons part rest ih => simp [ih]

theorem occurrences_plain {code : List Instr} (plain : ∀ instr ∈ code, instr.target? = none) :
    occurrences target code = 0 := by
  induction code with
  | nil => rfl
  | cons instr rest ih =>
      have first : instr.target? = none := plain instr (by simp)
      have others := ih fun other member => plain other (by simp [member])
      simp [occurrences_cons, first, others]

theorem occurrences_withChoices (isLoop : Bool) (asks code : List Instr) :
    occurrences target (Template.withChoices isLoop asks code) = occurrences target asks + occurrences target code := by
  unfold Template.withChoices
  split
  · simp only [occurrences_cons, occurrences_append]
    omega
  · exact occurrences_append target asks code

end

/-- Whether a label or a mark has been issued, as a number. -/
def LabelSupply.issued (supply : LabelSupply) : Target → Nat
  | .label landing => if 0 < landing.number ∧ landing.number ≤ supply.labels then 1 else 0
  | .mark position => if 0 < position.number ∧ position.number ≤ supply.marks then 1 else 0

/-- How many labels there will be when the pending choices have theirs. -/
def Lowering.Progress.promised (progress : Lowering.Progress) : Nat :=
  progress.supply.labels + progress.pending.length

/-! The labels that a tree needs: one for each send, new, call and choice, and in a receive one behind the
question, one behind the arms and one in front of each arm. -/

mutual

/-- Labels of a tree. -/
@[grind] def Node.labels : Node → Nat
  | .mk _ _ kind => kind.labels

@[grind] def NodeKind.labels : NodeKind → Nat
  | .nondet _ => 1
  | .new _ args out | .call _ args out => 1 + optionalLabels args + optionalLabels out
  | .send target event args => 1 + target.labels + event.labels + optionalLabels args
  | .receive cases => 2 + cases.length
  | .name _ | .lit _ | .default _ | .pop => 0
  | .unary _ part | .field part _ | .tuple part | .namedTuple part | .cast part _ | .assert part _ => part.labels
  | .binary _ first second | .assign first second _ | .remove first second | .insert first second
  | .loop first second | .seq first second => first.labels + second.labels
  | .app _ part | .goto _ part | .print _ part | .ret part => optionalLabels part
  | .exprs _ first rest | .namedExprs _ first rest | .raise first rest | .announce first rest =>
      first.labels + optionalLabels rest
  | .branch cond onTrue onFalse => cond.labels + onTrue.labels + optionalLabels onFalse
  | .block statements => allLabels statements

@[grind] def optionalLabels : Option Node → Nat
  | none => 0
  | some node => node.labels

@[grind] def allLabels : List Node → Nat
  | [] => 0
  | node :: rest => node.labels + allLabels rest

end

namespace Fragment

/-- How often a label or a mark stands in a fragment; only code has any. -/
@[grind] def occurrences (target : Target) : Fragment → Nat
  | .code body => Reentry.occurrences target body
  | .value _ | .place _ => 0

end Fragment

namespace Destination

@[grind] def occurrences (target : Target) : Destination → Nat
  | .element _ container key => container.occurrences target + key.occurrences target
  | .part _ _ container => container.occurrences target
  | .whole dest => dest.occurrences target

end Destination

/-- How often a label or a mark stands in the items of a list. -/
def ListItem.occurrences (target : Target) (items : List ListItem) : Nat :=
  (items.map fun item => item.fragment.occurrences target).sum

/-- How often a label or a mark stands in fragments. -/
def Fragment.total (target : Target) (fragments : List Fragment) : Nat :=
  (fragments.map (Fragment.occurrences target)).sum

@[grind =] theorem ListItem.occurrences_cons (target : Target) (item : ListItem) (items : List ListItem) :
    occurrences target (item :: items) = item.fragment.occurrences target + occurrences target items := by
  simp [occurrences]

@[grind =] theorem Fragment.total_nil (target : Target) : total target [] = 0 := rfl

@[grind =] theorem Fragment.total_cons (target : Target) (fragment : Fragment) (fragments : List Fragment) :
    total target (fragment :: fragments) = fragment.occurrences target + total target fragments := by
  simp [total]

namespace Lower

variable {α β : Type}

/-- A step of lowering whose result is good, given how often it issues the target and how many labels it
promises. -/
def Books (target : Target) (work : Lower α) (good : α → Nat → Nat → Prop) : Prop :=
  ∀ scope start result stop, work scope start = .ok (result, stop) →
    ∃ issued promised, stop.supply.issued target = start.supply.issued target + issued ∧
      stop.promised = start.promised + promised ∧ good result issued promised

/-- A step of lowering that issues and promises nothing. -/
abbrev Idle (target : Target) (work : Lower α) (good : α → Prop) : Prop :=
  Books target work fun result issued promised => issued = 0 ∧ promised = 0 ∧ good result

namespace Books

variable {target : Target} {good : α → Nat → Nat → Prop}

theorem pure {value : α} (holds : good value 0 0) : Books target (pure value) good := by
  intro scope start result stop succeeds
  obtain ⟨rfl, rfl⟩ := pure_eq_ok.mp succeeds
  exact ⟨0, 0, rfl, rfl, holds⟩

/-- What a first step issues and promises is added to what the second one does. -/
theorem bind {better : β → Nat → Nat → Prop} {work : Lower α} {rest : α → Lower β} (first : Books target work good)
    (later : ∀ value, Books target (rest value) fun result issued promised =>
      ∀ before due, good value before due → better result (before + issued) (due + promised)) :
    Books target (work >>= rest) better := by
  intro scope start result stop succeeds
  obtain ⟨value, between, done, continued⟩ := bind_eq_ok.mp succeeds
  obtain ⟨before, due, issued, promised, holds⟩ := first _ _ _ _ done
  obtain ⟨more, further, issued', promised', holds'⟩ := later value _ _ _ _ continued
  refine ⟨before + more, due + further, by omega, by omega, ?_⟩
  exact holds' before due holds

theorem weaken {better : α → Nat → Nat → Prop} {work : Lower α} (books : Books target work good)
    (imp : ∀ value issued promised, good value issued promised → better value issued promised) :
    Books target work better := by
  intro scope start result stop succeeds
  obtain ⟨issued, promised, supplied, due, holds⟩ := books _ _ _ _ succeeds
  exact ⟨issued, promised, supplied, due, imp _ _ _ holds⟩

theorem map {better : β → Nat → Nat → Prop} {change : α → β} {work : Lower α} (books : Books target work good)
    (imp : ∀ value issued promised, good value issued promised → better (change value) issued promised) :
    Books target (change <$> work) better := by
  intro scope start result stop succeeds
  obtain ⟨value, done, rfl⟩ := map_eq_ok.mp succeeds
  obtain ⟨issued, promised, supplied, due, holds⟩ := books _ _ _ _ done
  exact ⟨issued, promised, supplied, due, imp _ _ _ holds⟩

theorem throw (cause : LowerError) : Books target (throw cause) good := by
  intro scope start result stop succeeds
  exact (throw_ne_ok.mp succeeds).elim

theorem unexpected (expected found : String) : Books target (unexpected expected found) good := by
  intro scope start result stop succeeds
  exact (unexpected_ne_ok.mp succeeds).elim

theorem read : Idle target read fun _ => True := by
  intro scope start result stop succeeds
  obtain ⟨_, rfl⟩ := read_eq_ok.mp succeeds
  exact ⟨0, 0, rfl, rfl, rfl, rfl, trivial⟩

theorem freshLabel : Books target freshLabel fun label issued promised =>
    issued = (if .label label = target then 1 else 0) ∧ promised = 1 := by
  intro scope start result stop succeeds
  obtain ⟨rfl, rfl⟩ := freshLabel_eq_ok.mp succeeds
  refine ⟨_, 1, ?_, ?_, rfl, rfl⟩
  · cases target with
    | label landing =>
        obtain ⟨number⟩ := landing
        simp only [LabelSupply.issued, Target.label.injEq, LabelId.mk.injEq]
        grind
    | mark position => simp [LabelSupply.issued]
  · simp only [Lowering.Progress.promised]
    omega

theorem freshMark : Books target freshMark fun mark issued promised =>
    issued = (if .mark mark = target then 1 else 0) ∧ promised = 0 := by
  intro scope start result stop succeeds
  obtain ⟨rfl, rfl⟩ := freshMark_eq_ok.mp succeeds
  refine ⟨_, 0, ?_, rfl, rfl, rfl⟩
  cases target with
  | label landing => simp [LabelSupply.issued]
  | mark position =>
      obtain ⟨number⟩ := position
      simp only [LabelSupply.issued, Target.mark.injEq, MarkId.mk.injEq]
      grind

theorem freshChoice : Books target freshChoice fun _ issued promised => issued = 0 ∧ promised = 1 := by
  intro scope start result stop succeeds
  obtain ⟨rfl, rfl⟩ := freshChoice_eq_ok.mp succeeds
  refine ⟨0, 1, rfl, ?_, rfl, rfl⟩
  simp only [Lowering.Progress.promised, List.length_append, List.length_singleton]
  omega

/-- Steps that issue and promise nothing, one for each item of a list. -/
theorem mapM_idle {size : α → Nat} {work : α → Lower β} (idle : ∀ item, Idle target (work item) fun _ => size item = 0)
    (items : List α) : Idle target (items.mapM work) fun _ => (items.map size).sum = 0 := by
  induction items with
  | nil => exact pure ⟨rfl, rfl, rfl⟩
  | cons item rest ih =>
      rw [List.mapM_cons]
      refine bind (idle item) fun first => bind ih fun others => pure ?_
      simp only [List.map_cons, List.sum_cons]
      grind

/-- Steps that each issue what stands in their own result and promise as many labels. -/
theorem mapM_sum {size : β → Nat} {due : Nat} {work : α → Lower β}
    (books : ∀ item, Books target (work item) fun result issued promised => issued = size result ∧ promised = due)
    (items : List α) : Books target (items.mapM work) fun results issued promised =>
      issued = (results.map size).sum ∧ promised = items.length * due := by
  induction items with
  | nil => exact pure ⟨rfl, by simp⟩
  | cons item rest ih =>
      rw [List.mapM_cons]
      refine bind (books item) fun first => bind ih fun others => pure ?_
      simp only [List.map_cons, List.sum_cons, List.length_cons, Nat.add_mul]
      grind

theorem forM_idle {work : α → Lower PUnit} (idle : ∀ item, Idle target (work item) fun _ => True) (items : List α) :
    Idle target (items.forM work) fun _ => True := by
  induction items with
  | nil => exact pure ⟨rfl, rfl, trivial⟩
  | cons item rest ih => exact bind (idle item) fun _ => ih.weaken (by grind)

end Books

end Lower

end Reentry
