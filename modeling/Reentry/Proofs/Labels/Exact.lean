import Mathlib.Data.List.Nodup
import Reentry.Command
import Reentry.Proofs.Frames.Stack
import Reentry.Proofs.Labels.Account
import Reentry.Proofs.Labels.Lowered
import Reentry.Proofs.Structure.Spelling

/-!
Code that spells an outline is complete: whatever it jumps to or comes back at stands in it, and a yield
that the call resumes after stands in front of an exit and of the label at which it resumes.
-/

namespace Reentry

/-- Every place that the code may continue at besides the next one stands in the code. -/
def SelfContained (code : List Instr) : Prop :=
  ∀ instr ∈ code, ∀ target ∈ instr.targets, ∃ place ∈ code, place.target? = some target

/-- Behind every yield that the call resumes after stand an exit and the label at which it resumes. -/
def Resumable (code : List Instr) : Prop :=
  ∀ position request resume, code[position]? = some (.yield request) → request.resume? = some resume →
    code[position + 1]? = some .exit ∧ code[position + 2]? = some (.label resume)

namespace SelfContained

theorem nil : SelfContained [] := by
  intro instr member
  cases member

theorem append {first rest : List Instr} (left : SelfContained first) (right : SelfContained rest) :
    SelfContained (first ++ rest) := by
  intro instr member target among
  rcases List.mem_append.mp member with early | late
  · obtain ⟨place, present, stands⟩ := left instr early target among
    exact ⟨place, List.mem_append_left _ present, stands⟩
  · obtain ⟨place, present, stands⟩ := right instr late target among
    exact ⟨place, List.mem_append_right _ present, stands⟩

/-- Where the instructions stand does not matter. -/
theorem rearranged {code other : List Instr} (closed : SelfContained code) (same : ∀ instr, instr ∈ other ↔ instr ∈ code) :
    SelfContained other := by
  intro instr member target among
  obtain ⟨place, present, stands⟩ := closed instr ((same instr).mp member) target among
  exact ⟨place, (same place).mpr present, stands⟩

end SelfContained

namespace Resumable

theorem nil : Resumable [] := by
  intro position request resume found
  simp at found

theorem append {first rest : List Instr} (left : Resumable first) (right : Resumable rest) :
    Resumable (first ++ rest) := by
  intro position request resume found resumes
  by_cases early : position < first.length
  · rw [List.getElem?_append_left early] at found
    obtain ⟨exit, label⟩ := left position request resume found resumes
    have bound : position + 2 < first.length := (List.getElem?_eq_some_iff.mp label).1
    rw [List.getElem?_append_left (by omega), List.getElem?_append_left bound]
    exact ⟨exit, label⟩
  · have late : first.length ≤ position := Nat.le_of_not_lt early
    rw [List.getElem?_append_right late] at found
    obtain ⟨exit, label⟩ := right _ request resume found resumes
    rw [List.getElem?_append_right (by omega), List.getElem?_append_right (by omega),
      show position + 1 - first.length = position - first.length + 1 by omega,
      show position + 2 - first.length = position - first.length + 2 by omega]
    exact ⟨exit, label⟩

/-- What stands behind the first instruction. -/
theorem tail {instr : Instr} {code : List Instr} (resumable : Resumable (instr :: code)) : Resumable code := by
  intro position request resume found resumes
  exact resumable (position + 1) request resume found resumes

/-- Instructions after which nothing resumes. -/
theorem plain {code : List Instr} (plain : ∀ request resume, .yield request ∈ code → request.resume? ≠ some resume) :
    Resumable code := by
  intro position request resume found resumes
  exact absurd resumes (plain request resume (List.mem_of_getElem? found))

theorem suspend {request : YieldRequest} {resume : LabelId} (resumes : request.resume? = some resume) :
    Resumable (Template.suspend request resume) := by
  intro position other label found among
  match position with
  | 0 =>
      obtain rfl : request = other := by simpa [Template.suspend] using found
      obtain rfl : resume = label := by simpa [resumes] using among
      exact ⟨rfl, rfl⟩
  | 1 | 2 => simp [Template.suspend] at found
  | position + 3 => simp [Template.suspend] at found

end Resumable

namespace Instr

theorem targets_of_isStraight {instr : Instr} (straight : instr.isStraight) : instr.targets = [] := by
  cases instr <;> first | rfl | simp [isStraight] at straight

theorem target?_eq_mark? (instr : Instr) (mark : MarkId) : instr.target? = some (.mark mark) ↔ instr.mark? = some mark := by
  cases instr <;> simp [target?, mark?]

theorem target?_eq_label? (instr : Instr) (label : LabelId) :
    instr.target? = some (.label label) ↔ instr.label? = some label := by
  cases instr <;> simp [target?, label?]

end Instr

theorem YieldRequest.resume?_eq_none {request : YieldRequest} (final : request.question? = none) :
    request.resume? = none := by
  cases request <;> first | rfl | simp [question?] at final

theorem Question.resume?_request (question : Question) (resume : LabelId) :
    (question.request resume).resume? = some resume := by
  cases question <;> rfl

namespace Spells

variable {outline : List Outline} {code : List Instr}

theorem selfContained (spelled : Spells outline code) : SelfContained code := by
  induction spelled with
  | nil => exact .nil
  | @act instr rest code straight tail ih =>
      have first : SelfContained [instr] := by
        simp [SelfContained, Instr.targets_of_isStraight straight]
      exact first.append ih
  | @finish request rest code final tail ih =>
      have first : SelfContained (Template.terminate request) := by
        simp [SelfContained, Template.terminate, Instr.targets, YieldRequest.resume?_eq_none final]
      exact first.append ih
  | @ask question rest code resume tail ih =>
      have first : SelfContained (Template.suspend (question.request resume) resume) := by
        simp [SelfContained, Template.suspend, Instr.targets, Question.resume?_request, Instr.target?]
      exact first.append ih
  | @call callee rest code landing tail ih =>
      have first : SelfContained [.label landing, .invoke callee, .propagateSuspension callee landing] := by
        simp [SelfContained, Instr.targets, Instr.target?]
      exact first.append ih
  | @dispatch rest code arms done tail ih =>
      have first : SelfContained (.dispatchReceive arms :: (arms.flatMap (Template.receiveArm done) ++ [.label done])) := by
        intro instr member target among
        simp only [List.mem_cons, List.mem_append, List.mem_flatMap, Template.receiveArm, List.not_mem_nil,
          or_false] at member ⊢
        rcases member with rfl | ⟨arm, present, rfl | rfl | rfl | rfl⟩ | rfl
        · obtain ⟨arm, present, rfl⟩ := List.mem_map.mp among
          exact ⟨.label arm.entry, .inr (.inl ⟨arm, present, .inl rfl⟩), rfl⟩
        · cases among
        · cases among
        · obtain rfl := List.mem_singleton.mp among
          exact ⟨.label arm.entry, .inr (.inl ⟨arm, present, .inl rfl⟩), rfl⟩
        · obtain rfl := List.mem_singleton.mp among
          exact ⟨.label done, .inr (.inr rfl), rfl⟩
        · cases among
      simpa only [List.cons_append, List.append_assoc, List.nil_append] using first.append ih
  | @branch cond onTrue inner rest code stop body tail ihBody ih =>
      have frame : SelfContained [.jumpUnless cond (.mark stop), .mark stop] := by
        simp [SelfContained, Instr.targets, Instr.target?]
      refine ((frame.append ihBody).rearranged fun instr => ?_).append ih
      simp only [Template.branch, List.mem_cons, List.mem_append, List.not_mem_nil]
      grind
  | @branchElse cond onTrue onFalse inner other rest code stop otherwise left right tail ihLeft ihRight ih =>
      have frame : SelfContained [.jumpUnless cond (.mark otherwise), .jump (.mark stop), .mark otherwise, .mark stop] := by
        simp [SelfContained, Instr.targets, Instr.target?]
      refine ((frame.append (ihLeft.append ihRight)).rearranged fun instr => ?_).append ih
      simp only [Template.branchElse, List.mem_cons, List.mem_append, List.not_mem_nil]
      grind
  | @loop choices asks cond body inner rest code start stop head round tail ihHead ihRound ih =>
      have frame : SelfContained [.mark start, .jumpUnless cond (.mark stop), .jump (.mark start), .mark stop] := by
        simp [SelfContained, Instr.targets, Instr.target?]
      refine ((frame.append (ihHead.append ihRound)).rearranged fun instr => ?_).append ih
      simp only [Template.withChoices, Template.loop, List.cons_append, List.nil_append, List.mem_cons, List.mem_append,
        List.not_mem_nil]
      grind

theorem resumable (spelled : Spells outline code) : Resumable code := by
  -- instructions that are no yield stand between the parts that are spelled
  have bare {code : List Instr} (bare : ∀ request, .yield request ∉ code) : Resumable code :=
    .plain fun request _ member => absurd member (bare request)
  induction spelled with
  | nil => exact .nil
  | @act instr rest code straight tail ih =>
      have first : Resumable [instr] := bare fun request member => by
        rw [List.mem_singleton] at member
        subst member
        cases straight
      exact first.append ih
  | @finish request rest code final tail ih =>
      have first : Resumable (Template.terminate request) := .plain fun other resume member => by
        obtain rfl : other = request := by simpa [Template.terminate] using member
        simp [YieldRequest.resume?_eq_none final]
      exact first.append ih
  | @ask question rest code resume tail ih =>
      exact (Resumable.suspend (question.resume?_request resume)).append ih
  | @call callee rest code landing tail ih =>
      have first : Resumable [.label landing, .invoke callee, .propagateSuspension callee landing] := bare (by simp)
      exact first.append ih
  | @dispatch rest code arms done tail ih =>
      have first : Resumable (.dispatchReceive arms :: (arms.flatMap (Template.receiveArm done) ++ [.label done])) :=
        bare (by simp [Template.receiveArm])
      simpa only [List.cons_append, List.append_assoc, List.nil_append] using first.append ih
  | @branch cond onTrue inner rest code stop body tail ihBody ih =>
      have test : Resumable [.jumpUnless cond (.mark stop)] := bare (by simp)
      have behind : Resumable [.mark stop] := bare (by simp)
      exact (test.append (ihBody.append behind)).append ih
  | @branchElse cond onTrue onFalse inner other rest code stop otherwise left right tail ihLeft ihRight ih =>
      have test : Resumable [.jumpUnless cond (.mark otherwise)] := bare (by simp)
      have between : Resumable [.jump (.mark stop), .mark otherwise] := bare (by simp)
      have behind : Resumable [.mark stop] := bare (by simp)
      exact (test.append (((ihLeft.append between).append ihRight).append behind)).append ih
  | @loop choices asks cond body inner rest code start stop head round tail ihHead ihRound ih =>
      have entry : Resumable [.mark start] := bare (by simp)
      have test : Resumable [.jumpUnless cond (.mark stop)] := bare (by simp)
      have behind : Resumable [.jump (.mark start), .mark stop] := bare (by simp)
      have loop := entry.append (ihHead.append (test.append (ihRound.append behind)))
      exact loop.append ih

end Spells

end Reentry

/-!
The labels of lowered functions are exact: those that are issued are those that stand in the code, each
once, and the tree of the body tells how many there are. So assembly never fails, and its checks never
refuse what was lowered.
-/

namespace Reentry

open Lower

/-- Labels from 1 to a number. -/
def LabelId.upTo (count : Nat) : List LabelId := (List.range count).map fun number => ⟨number + 1⟩

theorem LabelId.nodup_upTo (count : Nat) : (LabelId.upTo count).Nodup := by
  refine List.nodup_range.map ?_
  intro first second same
  simpa using same

theorem LabelId.mem_upTo {count : Nat} {label : LabelId} :
    label ∈ LabelId.upTo count ↔ 0 < label.number ∧ label.number ≤ count := by
  obtain ⟨number⟩ := label
  simp only [upTo, List.mem_map, List.mem_range, LabelId.mk.injEq]
  constructor
  · rintro ⟨index, bound, rfl⟩
    omega
  · rintro ⟨positive, bound⟩
    exact ⟨number - 1, by omega, by omega⟩

section

variable (code : List Instr)

theorem occurrences_label (label : LabelId) :
    occurrences (.label label) code = (code.filterMap Instr.label?).count label := by
  unfold occurrences
  rw [List.count_filterMap, List.count_filterMap]
  congr 1
  funext instr
  rw [Bool.eq_iff_iff, beq_iff_eq, beq_iff_eq]
  exact instr.target?_eq_label? label

theorem occurrences_mark (mark : MarkId) :
    occurrences (.mark mark) code = (code.filterMap Instr.mark?).count mark := by
  unfold occurrences
  rw [List.count_filterMap, List.count_filterMap]
  congr 1
  funext instr
  rw [Bool.eq_iff_iff, beq_iff_eq, beq_iff_eq]
  exact instr.target?_eq_mark? mark

theorem occurrences_pos {code : List Instr} {instr : Instr} {target : Target} (member : instr ∈ code)
    (stands : instr.target? = some target) : 0 < occurrences target code :=
  List.count_pos_iff.mpr (List.mem_filterMap.mpr ⟨instr, member, stands⟩)

end

namespace Lowering.Scope

variable {scope : Lowering.Scope} {code : List Instr} {labelCount : Nat}

theorem body_run (succeeds : scope.body = .ok (code, labelCount)) :
    ∃ progress, scope.function.body.lower false .read scope .start = .ok (.code code, progress) ∧
      labelCount = progress.supply.labels := by
  have run : scope.body = ((scope.function.body.lower false .read >>= Lower.expectCode) scope .start >>= fun pair =>
      pure (pair.1, pair.2.supply.labels)) := rfl
  rw [run] at succeeds
  cases lowered : (scope.function.body.lower false .read >>= Lower.expectCode) scope .start with
  | error cause =>
      rw [lowered] at succeeds
      cases succeeds
  | ok pair =>
      rw [lowered] at succeeds
      cases succeeds
      obtain ⟨fragment, between, body, expected⟩ := bind_eq_ok.mp lowered
      obtain ⟨rfl, rfl⟩ := expectCode_eq_ok.mp expected
      exact ⟨_, body, rfl⟩

end Lowering.Scope

/-- A statement leaves no choice pending that was not pending before. -/
theorem Node.lower_pending {scope : Lowering.Scope} {start stop : Lowering.Progress} {inNew : Bool} {access : Access}
    {code : List Instr} (node : Node) (succeeds : node.lower inNew access scope start = .ok (.code code, stop)) :
    stop.pending.length ≤ start.pending.length := by
  obtain ⟨id, span, kind⟩ := node
  unfold Node.lower at succeeds
  split at succeeds
  · exact (throw_ne_ok.mp (bind_eq_ok.mp succeeds).choose_spec.choose_spec.2).elim
  · simp only [bind_eq_ok, get_eq_ok] at succeeds
    obtain ⟨_, _, ⟨rfl, rfl⟩, fragment, between, lowered, settled⟩ := succeeds
    cases fragment with
    | value _ | place _ => simp [pure_eq_ok] at settled
    | code body =>
        obtain ⟨result, settling, _⟩ := map_eq_ok.mp settled
        obtain ⟨choices, asks, asking, _⟩ := settleChoices_eq_ok settling
        rw [(asked_pending asking).2, List.length_take]
        exact Nat.min_le_left _ _

/-- What is known of the code of a body that can be lowered. -/
structure Exact (labelCount needed : Nat) (code : List Instr) : Prop where
  count : labelCount = needed
  once : ∀ target, occurrences target code ≤ 1
  label : ∀ label, occurrences (.label label) code = if 0 < label.number ∧ label.number ≤ labelCount then 1 else 0
  closed : SelfContained code
  resumable : Resumable code

theorem Lowering.Scope.body_exact {scope : Lowering.Scope} {code : List Instr} {labelCount : Nat}
    (succeeds : scope.body = .ok (code, labelCount)) : Exact labelCount scope.function.body.labels code := by
  obtain ⟨progress, lowered, rfl⟩ := body_run succeeds
  obtain ⟨_, outline, _, _, spelled⟩ := body_eq_ok succeeds
  have nothing : progress.pending = [] := by
    have fewer := Node.lower_pending _ lowered
    exact List.length_eq_zero_iff.mp (Nat.le_zero.mp fewer)
  have books (target : Target) := @Books.nodeLower target false .read scope.function.body _ _ _ _ lowered
  have issued (target : Target) : occurrences target code = progress.supply.issued target := by
    obtain ⟨issued, promised, supplied, _, stands, _⟩ := books target
    have fresh : Progress.start.supply.issued target = 0 := by
      cases target <;> simp [Progress.start, LabelSupply.full, LabelSupply.issued] <;> omega
    rw [supplied, fresh, stands]
    simp [Fragment.occurrences]
  refine ⟨?_, fun target => ?_, fun label => issued _, spelled.selfContained, spelled.resumable⟩
  · obtain ⟨issued, promised, _, due, _, needed⟩ := books (.label .start)
    simp only [Progress.promised, nothing, Progress.start, LabelSupply.full, List.length_nil] at due
    omega
  · rw [issued]
    cases target <;> simp only [LabelSupply.issued] <;> split <;> omega

end Reentry
