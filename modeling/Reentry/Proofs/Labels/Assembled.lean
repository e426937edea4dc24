import Reentry.Proofs.Labels.Exact

/-!
Assembly of code in which labels and marks are exact. It finds every label that was issued and nothing
twice, and its checks accept what it made; so whether they are asked for makes no difference.
-/

namespace Reentry

/-- A pass over a list succeeds if it does so at each item. -/
theorem mapM_succeeds {ε α β : Type} {work : α → Except ε β} {items : List α}
    (succeeds : ∀ item ∈ items, ∃ result, work item = .ok result) :
    ∃ results, items.mapM work = .ok results ∧ results.length = items.length := by
  induction items with
  | nil => exact ⟨[], rfl, rfl⟩
  | cons item rest ih =>
      obtain ⟨result, done⟩ := succeeds item (by simp)
      obtain ⟨results, later, length⟩ := ih fun other member => succeeds other (by simp [member])
      refine ⟨result :: results, ?_, by simp [length]⟩
      rw [List.mapM_cons, done, later]
      rfl

/-- A loop that does nothing at each item does nothing. -/
theorem forIn_quiet {ε α : Type} {items : List α} {step : α → PUnit → Except ε (ForInStep PUnit)}
    (quiet : ∀ item ∈ items, step item ⟨⟩ = .ok (.yield ⟨⟩)) : forIn items ⟨⟩ step = .ok ⟨⟩ := by
  induction items with
  | nil => rfl
  | cons item rest ih =>
      rw [List.forIn_cons, quiet item (by simp)]
      exact ih fun other member => quiet other (by simp [member])

namespace Routine

namespace Positions

variable {positions : Positions} {position : Nat} {code : List Instr}

/-- Whether a target has been met, as a number. -/
def noted (positions : Positions) : Target → Nat
  | .label label => if (positions.label? label).isSome then 1 else 0
  | .mark mark => if (positions.mark? mark).isSome then 1 else 0

/-- The first place noted for a label is the one that counts. -/
theorem label?_cons (positions : Positions) (label : LabelId) (place : Nat) (other : LabelId) :
    label? { positions with labels := (label, place) :: positions.labels } other =
      if label = other then some place else positions.label? other := by
  unfold label?
  rw [List.find?_cons]
  by_cases same : label = other
  · simp [same]
  · have apart : (label == other) = false := by simpa using same
    simp only [apart, if_neg same]

theorem mark?_cons (positions : Positions) (mark : MarkId) (place : Nat) (other : MarkId) :
    mark? { positions with marks := (mark, place) :: positions.marks } other =
      if mark = other then some place else positions.mark? other := by
  unfold mark?
  rw [List.find?_cons]
  by_cases same : mark = other
  · simp [same]
  · have apart : (mark == other) = false := by simpa using same
    simp only [apart, if_neg same]

/-- A target that is met for the first time is noted, and the others stay as they were. -/
theorem noted_label (positions : Positions) (label : LabelId) (place : Nat) (fresh : positions.label? label = none)
    (target : Target) : noted { positions with labels := (label, place) :: positions.labels } target =
      (if target = .label label then 1 else 0) + positions.noted target := by
  cases target with
  | mark other => exact (Nat.zero_add _).symm
  | label other =>
      simp only [noted]
      rw [label?_cons]
      by_cases same : label = other
      · subst same
        simp [fresh]
      · simp [same, Ne.symm same]

theorem noted_mark (positions : Positions) (mark : MarkId) (place : Nat) (fresh : positions.mark? mark = none)
    (target : Target) : noted { positions with marks := (mark, place) :: positions.marks } target =
      (if target = .mark mark then 1 else 0) + positions.noted target := by
  cases target with
  | label other => exact (Nat.zero_add _).symm
  | mark other =>
      simp only [noted]
      rw [mark?_cons]
      by_cases same : mark = other
      · subst same
        simp [fresh]
      · simp [same, Ne.symm same]

/-- Code in which no target occurs twice is accepted, and each of its labels is noted. -/
theorem collect_succeeds (once : ∀ target, positions.noted target + occurrences target code ≤ 1) :
    ∃ final, positions.collect position code = .ok final ∧
      final.labels.length = positions.labels.length + (code.filterMap Instr.label?).length := by
  induction code generalizing positions position with
  | nil => exact ⟨positions, rfl, rfl⟩
  | cons instr rest ih =>
      have unmet (target : Target) (stands : instr.target? = some target) : positions.noted target = 0 := by
        have present := once target
        rw [occurrences_cons, stands] at present
        simp only [if_true] at present
        omega
      cases instr
      case label label =>
        have fresh : positions.label? label = none := by
          have unmet := unmet (.label label) rfl
          simpa [noted] using unmet
        obtain ⟨final, collected, length⟩ := @ih { positions with labels := (label, position) :: positions.labels } (position + 1) (fun target => by
            have before := once target
            rw [noted_label positions label position fresh]
            rw [occurrences_cons] at before
            simp only [Instr.target?, Option.some.injEq, eq_comm (a := Target.label label)] at before
            omega)
        refine ⟨final, by simpa [collect, fresh] using collected, ?_⟩
        rw [length]
        simp only [List.length_cons, List.filterMap_cons, Instr.label?]
        omega
      case mark mark =>
        have fresh : positions.mark? mark = none := by
          have unmet := unmet (.mark mark) rfl
          simpa [noted] using unmet
        obtain ⟨final, collected, length⟩ := @ih { positions with marks := (mark, position) :: positions.marks } (position + 1) (fun target => by
            have before := once target
            rw [noted_mark positions mark position fresh]
            rw [occurrences_cons] at before
            simp only [Instr.target?, Option.some.injEq, eq_comm (a := Target.mark mark)] at before
            omega)
        exact ⟨final, by simpa [collect, fresh] using collected, length⟩
      all_goals
        obtain ⟨final, collected, length⟩ := @ih positions (position + 1) (fun target => by
          have before := once target
          rw [occurrences_cons] at before
          omega)
        exact ⟨final, collected, length⟩

/-- If all labels up to a number have been noted, each has its landing. -/
theorem landings_succeeds {count : Nat}
    (known : ∀ label : LabelId, 0 < label.number → label.number ≤ count → (positions.label? label).isSome) :
    ∃ dispatch, positions.landings count = .ok dispatch ∧ dispatch.length = count := by
  refine (mapM_succeeds fun index member => ?_).imp fun dispatch done => ⟨done.1, done.2.trans List.length_range⟩
  obtain ⟨place, noted⟩ := Option.isSome_iff_exists.mp (known ⟨index + 1⟩ (Nat.succ_pos index) (List.mem_range.mp member))
  exact ⟨place, by rw [noted]⟩

end Positions

theorem resumesNext_of_getElem? {resume : LabelId} {rest : List Instr} (exit : rest[0]? = some .exit)
    (label : rest[1]? = some (.label resume)) : resumesNext resume rest = true := by
  match rest with
  | [] | [_] => simp at label
  | first :: second :: others =>
      obtain rfl : first = .exit := by simpa using exit
      obtain rfl : second = .label resume := by simpa using label
      simp [resumesNext]

/-- The checks accept code whose targets are all placed and whose yields stand in front of their labels. -/
theorem verifyFrom_succeeds {routine : Routine} {position : Nat} {code : List Instr}
    (placed : ∀ instr ∈ code, ∀ target ∈ instr.targets, (routine.position? target).isSome) (resumable : Resumable code) :
    verifyFrom routine position code = .ok () := by
  induction code generalizing position with
  | nil => rfl
  | cons instr rest ih =>
      have later := @ih (position + 1) (fun other member => placed other (List.mem_cons_of_mem _ member))
        resumable.tail
      unfold verifyFrom
      rw [forIn_quiet fun target among => by
        have here : (routine.position? target).isNone = false := by
          simpa using placed instr (by simp) target among
        simp only [here]
        rfl]
      cases instr
      case yield request =>
        cases resumes : request.resume? with
        | none =>
            simp only [resumes]
            exact later
        | some resume =>
            obtain ⟨exit, label⟩ := resumable 0 request resume rfl resumes
            simp only [resumes, resumesNext_of_getElem? exit label]
            exact later
      all_goals exact later

end Routine

namespace Exact

variable {labelCount needed : Nat} {code : List Instr}

theorem issued (exact : Exact labelCount needed code) : Issued labelCount code := by
  intro label member
  have present : 0 < occurrences (.label label) code := occurrences_pos member rfl
  rw [exact.label] at present
  by_contra outside
  simp [outside] at present

/-- The labels of the code are those issued for it. -/
theorem labels (exact : Exact labelCount needed code) :
    (code.filterMap Instr.label?).Perm (LabelId.upTo labelCount) := by
  rw [List.perm_iff_count]
  intro label
  rw [← occurrences_label, exact.label, (LabelId.nodup_upTo labelCount).count]
  simp only [LabelId.mem_upTo]

theorem behind (exact : Exact labelCount needed code) : Exact labelCount needed (code ++ Routine.implicitReturn) := by
  have nothing (target : Target) : occurrences target (code ++ Routine.implicitReturn) = occurrences target code := by
    rw [occurrences_append, @occurrences_plain target Routine.implicitReturn (by simp [Routine.implicitReturn, Instr.target?])]
    rfl
  refine ⟨exact.count, fun target => ?_, fun label => ?_, exact.closed.append ?_, exact.resumable.append (.plain ?_)⟩
  · rw [nothing]
    exact exact.once target
  · rw [nothing]
    exact exact.label label
  · simp [SelfContained, Routine.implicitReturn, Instr.targets, YieldRequest.resume?]
  · intro request resume member
    obtain rfl : request = .ret := by simpa [Routine.implicitReturn] using member
    rintro ⟨⟩

end Exact

namespace Routine

variable {info : FunctionInfo} {shape : FrameShape} {code : List Instr} {labelCount needed : Nat}

/-- A target at which code may continue has its place in an assembled routine. -/
theorem Laid.placed {routine : Routine} (laid : routine.Laid) (closed : SelfContained routine.body) :
    ∀ instr ∈ routine.body, ∀ target ∈ instr.targets, (routine.position? target).isSome := by
  intro instr member target among
  obtain ⟨place, present, stands⟩ := closed instr member target among
  obtain ⟨position, found⟩ := List.mem_iff_getElem?.mp present
  cases target with
  | label label =>
      cases place <;> cases stands
      rw [position?, laid.landing position label found]
      rfl
  | mark mark =>
      cases place <;> cases stands
      rw [laid.target position mark found]
      rfl

/-- The checks accept a routine whose code is exact. -/
theorem verify_succeeds {routine : Routine} {emitted : Nat} (exact : Exact routine.labelCount needed routine.body)
    (laid : routine.Laid) (all : emitted = routine.labelCount) (slots : routine.shape.paramCount ≤ routine.shape.slotCount)
    (leaves : ∃ last, routine.body.getLast? = some last ∧ last.leavesCall) : routine.verify emitted = .ok () := by
  obtain ⟨last, stands, leaving⟩ := leaves
  have targets := @verifyFrom_succeeds _ 0 _ (laid.placed exact.closed) exact.resumable
  have enough : ¬routine.shape.slotCount < routine.shape.paramCount := Nat.not_lt.mpr slots
  simp only [verify, all, ne_eq, not_true, if_false, enough, targets, stands, leaving]
  rfl

/-- Exact code is assembled, and whether the result is checked makes no difference. -/
theorem assemble_succeeds (exact : Exact labelCount needed code) (slots : shape.paramCount ≤ shape.slotCount) :
    ∃ routine, (∀ verified, assemble info shape code labelCount verified = .ok routine) ∧
      (routine.dispatch = none ↔ labelCount = 0) ∧
      ∀ table, routine.dispatch = some table → table.length = labelCount := by
  have body := exact.behind
  obtain ⟨positions, collected, met⟩ := @Positions.collect_succeeds ⟨[], []⟩ 0 (code ++ implicitReturn) (fun target => by
      have once := body.once target
      cases target <;> simpa [Positions.noted, Positions.label?, Positions.mark?] using once)
  have all : positions.labels.length = labelCount := by
    rw [met, body.labels.length_eq]
    simp [LabelId.upTo]
  obtain ⟨_, _, labelled, _⟩ := Positions.collect_eq_ok collected
  obtain ⟨table, landed, length⟩ := @Positions.landings_succeeds positions labelCount
    (fun label positive bound => by
      have among : label ∈ (code ++ implicitReturn).filterMap Instr.label? :=
        body.labels.mem_iff.mpr (LabelId.mem_upTo.mpr ⟨positive, bound⟩)
      obtain ⟨instr, member, stands⟩ := List.mem_filterMap.mp among
      obtain ⟨position, found⟩ := List.mem_iff_getElem?.mp member
      cases instr <;> cases stands
      rw [labelled position label found]
      rfl)
  let routine : Routine := ⟨shape.function, info.name, info.owner, shape, labelCount,
    if labelCount = 0 then none else some table, code ++ implicitReturn, positions.marks⟩
  have assembled (verified : Bool) : assemble info shape code labelCount verified =
      (if verified then routine.verify positions.labels.length *> pure routine else pure routine).mapError
        (.verification info.name) := by
    by_cases zero : labelCount = 0
    · simp only [assemble, assembleUnnamed, collected, zero, if_true, routine]
      rfl
    · simp only [assemble, assembleUnnamed, collected, bind, Except.bind, landed, zero, if_false, routine]
      rfl
  have laid : routine.Laid := assemble_laid (assembled false) exact.issued
  have accepted : routine.verify positions.labels.length = .ok () :=
    verify_succeeds body laid all slots ⟨.exit, by simp [routine, implicitReturn], rfl⟩
  refine ⟨routine, fun verified => ?_, by simp [routine], ?_⟩
  · rw [assembled, accepted]
    cases verified <;> rfl
  · intro entries present
    by_cases zero : labelCount = 0
    · simp [routine, zero] at present
    · obtain rfl : table = entries := by simpa [routine, zero] using present
      exact length

end Routine

end Reentry
