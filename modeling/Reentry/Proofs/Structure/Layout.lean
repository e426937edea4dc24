import Reentry.Proofs.Structure.Labels

/-!
Where the parts of an assembled body are. Assembly refuses a label or a mark that occurs twice and a
label that was issued and does not occur, whether or not it checks the rest; so the position that a
routine gives for a label or a mark is the one position at which it stands.
-/

namespace Reentry

/-- The code stands in the body from that position on. -/
def CodeAt (body : List Instr) (position : Nat) (code : List Instr) : Prop :=
  ∀ offset instr, code[offset]? = some instr → body[position + offset]? = some instr

namespace CodeAt

variable {body code more : List Instr} {position : Nat}

theorem refl (body rest : List Instr) : CodeAt (body ++ rest) 0 body := by
  intro offset instr found
  rw [Nat.zero_add, List.getElem?_append_left (List.getElem?_eq_some_iff.mp found).1]
  exact found

theorem head {instr : Instr} (placed : CodeAt body position (instr :: code)) : body[position]? = some instr := by
  have first := placed 0 instr rfl
  rwa [Nat.add_zero] at first

theorem tail {instr : Instr} (placed : CodeAt body position (instr :: code)) : CodeAt body (position + 1) code := by
  intro offset other found
  have later := placed (offset + 1) other found
  rwa [show position + 1 + offset = position + (offset + 1) by omega]

theorem moved (placed : CodeAt body position code) (place : Nat) (same : position = place) : CodeAt body place code :=
  same ▸ placed

theorem left (placed : CodeAt body position (code ++ more)) : CodeAt body position code := by
  intro offset instr found
  refine placed offset instr ?_
  rw [List.getElem?_append_left (List.getElem?_eq_some_iff.mp found).1]
  exact found

theorem right (placed : CodeAt body position (code ++ more)) : CodeAt body (position + code.length) more := by
  intro offset instr found
  have later := placed (code.length + offset) instr (by
    rw [List.getElem?_append_right (by omega), Nat.add_sub_cancel_left]
    exact found)
  rwa [Nat.add_assoc]

end CodeAt

/-- A routine whose labels and marks are where it says. -/
structure Routine.Laid (routine : Routine) : Prop where
  landing : ∀ position label, routine.body[position]? = some (.label label) →
    routine.landing? label = some position
  target : ∀ position mark, routine.body[position]? = some (.mark mark) →
    routine.position? (.mark mark) = some position

/-- What a successful pass over a list gives at a position comes from the element at that position. -/
theorem mapM_getElem? {ε α β : Type} {work : α → Except ε β} {items : List α} {results : List β}
    (succeeds : items.mapM work = .ok results) (position : Nat) :
    (∀ item, items[position]? = some item → ∃ result, work item = .ok result ∧ results[position]? = some result) ∧
      (items[position]? = none → results[position]? = none) := by
  induction items generalizing results position with
  | nil =>
      obtain rfl : [] = results := by simpa [pure, Except.pure] using succeeds
      simp
  | cons item rest ih =>
      rw [List.mapM_cons] at succeeds
      cases first : work item with
      | error cause =>
          rw [first] at succeeds
          cases succeeds
      | ok result =>
          rw [first] at succeeds
          cases later : rest.mapM work with
          | error cause =>
              simp only [later] at succeeds
              cases succeeds
          | ok others =>
              simp only [later] at succeeds
              obtain rfl : result :: others = results := by simpa [pure, Except.pure, bind, Except.bind] using succeeds
              cases position with
              | zero => simpa using first
              | succ position => simpa using ih later position

namespace Routine

namespace Positions

variable {positions final : Positions} {position : Nat} {body : List Instr}

/-- What has been noted stays, and every label and mark of the body is noted at its position. -/
theorem collect_eq_ok (succeeds : positions.collect position body = .ok final) :
    (∀ label place, positions.label? label = some place → final.label? label = some place) ∧
      (∀ mark place, positions.mark? mark = some place → final.mark? mark = some place) ∧
      (∀ offset label, body[offset]? = some (.label label) → final.label? label = some (position + offset)) ∧
      (∀ offset mark, body[offset]? = some (.mark mark) → final.mark? mark = some (position + offset)) := by
  induction body generalizing positions position with
  | nil =>
      simp only [collect, Except.ok.injEq] at succeeds
      subst succeeds
      simp
  | cons instr rest ih =>
      have shift (offset : Nat) : position + (offset + 1) = position + 1 + offset := by omega
      cases instr
      case label label =>
        simp only [collect] at succeeds
        split at succeeds
        · cases succeeds
        · rename_i unseen
          have unseen : positions.label? label = none := by simpa using unseen
          obtain ⟨labels, marks, laterLabels, laterMarks⟩ := ih succeeds
          refine ⟨fun other place found => labels other place ?_, fun mark place found => marks mark place found, ?_, ?_⟩
          · have different : label ≠ other := by
              rintro rfl
              rw [unseen] at found
              cases found
            simpa [label?, different] using found
          · rintro (_ | offset) other found
            · obtain rfl : label = other := by simpa using found
              exact labels label position (by simp [label?])
            · rw [shift]
              exact laterLabels offset other found
          · rintro (_ | offset) mark found
            · simp at found
            · rw [shift]
              exact laterMarks offset mark found
      case mark mark =>
        simp only [collect] at succeeds
        split at succeeds
        · cases succeeds
        · rename_i unseen
          have unseen : positions.mark? mark = none := by simpa using unseen
          obtain ⟨labels, marks, laterLabels, laterMarks⟩ := ih succeeds
          refine ⟨fun label place found => labels label place found, fun other place found => marks other place ?_, ?_, ?_⟩
          · have different : mark ≠ other := by
              rintro rfl
              rw [unseen] at found
              cases found
            simpa [mark?, different] using found
          · rintro (_ | offset) label found
            · simp at found
            · rw [shift]
              exact laterLabels offset label found
          · rintro (_ | offset) other found
            · obtain rfl : mark = other := by simpa using found
              exact marks mark position (by simp [mark?])
            · rw [shift]
              exact laterMarks offset other found
      all_goals
        obtain ⟨labels, marks, laterLabels, laterMarks⟩ := ih succeeds
        refine ⟨labels, marks, ?_, ?_⟩
        · rintro (_ | offset) label found
          · simp at found
          · rw [shift]
            exact laterLabels offset label found
        · rintro (_ | offset) mark found
          · simp at found
          · rw [shift]
            exact laterMarks offset mark found

/-- What is noted in the end was noted before or stands in the body at its position. -/
theorem collect_noted (succeeds : positions.collect position body = .ok final) :
    (∀ label place, final.label? label = some place → positions.label? label = some place ∨
        ∃ offset, place = position + offset ∧ body[offset]? = some (.label label)) ∧
      ∀ mark place, final.mark? mark = some place → positions.mark? mark = some place ∨
        ∃ offset, place = position + offset ∧ body[offset]? = some (.mark mark) := by
  induction body generalizing positions position with
  | nil =>
      simp only [collect, Except.ok.injEq] at succeeds
      subst succeeds
      exact ⟨fun _ _ => .inl, fun _ _ => .inl⟩
  | cons instr rest ih =>
      have later {instr' : Instr} {place : Nat} (behind : ∃ offset, place = position + 1 + offset ∧ rest[offset]? = some instr') :
          ∃ offset, place = position + offset ∧ (instr :: rest)[offset]? = some instr' := by
        obtain ⟨offset, rfl, found⟩ := behind
        exact ⟨offset + 1, by omega, found⟩
      cases instr
      case label label =>
        simp only [collect] at succeeds
        split at succeeds
        · cases succeeds
        · obtain ⟨labels, marks⟩ := ih succeeds
          refine ⟨fun other place found => ?_, fun mark place found => (marks mark place found).imp id later⟩
          rcases labels other place found with noted | behind
          · by_cases same : label = other
            · subst same
              obtain rfl : position = place := by simpa [label?] using noted
              exact .inr ⟨0, rfl, rfl⟩
            · exact .inl (by simpa [label?, same] using noted)
          · exact .inr (later behind)
      case mark mark =>
        simp only [collect] at succeeds
        split at succeeds
        · cases succeeds
        · obtain ⟨labels, marks⟩ := ih succeeds
          refine ⟨fun label place found => (labels label place found).imp id later, fun other place found => ?_⟩
          rcases marks other place found with noted | behind
          · by_cases same : mark = other
            · subst same
              obtain rfl : position = place := by simpa [mark?] using noted
              exact .inr ⟨0, rfl, rfl⟩
            · exact .inl (by simpa [mark?, same] using noted)
          · exact .inr (later behind)
      all_goals
        obtain ⟨labels, marks⟩ := ih succeeds
        exact ⟨fun label place found => (labels label place found).imp id later,
          fun mark place found => (marks mark place found).imp id later⟩

theorem landings_eq_ok {count number : Nat} {dispatch : List Nat} (succeeds : positions.landings count = .ok dispatch)
    (bound : number < count) : dispatch[number]? = positions.label? ⟨number + 1⟩ := by
  obtain ⟨place, found, listed⟩ := (mapM_getElem? succeeds number).1 number (List.getElem?_range bound)
  cases noted : positions.label? ⟨number + 1⟩ with
  | none =>
      rw [noted] at found
      cases found
  | some place' =>
      rw [noted] at found
      cases found
      exact listed

end Positions

variable {info : FunctionInfo} {shape : FrameShape} {code : List Instr} {labelCount : Nat} {verified : Bool}
  {routine : Routine}

/-- What an assembled routine consists of. -/
theorem assemble_eq_ok (succeeds : assemble info shape code labelCount verified = .ok routine) :
    routine.function = shape.function ∧ routine.shape = shape ∧ routine.owner = info.owner ∧
      routine.labelCount = labelCount ∧ routine.body = code ++ implicitReturn ∧
      ∃ positions : Positions, Positions.collect ⟨[], []⟩ 0 routine.body = .ok positions ∧
        routine.marks = positions.marks ∧
        (0 < labelCount → ∃ dispatch, positions.landings labelCount = .ok dispatch ∧
          routine.dispatch = some dispatch) ∧ (labelCount = 0 → routine.dispatch = none) := by
  unfold assemble at succeeds
  cases named : assembleUnnamed info shape code labelCount verified with
  | error cause =>
      rw [named] at succeeds
      cases succeeds
  | ok assembled =>
      rw [named] at succeeds
      obtain rfl : assembled = routine := Except.ok.inj succeeds
      unfold assembleUnnamed at named
      cases collected : Positions.collect ⟨[], []⟩ 0 (code ++ implicitReturn) with
      | error cause => simp [collected, bind, Except.bind] at named
      | ok positions =>
          simp only [collected, bind, Except.bind] at named
          -- the dispatch table is made first, then the routine is checked or not
          have finished : ∃ dispatch, assembled = ⟨shape.function, info.name, info.owner, shape, labelCount, dispatch,
              code ++ implicitReturn, positions.marks⟩ ∧
              (0 < labelCount → ∃ table, positions.landings labelCount = .ok table ∧ dispatch = some table) ∧
              (labelCount = 0 → dispatch = none) := by
            split at named
            · simp only [pure, Except.pure] at named
              exact ⟨none, by grind, fun positive => by omega, fun _ => rfl⟩
            · cases landed : positions.landings labelCount with
              | error cause =>
                  rw [landed] at named
                  cases named
              | ok table =>
                  simp only [landed, Functor.map, Except.map, pure, Except.pure] at named
                  exact ⟨some table, by grind, fun _ => ⟨table, rfl, rfl⟩, fun none => by omega⟩
          obtain ⟨dispatch, rfl, known⟩ := finished
          exact ⟨rfl, rfl, rfl, rfl, rfl, positions, collected, rfl, known⟩

/-- In an assembled routine every label and mark is where the routine says, if the labels of the body
are among those issued for it. -/
theorem assemble_laid (succeeds : assemble info shape code labelCount verified = .ok routine)
    (issued : Issued labelCount code) : routine.Laid := by
  obtain ⟨_, _, _, _, body, positions, collected, marks, dispatched, _⟩ := assemble_eq_ok succeeds
  obtain ⟨_, _, labelled, marked⟩ := Positions.collect_eq_ok collected
  constructor
  · intro position label found
    have place := labelled position label found
    rw [Nat.zero_add] at place
    rw [body] at found
    have member : .label label ∈ code := by
      rcases List.mem_append.mp (List.mem_of_getElem? found) with inside | behind
      · exact inside
      · simp [implicitReturn] at behind
    obtain ⟨positive, bound⟩ := issued label member
    obtain ⟨dispatch, landings, known⟩ := dispatched (by omega)
    obtain ⟨_ | number⟩ := label
    · cases positive
    · simp only [landing?, known, Option.bind_some]
      rw [Positions.landings_eq_ok landings bound]
      exact place
  · intro position mark found
    have place := marked position mark found
    rw [Nat.zero_add] at place
    simpa only [position?, marks, Positions.mark?] using place

/-- A label at which an assembled routine can be entered again has been issued for it and stands where the
routine says. -/
theorem assemble_landing?_eq (succeeds : assemble info shape code labelCount verified = .ok routine) {label : LabelId}
    {place : Nat} (leads : routine.landing? label = some place) :
    label.number ≤ routine.labelCount ∧ routine.body[place]? = some (.label label) := by
  obtain ⟨_, _, _, count, _, positions, collected, _, dispatched, absent⟩ := assemble_eq_ok succeeds
  obtain ⟨_ | number⟩ := label
  · cases leads
  · rw [landing?] at leads
    obtain ⟨dispatch, known, listed⟩ := Option.bind_eq_some_iff.mp leads
    rcases Nat.eq_zero_or_pos labelCount with none | some
    · rw [absent none] at known
      cases known
    · obtain ⟨table, landings, known'⟩ := dispatched some
      cases known.symm.trans known'
      by_cases inside : number < labelCount
      · rw [Positions.landings_eq_ok landings inside] at listed
        rcases (Positions.collect_noted collected).1 _ _ listed with noted | ⟨offset, rfl, found⟩
        · cases noted
        · exact ⟨count ▸ inside, by rwa [Nat.zero_add]⟩
      · have missing := (mapM_getElem? landings number).2 (List.getElem?_eq_none (by simpa using inside))
        rw [missing] at listed
        cases listed

/-- A mark to which an assembled routine can be led stands where the routine says. -/
theorem assemble_mark_eq (succeeds : assemble info shape code labelCount verified = .ok routine) {mark : MarkId}
    {place : Nat} (leads : routine.position? (.mark mark) = some place) : routine.body[place]? = some (.mark mark) := by
  obtain ⟨_, _, _, _, _, positions, collected, marks, _, _⟩ := assemble_eq_ok succeeds
  have found : positions.mark? mark = some place := by simpa only [position?, marks, Positions.mark?] using leads
  rcases (Positions.collect_noted collected).2 _ _ found with noted | ⟨offset, rfl, there⟩
  · cases noted
  · rwa [Nat.zero_add]

/-- Control can only be led to a label or a mark. -/
theorem assemble_position?_eq (succeeds : assemble info shape code labelCount verified = .ok routine) {target : Target}
    {place : Nat} (leads : routine.position? target = some place) :
    (∃ label, routine.body[place]? = some (.label label)) ∨ ∃ mark, routine.body[place]? = some (.mark mark) := by
  cases target with
  | label label => exact .inl ⟨label, (assemble_landing?_eq succeeds leads).2⟩
  | mark mark => exact .inr ⟨mark, assemble_mark_eq succeeds leads⟩

end Routine

end Reentry
