import Reentry.Proofs.Frames.Sound
import Reentry.Proofs.Lowering.Monad
import Reentry.Proofs.Structure.Outline

/-!
The choices that are pending while a body is lowered. Lowering an expression adds the choices that its
operands read to the pending ones, and a statement takes back what its parts have added; so the operands
of a statement read only choices that the statement asks for.
-/

namespace Reentry

/-- Functions that a program has. -/
def Program.Knows (program : Program) (function : FunctionId) : Prop := (program.function? function).isSome

variable (program : Program) (final : List Nat)

/-- The operands of a fragment that is no code read only these choices. -/
def Fragment.Reads : Fragment → Prop
  | .value operand => operand.Reads program.Knows final
  | .place target => target.Reads program.Knows final
  | .code _ => True

/-- The fragment is no code, and its operands read only these choices. -/
def Fragment.Evaluates (fragment : Fragment) : Prop :=
  fragment.Reads program final ∧ ∀ body, fragment ≠ .code body

def Destination.Reads : Destination → Prop
  | .element _ container key => container.Reads program final ∧ key.Reads program final
  | .part _ _ container => container.Reads program final
  | .whole dest => dest.Reads program final

namespace Lower

variable {α β : Type}

/-- Steps of lowering that only add to the pending choices; if what they add is among the final ones,
their result is good. -/
def Collects (good : α → Prop) (work : Lower α) : Prop :=
  ∀ scope start result stop, scope.program = program → work scope start = .ok (result, stop) →
    ∃ added, stop.pending = start.pending ++ added ∧ ((∀ number ∈ added, number ∈ final) → good result)

namespace Collects

variable {program final} {good : α → Prop}

theorem pure {value : α} (holds : good value) : Collects program final good (pure value) := by
  intro scope start result stop _ succeeds
  obtain ⟨rfl, rfl⟩ := pure_eq_ok.mp succeeds
  exact ⟨[], (List.append_nil _).symm, fun _ => holds⟩

/-- What holds of the first result may be used for the second one. -/
theorem bind {better : β → Prop} {work : Lower α} {rest : α → Lower β} (first : Collects program final good work)
    (later : ∀ value, Collects program final (fun result => good value → better result) (rest value)) :
    Collects program final better (work >>= rest) := by
  intro scope start result stop same succeeds
  obtain ⟨value, between, done, continued⟩ := bind_eq_ok.mp succeeds
  obtain ⟨added, grown, holds⟩ := first _ _ _ _ same done
  obtain ⟨more, grown', holds'⟩ := later value _ _ _ _ same continued
  refine ⟨added ++ more, by rw [grown', grown, List.append_assoc], fun within => ?_⟩
  exact holds' (fun number member => within number (List.mem_append_right _ member))
    (holds fun number member => within number (List.mem_append_left _ member))

theorem weaken {better : α → Prop} {work : Lower α} (collects : Collects program final good work)
    (imp : ∀ value, good value → better value) : Collects program final better work := by
  intro scope start result stop same succeeds
  obtain ⟨added, grown, holds⟩ := collects _ _ _ _ same succeeds
  exact ⟨added, grown, fun within => imp _ (holds within)⟩

theorem map {better : β → Prop} {change : α → β} {work : Lower α} (collects : Collects program final good work)
    (imp : ∀ value, good value → better (change value)) : Collects program final better (change <$> work) := by
  intro scope start result stop same succeeds
  obtain ⟨value, done, rfl⟩ := map_eq_ok.mp succeeds
  obtain ⟨added, grown, holds⟩ := collects _ _ _ _ same done
  exact ⟨added, grown, fun within => imp _ (holds within)⟩

theorem throw (cause : LowerError) : Collects program final good (throw cause) := by
  intro scope start result stop _ succeeds
  exact (throw_ne_ok.mp succeeds).elim

theorem unexpected (expected found : String) : Collects program final good (unexpected expected found) := by
  intro scope start result stop _ succeeds
  exact (unexpected_ne_ok.mp succeeds).elim

theorem read : Collects program final (fun scope => scope.program = program) read := by
  intro scope start result stop same succeeds
  obtain ⟨rfl, rfl⟩ := read_eq_ok.mp succeeds
  exact ⟨[], (List.append_nil _).symm, fun _ => same⟩

theorem freshLabel : Collects program final (fun _ => True) freshLabel := by
  intro scope start result stop _ succeeds
  obtain ⟨_, rfl⟩ := freshLabel_eq_ok.mp succeeds
  exact ⟨[], (List.append_nil _).symm, fun _ => trivial⟩

theorem freshMark : Collects program final (fun _ => True) freshMark := by
  intro scope start result stop _ succeeds
  obtain ⟨_, rfl⟩ := freshMark_eq_ok.mp succeeds
  exact ⟨[], (List.append_nil _).symm, fun _ => trivial⟩

theorem freshChoice : Collects program final (· ∈ final) freshChoice := by
  intro scope start result stop _ succeeds
  obtain ⟨rfl, rfl⟩ := freshChoice_eq_ok.mp succeeds
  exact ⟨[start.nextChoice], rfl, fun within => within _ (List.mem_singleton.mpr rfl)⟩

theorem mapM {before : α → Prop} {after : β → Prop} {work : α → Lower β}
    (collects : ∀ item, Collects program final (fun result => before item → after result) (work item))
    (items : List α) : Collects program final
      (fun results => (∀ item ∈ items, before item) → ∀ result ∈ results, after result) (items.mapM work) := by
  induction items with
  | nil => exact pure (by simp)
  | cons item rest ih =>
      rw [List.mapM_cons]
      refine bind (collects item) fun first => bind ih fun others => pure fun othersGood firstGood all => ?_
      intro result member
      rcases List.mem_cons.mp member with rfl | inside
      · exact firstGood (all item (by simp))
      · exact othersGood (fun other present => all other (by simp [present])) result inside

theorem mapM_any {after : β → Prop} {work : α → Lower β} (collects : ∀ item, Collects program final after (work item))
    (items : List α) : Collects program final (fun _ => True) (items.mapM work) :=
  (mapM (fun item => (collects item).weaken fun _ holds (_ : True) => holds) items).weaken fun _ _ => trivial

theorem forM {after : α → Prop} {work : α → Lower PUnit}
    (collects : ∀ item, Collects program final (fun _ => after item) (work item)) (items : List α) :
    Collects program final (fun _ => ∀ item ∈ items, after item) (items.forM work) := by
  induction items with
  | nil => exact pure (by simp)
  | cons item rest ih =>
      refine bind (collects item) fun _ => ih.weaken fun _ others first => ?_
      intro other member
      rcases List.mem_cons.mp member with rfl | inside
      · exact first
      · exact others other inside

theorem optionMapM {before : α → Prop} {after : β → Prop} {work : α → Lower β}
    (collects : ∀ item, Collects program final (fun result => before item → after result) (work item))
    (item : Option α) : Collects program final
      (fun result => (∀ value ∈ item, before value) → ∀ value ∈ result, after value) (item.mapM work) := by
  cases item with
  | none => exact pure (by simp)
  | some item =>
      refine map (collects item) fun value holds all other member => ?_
      obtain rfl : value = other := by simpa using member
      exact holds (all item rfl)

theorem expectValue (fragment : Fragment) : Collects program final
    (fun operand => fragment.Reads program final → operand.Reads program.Knows final) (expectValue fragment) := by
  cases fragment with
  | value operand => exact pure id
  | place _ | code _ => exact unexpected _ _

theorem expectPlace (fragment : Fragment) : Collects program final
    (fun place => fragment.Reads program final → place.Reads program.Knows final) (expectPlace fragment) := by
  cases fragment with
  | place place => exact pure id
  | value _ | code _ => exact unexpected _ _

theorem expectCode (fragment : Fragment) : Collects program final (fun _ => True) (expectCode fragment) := by
  cases fragment with
  | code body => exact pure trivial
  | value _ | place _ => exact unexpected _ _

theorem readOnly {access : Access} {operand : Operand} {good : Fragment → Prop} (holds : good (.value operand)) :
    Collects program final good (readOnly access operand) := by
  cases access with
  | read => exact pure holds
  | write => exact unexpected _ _

theorem typeOf (node : NodeId) : Collects program final (fun _ => True) (typeOf node) := by
  refine bind read fun scope => ?_
  dsimp only
  cases scope.function.typeOf? node with
  | some ty => exact pure fun _ => trivial
  | none => exact throw _

theorem containerKind (node : NodeId) : Collects program final (fun _ => True) (containerKind node) := by
  refine bind (typeOf node) fun ty => ?_
  cases ty <;> first | exact pure fun _ => trivial | exact bind read fun _ => throw _

theorem fieldIndex (base : NodeId) (sel : FieldSel) : Collects program final (fun _ => True) (fieldIndex base sel) := by
  cases sel with
  | index position => exact pure trivial
  | name name =>
      refine bind (typeOf base) fun ty => ?_
      split
      · exact pure fun _ => trivial
      · exact bind read fun _ => throw _

theorem checkFunction (callee : FunctionId) :
    Collects program final (fun _ => program.Knows callee) (checkFunction callee) := by
  refine bind read fun scope => ?_
  split
  · exact throw _
  · rename_i known
    exact pure fun same => by simpa [Program.Knows, same, Option.isSome_iff_ne_none] using known

theorem located (span : Span) (message : String) : Collects program final (fun _ => True) (located span message) := by
  refine bind read fun scope => ?_
  split <;> exact pure fun _ => trivial

theorem name (access : Access) (ref : VarRef) :
    Collects program final (Fragment.Evaluates program final) (name access ref) := by
  cases ref with
  | slot _ | field _ => cases access <;> exact pure ⟨trivial, by simp [Lower.name.atPlace]⟩
  | event _ | enumConst _ => exact readOnly ⟨trivial, by simp⟩

theorem index (access : Access) (base : NodeId) {container key : Fragment} :
    Collects program final (fun fragment => container.Reads program final → key.Reads program final →
      fragment.Evaluates program final) (index access base container key) := by
  refine bind (containerKind base) fun kind => ?_
  cases access with
  | read =>
      exact bind (expectValue _) fun _ => bind (expectValue _) fun _ =>
        pure fun key container _ readsContainer readsKey => ⟨⟨container readsContainer, key readsKey⟩, by simp⟩
  | write =>
      exact bind (expectPlace _) fun _ => bind (expectValue _) fun _ =>
        pure fun key container _ readsContainer readsKey => ⟨⟨container readsContainer, key readsKey⟩, by simp⟩

theorem field (access : Access) (base : NodeId) (sel : FieldSel) {container : Fragment} :
    Collects program final (fun fragment => container.Reads program final → fragment.Evaluates program final)
      (field access base sel container) := by
  refine bind (fieldIndex base sel) fun position => ?_
  cases access with
  | read => exact bind (expectValue _) fun _ => pure fun container _ reads => ⟨container reads, by simp⟩
  | write => exact bind (expectPlace _) fun _ => pure fun container _ reads => ⟨container reads, by simp⟩

theorem transferred (item : ListItem) : Collects program final
    (fun operand => item.fragment.Reads program final → operand.Reads program.Knows final) item.transferred :=
  bind (expectValue _) fun _ => pure fun holds reads => (holds reads).transferred

theorem namedField (item : ListItem) : Collects program final
    (fun field => item.fragment.Reads program final → field.2.Reads program.Knows final) item.namedField := by
  unfold ListItem.namedField
  split
  · exact bind (transferred item) fun _ => pure id
  · exact unexpected _ _

theorem argument (item : ListItem) : Collects program final
    (fun arg => item.fragment.Reads program final → arg.value.Reads program.Knows final) item.argument :=
  bind (transferred item) fun _ => pure id

end Collects

theorem mapM_freshLabel_pending {scope : Lowering.Scope} {start stop : Lowering.Progress} {choices : List Nat}
    {labels : List LabelId} (succeeds : (choices.mapM fun _ => freshLabel) scope start = .ok (labels, stop)) :
    stop.pending = start.pending := by
  induction choices generalizing start labels with
  | nil =>
      obtain ⟨_, rfl⟩ := pure_eq_ok.mp succeeds
      rfl
  | cons choice rest ih =>
      simp only [List.mapM_cons, bind_eq_ok, pure_eq_ok] at succeeds
      obtain ⟨_, _, fresh, _, _, later, _, rfl⟩ := succeeds
      obtain ⟨_, rfl⟩ := freshLabel_eq_ok.mp fresh
      have rest := ih later
      exact rest

theorem asked_pending {scope : Lowering.Scope} {start stop : Lowering.Progress} {kept : Nat} {choices : List Nat}
    (succeeds : asked kept scope start = .ok (choices, stop)) :
    choices = start.pending.drop kept ∧ stop.pending = start.pending.take kept := by
  simp only [asked, bind_eq_ok, pure_eq_ok] at succeeds
  obtain ⟨_, _, take, _, _, issued, rfl, rfl⟩ := succeeds
  obtain ⟨rfl, rfl⟩ := takeChoices_eq_ok.mp take
  exact ⟨rfl, mapM_freshLabel_pending issued⟩

/-- Items of a list that read only the final choices. -/
abbrev ItemsRead (program : Program) (final : List Nat) (items : List ListItem) : Prop :=
  ∀ item ∈ items, item.fragment.Reads program final

namespace Collects

variable {program final}

theorem payload (items : List ListItem) : Collects program final
    (fun operand => ItemsRead program final items → operand.Reads program.Knows final) (payload items) := by
  refine bind (mapM transferred items) fun operands => pure fun holds reads => ?_
  have all := holds reads
  rcases operands with _ | ⟨operand, _ | ⟨other, rest⟩⟩
  · trivial
  · exact all operand (by simp)
  · exact Operand.readAll_iff.mpr all

/-- The arguments of a call read the final choices, and what is written back are slots of arguments. -/
theorem callArguments (slot : Nat) (items : List ListItem) : Collects program final
    (fun result => ItemsRead program final items →
      Argument.ReadAll program.Knows final result.1 ∧
        ∀ pair ∈ result.2, pair.1.Reads program.Knows final ∧ pair.2 < slot + result.1.length)
    (callArguments slot items) := by
  induction items generalizing slot with
  | nil => exact pure fun _ => ⟨trivial, by simp⟩
  | cons item rest ih =>
      have others (reads : ItemsRead program final (item :: rest)) : ItemsRead program final rest :=
        fun other member => reads other (by simp [member])
      unfold Lower.callArguments
      split
      · refine bind (expectPlace _) fun place => bind (ih (slot + 1)) fun result => pure fun later first reads => ?_
        obtain ⟨args, backs⟩ := later (others reads)
        have own := first (reads item (by simp))
        refine ⟨⟨own, args⟩, fun pair member => ?_⟩
        rcases List.mem_cons.mp member with rfl | inside
        · exact ⟨own, by simp⟩
        · obtain ⟨readsPair, bound⟩ := backs pair inside
          exact ⟨readsPair, by simp only [List.length_cons]; omega⟩
      · refine bind (argument item) fun arg => bind (ih (slot + 1)) fun result => pure fun later first reads => ?_
        obtain ⟨args, backs⟩ := later (others reads)
        have own := first (reads item (by simp))
        refine ⟨?_, fun pair member => ?_⟩
        · obtain ⟨operand, qualifier⟩ := arg
          exact ⟨own, args⟩
        · obtain ⟨readsPair, bound⟩ := backs pair member
          exact ⟨readsPair, by simp only [List.length_cons]; omega⟩

end Collects

end Lower

end Reentry
