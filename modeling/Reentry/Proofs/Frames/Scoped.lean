import Reentry.Proofs.Frames.Sound
import Reentry.Proofs.Lowering.Choices

/-!
Lowered bodies are sound: each statement asks for the choices that its own operands read, and calls only
functions of the program.
-/

namespace Reentry

/-- A fragment is usable if its operands read only the final choices; the code of a single statement has
to be sound as well. -/
def Fragment.Usable (program : Program) (final : List Nat) (kind : NodeKind) : Fragment → Prop
  | .code body => kind.isStructured = false → Outline.Sound program.Knows final none (Outline.ofCode body)
  | other => other.Reads program final

theorem Fragment.Evaluates.usable {program : Program} {final : List Nat} {kind : NodeKind} {fragment : Fragment}
    (evaluates : fragment.Evaluates program final) : fragment.Usable program final kind := by
  cases fragment with
  | value _ | place _ => exact evaluates.1
  | code body => exact absurd rfl (evaluates.2 body)

namespace Outline.Sound

variable {knows : FunctionId → Prop} {recorded : List Nat} {returned : Option Nat}

/-- Instructions that only need their operands. -/
theorem ofStraight {code : List Instr} (straight : ∀ instr ∈ code, instr.isStraight)
    (reads : ∀ instr ∈ code, instr.Reads knows recorded) (fits : ∀ instr ∈ code, instr.Fits returned) :
    Sound knows recorded returned (ofCode code) := by
  rw [ofCode_straight straight]
  induction code generalizing recorded with
  | nil => exact .nil
  | cons instr rest ih =>
      refine .act (straight _ (by simp)) (reads _ (by simp)) (fits _ (by simp)) (ih ?_ ?_ ?_)
      · exact fun other member => straight other (by simp [member])
      · exact fun other member => (reads other (by simp [member])).mono fun _ old => List.mem_append_right _ old
      · exact fun other member => fits other (by simp [member])

end Outline.Sound

namespace Lower.Collects

variable {program : Program} {final : List Nat}

open Outline in
theorem assign (qualifier : Qualifier) (source : Fragment) (dest : Destination) : Collects program final
    (fun code => source.Reads program final → dest.Reads program final →
      Sound program.Knows final none (ofCode code)) (assign qualifier source dest) := by
  have value (operand : Operand) : Collects program final
      (fun code => operand.Reads program.Knows final → dest.Reads program final →
        Sound program.Knows final none (ofCode code)) (assignValue operand dest) := by
    cases dest with
    | element base container key =>
        exact bind (expectPlace _) fun _ => bind (expectValue _) fun _ => bind (containerKind _) fun _ =>
          pure fun _ key container reads dest => .act rfl ⟨container dest.1, key dest.2, reads⟩ trivial .nil
    | part base sel container =>
        exact bind (expectPlace _) fun _ => bind (fieldIndex _ _) fun _ =>
          pure fun _ container reads dest => .act rfl ⟨container dest, trivial, reads⟩ trivial .nil
    | whole dest =>
        exact bind (expectPlace _) fun _ => pure fun place reads dest => .act rfl ⟨place dest, reads⟩ trivial .nil
  have swap (place : Place) : Collects program final
      (fun code => place.Reads program.Knows final → dest.Reads program final →
        Sound program.Knows final none (ofCode code)) (assignSwap place dest) := by
    cases dest with
    | element base container key =>
        exact bind (expectPlace _) fun _ => bind (expectValue _) fun _ => bind (containerKind _) fun _ =>
          pure fun _ key container reads dest => .act rfl ⟨container dest.1, key dest.2, reads⟩ trivial .nil
    | part base sel container =>
        exact bind (expectPlace _) fun _ => bind (fieldIndex _ _) fun _ =>
          pure fun _ container reads dest => .act rfl ⟨container dest, trivial, reads⟩ trivial .nil
    | whole dest =>
        exact bind (expectPlace _) fun _ => pure fun place reads dest => .act rfl ⟨place dest, reads⟩ trivial .nil
  cases qualifier with
  | swap =>
      exact bind (expectPlace _) fun place => (swap place).weaken fun _ holds place source dest => holds (place source) dest
  | none | move =>
      exact bind (expectValue _) fun operand => (value _).weaken fun _ holds operand source dest =>
        holds (operand source).transferred dest

theorem new (machine : MachineTypeId) (args : List ListItem) (out : Option Fragment) : Collects program final
    (fun code => ItemsRead program final args → (∀ place ∈ out, place.Reads program final) →
      Outline.Sound program.Knows final none (Outline.ofCode code)) (new machine args out) := by
  refine bind (payload args) fun payload => bind (optionMapM expectPlace out) fun out => bind freshLabel fun _ =>
    pure fun _ places payload args outs => ?_
  have places := places outs
  have asked (resume : LabelId) :
      ((Question.new machine _).request resume).Reads program.Knows final := payload args
  cases out with
  | none => exact .ask asked .nil
  | some place => exact .ask asked (.act rfl (places place rfl) trivial .nil)

theorem call (callee : FunctionId) (args : List ListItem) (out : Option Fragment) : Collects program final
    (fun code => ItemsRead program final args → (∀ place ∈ out, place.Reads program final) →
      Outline.Sound program.Knows final none (Outline.ofCode code)) (call callee args out) := by
  refine bind (checkFunction callee) fun _ => bind (callArguments 0 args) fun result =>
    bind (optionMapM expectPlace out) fun out => bind freshLabel fun landing =>
      pure fun _ places arguments known items outs => ?_
  obtain ⟨args, writeBacks⟩ := result
  obtain ⟨reads, backs⟩ := arguments items
  have places := places outs
  have behind : Outline.Sound program.Knows final (some args.length)
      (Outline.ofCode (out.toList.map .collectReturn ++ writeBacks.map fun pair => .writeBack pair.1 pair.2)) := by
    refine .ofStraight ?_ ?_ ?_ <;> intro instr member <;> rcases List.mem_append.mp member with first | second
    · obtain ⟨place, _, rfl⟩ := List.mem_map.mp first
      rfl
    · obtain ⟨pair, _, rfl⟩ := List.mem_map.mp second
      rfl
    · obtain ⟨place, present, rfl⟩ := List.mem_map.mp first
      exact places place (Option.mem_toList.mp present)
    · obtain ⟨pair, present, rfl⟩ := List.mem_map.mp second
      exact (backs pair present).1
    · obtain ⟨place, _, rfl⟩ := List.mem_map.mp first
      rfl
    · obtain ⟨pair, present, rfl⟩ := List.mem_map.mp second
      exact ⟨_, rfl, by simpa using (backs pair present).2⟩
  have code : Outline.ofCode (Template.call callee args out writeBacks landing)
      = .act (.pushFrame callee args) :: .call callee :: Outline.ofCode
        (out.toList.map .collectReturn ++ writeBacks.map fun pair => .writeBack pair.1 pair.2) := by
    rw [Template.call, List.append_assoc, Outline.ofCode_append]
    rfl
  rw [code]
  exact .call known reads behind

theorem raise (span : Span) (event : Fragment) (args : List ListItem) : Collects program final
    (fun code => event.Reads program final → ItemsRead program final args →
      Outline.Sound program.Knows final none (Outline.ofCode code)) (raise span event args) :=
  bind (expectValue _) fun _ => bind (payload args) fun _ => bind (located span _) fun _ =>
    pure fun _ payload event reads items =>
      .act rfl ⟨event reads, trivial⟩ trivial (.act rfl ⟨trivial, event reads⟩ trivial
        (.act rfl ⟨trivial, payload items⟩ trivial (.finish trivial .nil)))

theorem send (span : Span) (target event : Fragment) (args : List ListItem) : Collects program final
    (fun code => target.Reads program final → event.Reads program final → ItemsRead program final args →
      Outline.Sound program.Knows final none (Outline.ofCode code)) (send span target event args) :=
  bind (expectValue _) fun _ => bind (expectValue _) fun _ => bind (payload args) fun _ =>
    bind (located span _) fun _ => bind freshLabel fun _ =>
      pure fun _ _ payload event target readsTarget readsEvent items =>
        .act rfl ⟨event readsEvent, trivial⟩ trivial (.act rfl ⟨target readsTarget, event readsEvent, payload items⟩
          trivial (.ask (fun _ => trivial) .nil))

theorem loop (cond body : Fragment) : Collects program final (fun _ => True) (loop cond body) :=
  bind (expectValue _) fun _ => bind (expectCode _) fun _ => bind freshMark fun _ => bind freshMark fun _ =>
    pure fun _ _ _ _ => trivial

theorem branch (cond onTrue : Fragment) (onFalse : Option Fragment) :
    Collects program final (fun _ => True) (branch cond onTrue onFalse) := by
  refine bind (expectValue _) fun _ => bind (expectCode _) fun _ => bind freshMark fun _ => ?_
  cases onFalse with
  | none => exact pure fun _ _ _ => trivial
  | some onFalse => exact bind (expectCode _) fun _ => bind freshMark fun _ => pure fun _ _ _ _ _ => trivial

theorem receive (cases : List ReceiveCase) : Collects program final
    (fun _ => ∀ case ∈ cases, program.Knows case.handler) (receive cases) := by
  have issue (case : ReceiveCase) : Collects program final (fun _ => True)
      (do Pure.pure (⟨case.event, case.handler, ← Lower.freshLabel⟩ : ReceiveArm)) :=
    bind freshLabel fun _ => pure id
  exact bind (forM (fun case => checkFunction case.handler) cases) fun _ => bind freshLabel fun _ =>
    bind freshLabel fun _ => bind (mapM_any issue cases) fun _ => pure fun _ _ _ known => known

mutual

theorem checkCell : (cell : Node) → Collects program final (fun _ => True) (checkCell cell)
  | .mk _ _ kind => by
      cases kind with
      | exprs _ _ tail => exact checkList tail
      | namedExprs _ _ tail => exact checkList tail
      | _ => exact unexpected _ _
termination_by structural cell => cell

theorem checkList : (list : Option Node) → Collects program final (fun _ => True) (checkList list)
  | none => pure trivial
  | some cell => checkCell cell
termination_by structural list => list

end

/-- A node takes back what its parts have added, if it is a statement. -/
theorem node {inNew : Bool} {access : Access} {id : NodeId} {span : Span} {kind : NodeKind}
    (collects : Collects program final (Fragment.Usable program final kind) (kind.lower (inNew || kind.isNew) access span)) :
    Collects program final (Fragment.Reads program final) ((Node.mk id span kind).lower inNew access) := by
  unfold Node.lower
  split
  · exact bind read fun _ => throw _
  · intro scope start result stop same succeeds
    simp only [bind_eq_ok, get_eq_ok] at succeeds
    obtain ⟨_, _, ⟨rfl, rfl⟩, fragment, between, lowered, settled⟩ := succeeds
    obtain ⟨added, grown, usable⟩ := collects _ _ _ _ same lowered
    cases fragment with
    | value _ | place _ =>
        obtain ⟨rfl, rfl⟩ := pure_eq_ok.mp settled
        exact ⟨added, grown, usable⟩
    | code body =>
        obtain ⟨code, settling, rfl⟩ := map_eq_ok.mp settled
        obtain ⟨choices, asks, asking, _⟩ := settleChoices_eq_ok settling
        obtain ⟨_, pending⟩ := asked_pending asking
        refine ⟨[], ?_, fun _ => trivial⟩
        rw [pending, grown, List.take_left, List.append_nil]

mutual

theorem nodeLower (inNew : Bool) (access : Access) :
    (node : Node) → Collects program final (Fragment.Reads program final) (node.lower inNew access)
  | .mk _ span kind => node (kindLower _ access span kind)

theorem kindLower (inNew : Bool) (access : Access) (span : Span) :
    (kind : NodeKind) → Collects program final (Fragment.Usable program final kind) (kind.lower inNew access span)
  | .name ref => (name access ref).weaken fun _ evaluates => evaluates.usable
  | .lit value => readOnly (by cases value <;> trivial)
  | .nondet _ => by
      cases access with
      | read => exact bind freshChoice fun _ => pure id
      | write => exact unexpected _ _
  | .unary op arg =>
      bind (nodeLower inNew .read arg) fun _ => bind (expectValue _) fun _ => readOnly fun operand arg => operand arg
  | .binary op lhs rhs => by
      unfold NodeKind.lower
      split
      · exact bind (nodeLower inNew access lhs) fun _ => bind (nodeLower inNew .read rhs) fun _ =>
          (index access lhs.id).weaken fun _ evaluates key container => (evaluates container key).usable
      · exact bind (nodeLower inNew .read lhs) fun _ => bind (nodeLower inNew .read rhs) fun _ =>
          bind (expectValue _) fun _ => bind (expectValue _) fun _ =>
            readOnly fun right left rhs lhs => ⟨left lhs, right rhs⟩
  | .field base sel =>
      bind (nodeLower inNew access base) fun _ =>
        (field access base.id sel).weaken fun _ evaluates container => (evaluates container).usable
  | .tuple list =>
      bind (checkCell list) fun _ => bind (cellLower inNew false list) fun items =>
        bind (mapM transferred items) fun _ => readOnly fun all items _ => Operand.readAll_iff.mpr (all items)
  | .namedTuple list =>
      bind (checkCell list) fun _ => bind (cellLower inNew false list) fun items =>
        bind (mapM namedField items) fun _ => readOnly fun all items _ => Operand.readFields_iff.mpr (all items)
  | .default ty => readOnly trivial
  | .cast expr ty =>
      bind (nodeLower inNew .read expr) fun _ => bind (expectValue _) fun _ => readOnly fun operand expr => operand expr
  | .app callee args =>
      bind (checkList args) fun _ => bind (itemsLower inNew false args) fun items => bind (checkFunction callee) fun _ =>
        bind (mapM argument items) fun _ =>
          readOnly fun all known items _ => ⟨known, Argument.readAll_iff.mpr (all items)⟩
  | .exprs _ _ _ => unexpected _ _
  | .namedExprs _ _ _ => unexpected _ _
  | .new machine args out =>
      bind (checkList args) fun _ => bind (itemsLower inNew false args) fun items =>
        bind (optionalLower inNew .write out) fun out =>
          map (new machine items out) fun _ sound outs items _ _ => sound items outs
  | .call callee args out =>
      bind (checkList args) fun _ => bind (itemsLower inNew true args) fun items =>
        bind (optionalLower inNew .write out) fun out =>
          map (call callee items out) fun _ sound outs items _ _ => sound items outs
  | .goto state args =>
      bind (checkList args) fun _ => bind (itemsLower inNew false args) fun items => bind (payload items) fun _ =>
        pure fun payload items _ _ =>
          .act rfl ⟨trivial, trivial⟩ trivial (.act rfl ⟨trivial, payload items⟩ trivial
            (.act rfl trivial trivial (.finish trivial .nil)))
  | .raise event args =>
      bind (checkList args) fun _ => bind (nodeLower inNew .read event) fun event =>
        bind (itemsLower inNew false args) fun items =>
          map (raise span event items) fun _ sound items event _ _ => sound event items
  | .send target event args =>
      bind (checkList args) fun _ => bind (nodeLower inNew .read target) fun target =>
        bind (nodeLower inNew .read event) fun event => bind (itemsLower inNew false args) fun items =>
          map (send span target event items) fun _ sound items event target _ _ => sound target event items
  | .announce event args =>
      bind (checkList args) fun _ => bind (nodeLower inNew .read event) fun _ =>
        bind (itemsLower inNew false args) fun items => bind (expectValue _) fun _ => bind (payload items) fun _ =>
          pure fun payload operand items event _ _ => .act rfl ⟨operand event, payload items⟩ trivial .nil
  | .receive cases => map (receive cases) fun _ _ single => by cases single
  | .assert cond message =>
      bind (nodeLower inNew .read cond) fun _ => bind (expectValue _) fun _ => bind (located span _) fun _ =>
        pure fun _ operand cond _ => .act rfl (operand cond) trivial .nil
  | .print format args =>
      bind (checkList args) fun _ => bind (itemsLower inNew false args) fun items =>
        bind (mapM (fun item => expectValue item.fragment) items) fun _ =>
          pure fun all items _ _ => .act rfl (Operand.readAll_iff.mpr (all items)) trivial .nil
  | .assign lhs rhs qualifier =>
      bind (nodeLower inNew _ rhs) fun source => bind (selectionLower inNew lhs) fun selection => by
        cases selection with
        | some selection =>
            exact map (assign qualifier source selection) fun _ sound dests source _ => sound source (dests _ rfl)
        | none =>
            exact bind (nodeLower inNew .write lhs) fun dest =>
              map (assign qualifier source (.whole dest)) fun _ sound dest _ source _ => sound source dest
  | .remove target key =>
      bind (nodeLower inNew .read key) fun _ => bind (nodeLower inNew .write target) fun _ =>
        bind (expectValue _) fun _ => bind (expectPlace _) fun _ => bind (containerKind _) fun _ =>
          pure fun _ place operand target key _ => .act rfl ⟨place target, operand key⟩ trivial .nil
  | .insert target entry =>
      bind (nodeLower inNew .read entry) fun _ => bind (nodeLower inNew .write target) fun _ =>
        bind (expectValue _) fun _ => bind (expectPlace _) fun _ => bind (containerKind _) fun _ =>
          pure fun _ place operand target entry _ => .act rfl ⟨place target, operand entry⟩ trivial .nil
  | .pop => pure fun _ =>
      .act rfl ⟨trivial, trivial⟩ trivial (.act rfl ⟨trivial, trivial⟩ trivial (.finish trivial .nil))
  | .ret value =>
      bind (optionalLower inNew .read value) fun value => bind (optionMapM expectValue value) fun operand =>
        pure fun operands value _ => by
          cases operand with
          | none => exact .finish trivial .nil
          | some operand => exact .finish (operands value operand rfl).cloned .nil
  | .loop cond body =>
      bind (nodeLower inNew .read cond) fun _ => bind (nodeLower inNew .read body) fun _ =>
        map (loop _ _) fun _ _ _ _ single => by cases single
  | .branch cond onTrue onFalse =>
      bind (nodeLower inNew .read cond) fun _ => bind (nodeLower inNew .read onTrue) fun _ =>
        bind (optionalLower inNew .read onFalse) fun _ => map (branch _ _ _) fun _ _ _ _ _ single => by cases single
  | .seq first rest =>
      bind (nodeLower inNew .read first) fun _ => bind (nodeLower inNew .read rest) fun _ =>
        bind (expectCode _) fun _ => bind (expectCode _) fun _ => pure fun _ _ _ _ single => by cases single
  | .block statements =>
      bind (allLower inNew statements) fun _ => bind (mapM_any expectCode _) fun _ => pure fun _ _ single => by cases single

theorem selectionLower (inNew : Bool) : (node : Node) → Collects program final
    (fun selection => ∀ dest ∈ selection, dest.Reads program final) (node.lowerSelection inNew)
  | .mk id span kind => by
      cases kind with
      | binary op base key =>
          cases op with
          | index =>
              exact bind (nodeLower inNew .write base) fun _ => bind (nodeLower inNew .read key) fun _ =>
                pure fun key base dest member => by
                  obtain rfl := Option.mem_some.mp member
                  exact ⟨base, key⟩
          | _ => exact pure (by simp)
      | field base sel =>
          exact bind (nodeLower inNew .write base) fun _ => pure fun base dest member => by
            obtain rfl := Option.mem_some.mp member
            exact base
      | _ => exact pure (by simp)

theorem cellLower (inNew swapsWrite : Bool) : (cell : Node) →
    Collects program final (ItemsRead program final) (cell.lowerCell inNew swapsWrite)
  | .mk id span kind => by
      cases kind with
      | exprs qualifier head tail =>
          refine bind (nodeLower inNew _ head) fun fragment => bind (itemsLower inNew swapsWrite tail) fun rest =>
            pure fun others own item member => ?_
          rcases List.mem_cons.mp member with rfl | inside
          · exact own
          · exact others item inside
      | namedExprs name head tail =>
          refine bind (nodeLower inNew _ head) fun fragment => bind (itemsLower inNew swapsWrite tail) fun rest =>
            pure fun others own item member => ?_
          rcases List.mem_cons.mp member with rfl | inside
          · exact own
          · exact others item inside
      | _ => exact unexpected _ _

theorem itemsLower (inNew swapsWrite : Bool) : (list : Option Node) →
    Collects program final (ItemsRead program final) (lowerItems inNew swapsWrite list)
  | none => pure fun _ member => by cases member
  | some cell => cellLower inNew swapsWrite cell

theorem optionalLower (inNew : Bool) (access : Access) : (node : Option Node) → Collects program final
    (fun fragment => ∀ present ∈ fragment, present.Reads program final) (lowerOptional inNew access node)
  | none => pure (by simp)
  | some node => map (nodeLower inNew access node) fun _ reads present member => by
      obtain rfl := Option.mem_some.mp member
      exact reads

theorem allLower (inNew : Bool) : (nodes : List Node) →
    Collects program final (fun _ => True) (lowerAll inNew nodes)
  | [] => pure trivial
  | node :: rest =>
      bind (nodeLower inNew .read node) fun _ => bind (allLower inNew rest) fun _ => pure fun _ _ => trivial

end

open Outline (Sound)

/-- A statement without inner statements, behind the choices that it reads. -/
theorem singleOutline {span : Span} {kind : NodeKind} (single : kind.isStructured = false) :
    Collects program final (fun settle => Sound program.Knows [] none (settle final)) (kind.outline span) := by
  have own : kind.outline span = kind.lower kind.isNew .read span >>= fun fragment =>
      match fragment with
      | .code body => Pure.pure fun choices => Outline.chooseAll choices ++ Outline.ofCode body
      | other => Lower.unexpected "statement" other.kindName := by
    cases kind <;> first | rfl | cases single
  rw [own]
  refine bind (kindLower _ .read span kind) fun fragment => ?_
  cases fragment with
  | code body => exact pure fun usable => .chooseAll (by simpa using usable single)
  | value _ | place _ => exact unexpected _ _

/-- The choices of a statement that has inner statements of its own. -/
theorem settled {outline : List Outline} (sound : Sound program.Knows final none outline) :
    Sound program.Knows [] none (Outline.chooseAll final ++ outline) :=
  .chooseAll (by simpa using sound)

theorem waits (cases : List ReceiveCase) {outline : List Outline} (sound : Sound program.Knows final none outline) :
    Sound program.Knows final none ((cases.map fun case => .act (.registerReceive case.event)) ++ outline) := by
  induction cases with
  | nil => exact sound
  | cons case rest ih => exact .act rfl trivial trivial ih

mutual

/-- What a statement adds to the pending choices is what it asks for. -/
theorem nodeOutline (final : List Nat) : (node : Node) →
    Collects program final (Sound program.Knows [] none) node.outline
  | .mk _ span kind => by
      intro scope start result stop same succeeds
      simp only [Node.outline, bind_eq_ok, get_eq_ok, pure_eq_ok] at succeeds
      obtain ⟨_, _, ⟨rfl, rfl⟩, settle, between, outlined, choices, _, asking, rfl, rfl⟩ := succeeds
      obtain ⟨added, grown, sound⟩ := kindOutline choices span kind _ _ _ _ same outlined
      obtain ⟨rfl, pending⟩ := asked_pending asking
      rw [grown, List.drop_left] at sound ⊢
      rw [grown, List.take_left] at pending
      exact ⟨[], by rw [pending, List.append_nil], fun _ => sound fun _ member => member⟩

theorem kindOutline (final : List Nat) (span : Span) : (kind : NodeKind) →
    Collects program final (fun settle => Sound program.Knows [] none (settle final)) (kind.outline span)
  | .receive cases => by
      refine bind (receive cases) fun _ => pure fun known => ?_
      rw [List.append_assoc]
      refine settled ?_
      exact waits cases (.ask (fun _ => trivial) (.dispatch known .nil))
  | .loop cond body =>
      bind (nodeLower false .read cond) fun _ => bind (nodeOutline final body) fun _ => bind (expectValue _) fun _ =>
        bind freshMark fun _ => bind freshMark fun _ => pure fun _ _ operand round cond =>
          .loop (by simpa using operand cond) round .nil
  | .branch cond onTrue onFalse => by
      refine bind (nodeLower false .read cond) fun _ => bind (nodeOutline final onTrue) fun outline =>
        bind (optionalOutline final onFalse) fun other => bind (expectValue _) fun operand => bind freshMark fun _ => ?_
      have grow {outline : List Outline} (sound : Sound program.Knows [] none outline) :
          Sound program.Knows final none outline := sound.mono (by simp) (.inl rfl)
      cases other with
      | none =>
          exact pure fun _ reads _ onTrue cond => settled (.branch (reads cond) (grow onTrue) .nil .nil)
      | some other =>
          exact bind freshMark fun _ => pure fun _ _ reads onFalse onTrue cond =>
            settled (.branch (reads cond) (grow onTrue) (grow (onFalse other rfl)) .nil)
  | .seq first rest =>
      bind (nodeOutline final first) fun _ => bind (nodeOutline final rest) fun _ =>
        pure fun rest first => settled ((first.append rest).mono (by simp) (.inl rfl))
  | .block statements =>
      bind (allOutline final statements) fun _ => pure fun all => settled (all.mono (by simp) (.inl rfl))
  | .name _ | .lit _ | .nondet _ | .unary _ _ | .binary _ _ _ | .field _ _ | .tuple _ | .namedTuple _ | .default _
  | .cast _ _ | .app _ _ | .exprs _ _ _ | .namedExprs _ _ _ | .new _ _ _ | .call _ _ _ | .goto _ _ | .raise _ _
  | .send _ _ _ | .announce _ _ | .assert _ _ | .print _ _ | .assign _ _ _ | .remove _ _ | .insert _ _ | .pop
  | .ret _ => singleOutline rfl

theorem optionalOutline (final : List Nat) : (node : Option Node) → Collects program final
    (fun outline => ∀ present ∈ outline, Sound program.Knows [] none present) (outlineOptional node)
  | none => pure (by simp)
  | some node => map (nodeOutline final node) fun _ sound present member => by
      obtain rfl := Option.mem_some.mp member
      exact sound

theorem allOutline (final : List Nat) : (nodes : List Node) → Collects program final
    (fun outlines => Sound program.Knows [] none outlines.flatten) (outlineAll nodes)
  | [] => pure .nil
  | node :: rest =>
      bind (nodeOutline final node) fun _ => bind (allOutline final rest) fun _ =>
        pure fun others first => first.append others

end

end Lower.Collects

/-- The outline of every function of a program is sound. -/
theorem Program.outline_sound {program : Program} {function : FunctionId} {options : LowerOptions}
    {outline : List Outline} (succeeds : program.outline function options = .ok outline) :
    Outline.Sound program.Knows [] none outline := by
  obtain ⟨info, progress, _, outlined⟩ := Program.outline_eq_ok succeeds
  have collected := Lower.Collects.nodeOutline progress.pending info.body _ _ _ _ rfl outlined
  obtain ⟨added, grown, sound⟩ := collected
  refine sound fun number member => ?_
  rw [grown]
  exact List.mem_append_right _ member

end Reentry
