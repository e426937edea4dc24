import Reentry.Proofs.Choices.Told
import Reentry.Proofs.Grammar.Exact
import Reentry.Proofs.Lowering.Choices

/-!
Every body that can be lowered asks for its choices as its script does. The numbers of a statement's own choices follow one
another, whatever has been lowered before; so of each statement it can be said on its own what its outline becomes once they
are known.
-/

namespace Reentry

open Lower

namespace Answers

/-- Booleans for numbers that follow one another. -/
theorem offset {known : Nat → Option Bool} {first count : Nat} {bits : List Bool}
    (answers : Answers known (List.range' first count) bits) : ∀ offset < count, known (first + offset) = some (bits.getD offset false) := by
  intro offset bound
  have found : ((List.range' first count).map known)[offset]? = some (known (first + offset)) := by
    rw [List.getElem?_map, List.getElem?_range' bound]
    simp
  rw [answers, List.getElem?_map, Option.map_eq_some_iff] at found
  obtain ⟨bit, there, same⟩ := found
  rw [← same, List.getD_eq_getElem?_getD, there]
  rfl

end Answers

namespace Lower.Echoes

variable {α β : Type} {scope : Lowering.Scope} {count : Nat} {start stop : Lowering.Progress} {work : Lower α}
  {alike : (Nat → Option Bool) → α → β → Prop} {echo : List Bool → Lower β} {result : α}

/-- What has been lowered took its choices one after the other. -/
theorem takes (echoes : ∀ known bits, Echoes scope known count bits (alike known) work (echo bits))
    (succeeds : work scope start = .ok (result, stop)) :
    stop.pending = start.pending ++ List.range' start.nextChoice count := by
  have agreed : ∀ offset < count, (fun _ => some false) (start.nextChoice + offset) = some (([] : List Bool).getD offset false) :=
    fun _ _ => rfl
  exact (echoes (fun _ => some false) [] start result stop agreed succeeds).1

/-- Once the choices are known, lowering can start anew, with the answers in their place. -/
theorem again (echoes : ∀ known bits, Echoes scope known count bits (alike known) work (echo bits))
    (succeeds : work scope start = .ok (result, stop)) {known : Nat → Option Bool} {bits : List Bool}
    (answers : Answers known (List.range' start.nextChoice count) bits) :
    ∃ echoed last, echo bits scope .start = .ok (echoed, last) ∧ last.pending = [] ∧ alike known result echoed :=
  (echoes known bits start result stop answers.offset succeeds).2.2 .start

end Lower.Echoes

/-- A statement on its own, the numbers of whose choices follow one another. -/
theorem Told.single {first count : Nat} {outline : List Outline} {script : List Bool → List Script}
    (begun : ∀ known bits, Answers known (List.range' first count) bits → Begun known outline (script bits)) :
    Told (Outline.chooseAll (List.range' first count) ++ outline) (Script.choose count script) := by
  have told := Told.statement List.nodup_range' begun .nil
  rwa [List.append_nil, List.append_nil, List.length_range'] at told

theorem Node.outline_eq_ok {scope : Lowering.Scope} {start stop : Lowering.Progress} {id : NodeId} {span : Span}
    {kind : NodeKind} {outline : List Outline} (succeeds : (Node.mk id span kind).outline scope start = .ok (outline, stop)) :
    ∃ settle middle, kind.outline span scope start = .ok (settle, middle) ∧
      outline = settle (middle.pending.drop start.pending.length) ∧ stop.pending = middle.pending.take start.pending.length := by
  unfold Node.outline at succeeds
  obtain ⟨progress, _, got, continued⟩ := bind_eq_ok.mp succeeds
  obtain ⟨rfl, rfl⟩ := get_eq_ok.mp got
  obtain ⟨settle, middle, outlined, continued⟩ := bind_eq_ok.mp continued
  obtain ⟨choices, last, asking, finished⟩ := bind_eq_ok.mp continued
  obtain ⟨rfl, rfl⟩ := pure_eq_ok.mp finished
  obtain ⟨rfl, pending⟩ := asked_pending asking
  exact ⟨settle, middle, outlined, rfl, pending⟩

/-- Each statement of an outline is told by its script, and takes its own choices back. -/
def Tells (scope : Lowering.Scope) (outlining : Lower (List Outline)) (script : List Script) : Prop :=
  ∀ start outline stop, outlining scope start = .ok (outline, stop) → Told outline script ∧ stop.pending = start.pending

namespace Grammar

variable {scope : Lowering.Scope} {id : NodeId} {span : Span} {kind : NodeKind}

theorem script_single (single : kind.isStructured = false) : (Node.mk id span kind).script scope
    = Script.choose kind.questions fun bits => Script.steps (scope.outlined (.mk id span (kind.answered bits))) := by
  cases kind <;> first | rfl | cases single

theorem answered_single (bits : List Bool) (single : kind.isStructured = false) : (kind.answered bits).isStructured = false := by
  cases kind <;> first | rfl | cases single

theorem outlined_of_pending {settle : List Nat → List Outline} {middle : Lowering.Progress}
    (outlined : kind.outline span scope .start = .ok (settle, middle)) (none : middle.pending = []) :
    scope.outlined (.mk id span kind) = settle [] := by
  have nothing : takeChoices 0 scope middle = .ok ([], { middle with pending := [] }) :=
    takeChoices_eq_ok.mpr ⟨by rw [none]; rfl, rfl⟩
  have succeeds : (Node.mk id span kind).outline scope .start = .ok (settle [], { middle with pending := [] }) := by
    unfold Node.outline
    refine bind_eq_ok.mpr ⟨_, _, get_eq_ok.mpr ⟨rfl, rfl⟩, bind_eq_ok.mpr ⟨settle, middle, outlined, ?_⟩⟩
    exact bind_eq_ok.mpr ⟨[], _, bind_eq_ok.mpr ⟨[], _, nothing, rfl⟩, rfl⟩
  rw [Lowering.Scope.outlined, succeeds]

theorem outlined_single {code : List Instr} {last : Lowering.Progress} (single : kind.isStructured = false)
    (lowered : kind.lower kind.isNew .read span scope .start = .ok (.code code, last)) (none : last.pending = []) :
    scope.outlined (.mk id span kind) = Outline.ofCode code := by
  have outlined : kind.outline span scope .start = .ok (fun choices => Outline.chooseAll choices ++ Outline.ofCode code, last) := by
    rw [NodeKind.outline_single single]
    exact bind_eq_ok.mpr ⟨_, _, lowered, rfl⟩
  exact outlined_of_pending outlined none

/-- A single statement asks for its choices and is carried out with the answers in their place. -/
theorem single_tells (single : kind.isStructured = false) (statement : Statement scope.program scope.function (.mk id span kind)) :
    Tells scope (Node.mk id span kind).outline ((Node.mk id span kind).script scope) := by
  intro start outline stop succeeds
  obtain ⟨settle, middle, outlined, rfl, pending⟩ := Node.outline_eq_ok succeeds
  rw [NodeKind.outline_single single] at outlined
  obtain ⟨fragment, _, lowered, read⟩ := bind_eq_ok.mp outlined
  have echoes (known : Nat → Option Bool) (bits : List Bool) : Echoes scope known kind.questions bits _ _ _ :=
    statement.echoed bits single
  cases fragment with
  | value _ | place _ => exact (unexpected_ne_ok.mp read).elim
  | code code =>
      obtain ⟨rfl, rfl⟩ := pure_eq_ok.mp read
      have taken := Echoes.takes echoes lowered
      rw [taken, List.drop_left]
      rw [taken, List.take_left] at pending
      refine ⟨?_, pending⟩
      rw [script_single single]
      refine .single fun known bits answers => ?_
      obtain ⟨_, last, again, none, own, code', same, rfl, alike⟩ := Echoes.again echoes lowered answers
      cases same
      rw [outlined_single (answered_single bits single) again none, alike.settled]
      exact .steps alike.plain

/-- A receive asks for no choice. -/
theorem receive_tells (cases : List ReceiveCase) :
    Tells scope (Node.mk id span (.receive cases)).outline ((Node.mk id span (.receive cases)).script scope) := by
  intro start outline stop succeeds
  obtain ⟨settle, middle, outlined, rfl, pending⟩ := Node.outline_eq_ok succeeds
  obtain ⟨code, _, received, same⟩ := bind_eq_ok.mp outlined
  obtain ⟨rfl, rfl⟩ := pure_eq_ok.mp same
  have echoes (known : Nat → Option Bool) (bits : List Bool) :
      Echoes scope known 0 bits (fun _ _ => True) (receive cases) (receive cases) := .received cases
  have taken := Echoes.takes echoes received
  rw [taken, List.drop_left]
  rw [taken, List.take_left] at pending
  refine ⟨?_, pending⟩
  have answers : Answers (fun _ => some false) (List.range' start.nextChoice 0) [] := rfl
  obtain ⟨code', last, again, none, _⟩ := Echoes.again echoes received answers
  let waiting : List Outline := (cases.map fun case => .act (.registerReceive case.event)) ++ [.ask .receive, .dispatch cases]
  have anew : (NodeKind.receive cases).outline span scope .start = .ok (fun choices => Outline.chooseAll choices ++
      (cases.map fun case => .act (.registerReceive case.event)) ++ [.ask .receive, .dispatch cases], last) :=
    bind_eq_ok.mpr ⟨_, _, again, rfl⟩
  have own : (Node.mk id span (.receive cases)).script scope = Script.choose 0 fun _ => Script.steps waiting := by
    have outlined : scope.outlined (.mk id span (.receive cases)) = waiting := outlined_of_pending anew none
    rw [← outlined]
    rfl
  rw [own]
  refine @Told.single start.nextChoice 0 waiting _ fun known bits _ => ?_
  have settled : waiting.map (Outline.settle known) = waiting := by
    simp [waiting, Outline.settle, Instr.settle, Question.settle]
  have plain : ∀ outline ∈ waiting, outline.isPlain := by
    intro outline member
    simp only [waiting, List.mem_append, List.mem_map, List.mem_cons, List.not_mem_nil, or_false] at member
    rcases member with ⟨case, _, rfl⟩ | rfl | rfl <;> rfl
  have begun := @Begun.steps known waiting plain
  rwa [settled] at begun

/-- An expression that is tested, with the answers in the place of its choices. -/
theorem Reads.operand_answered {node : Node} {start stop : Lowering.Progress} {fragment : Fragment}
    (reads : Reads scope.program scope.function node) (lowered : node.lower false .read scope start = .ok (fragment, stop)) :
    stop.pending = start.pending ++ List.range' start.nextChoice node.questions ∧
      ∃ cond, fragment = .value cond ∧ ∀ known bits, Answers known (List.range' start.nextChoice node.questions) bits →
        scope.operand (node.answered bits) = cond.settle known := by
  have echoes (known : Nat → Option Bool) (bits : List Bool) : Echoes scope known node.questions bits (Fragment.ValueEcho known)
      (node.lower false .read) ((node.answered bits).lower false .read) := reads.echoed bits
  obtain ⟨_, _, made, cond, rfl⟩ := reads.lowered false start
  rw [lowered] at made
  cases made
  refine ⟨Echoes.takes echoes lowered, cond, rfl, fun known bits answers => ?_⟩
  obtain ⟨_, _, again, _, _, rfl⟩ := Echoes.again echoes lowered answers
  rw [Lowering.Scope.operand, again]
  rfl

theorem loop_tells {cond body : Node} (test : Reads scope.program scope.function cond)
    (inner : Tells scope body.outline (body.script scope)) :
    Tells scope (Node.mk id span (.loop cond body)).outline ((Node.mk id span (.loop cond body)).script scope) := by
  intro start outline stop succeeds
  obtain ⟨settle, middle, outlined, rfl, pending⟩ := Node.outline_eq_ok succeeds
  obtain ⟨fragment, tested, lowered, outlined⟩ := bind_eq_ok.mp outlined
  obtain ⟨round, ended, told, outlined⟩ := bind_eq_ok.mp outlined
  obtain ⟨taken, cond', rfl, answered⟩ := test.operand_answered lowered
  obtain ⟨told, same⟩ := inner _ _ _ told
  obtain ⟨_, _, expected, outlined⟩ := bind_eq_ok.mp outlined
  obtain ⟨rfl, rfl⟩ := pure_eq_ok.mp expected
  obtain ⟨_, _, fresh, outlined⟩ := bind_eq_ok.mp outlined
  obtain ⟨_, rfl⟩ := freshMark_eq_ok.mp fresh
  obtain ⟨_, _, fresh, outlined⟩ := bind_eq_ok.mp outlined
  obtain ⟨_, rfl⟩ := freshMark_eq_ok.mp fresh
  obtain ⟨rfl, rfl⟩ := pure_eq_ok.mp outlined
  simp only [same, taken, List.drop_left, List.take_left] at pending ⊢
  refine ⟨?_, pending⟩
  have loop := Told.loop List.nodup_range' (fun known bits answers => answered known bits answers) told .nil
  rwa [List.length_range'] at loop

theorem branch_tells {cond onTrue : Node} {onFalse : Option Node} (test : Reads scope.program scope.function cond)
    (whenTrue : Tells scope onTrue.outline (onTrue.script scope))
    (whenFalse : ∀ node ∈ onFalse, Tells scope node.outline (node.script scope)) :
    Tells scope (Node.mk id span (.branch cond onTrue onFalse)).outline ((Node.mk id span (.branch cond onTrue onFalse)).script scope) := by
  intro start outline stop succeeds
  obtain ⟨settle, middle, outlined, rfl, pending⟩ := Node.outline_eq_ok succeeds
  obtain ⟨fragment, tested, lowered, outlined⟩ := bind_eq_ok.mp outlined
  obtain ⟨yes, chosen, told, outlined⟩ := bind_eq_ok.mp outlined
  obtain ⟨no, ended, told', outlined⟩ := bind_eq_ok.mp outlined
  obtain ⟨taken, cond', rfl, answered⟩ := test.operand_answered lowered
  obtain ⟨told, same⟩ := whenTrue _ _ _ told
  obtain ⟨_, _, expected, outlined⟩ := bind_eq_ok.mp outlined
  obtain ⟨rfl, rfl⟩ := pure_eq_ok.mp expected
  obtain ⟨_, _, fresh, outlined⟩ := bind_eq_ok.mp outlined
  obtain ⟨_, rfl⟩ := freshMark_eq_ok.mp fresh
  cases onFalse with
  | none =>
      obtain ⟨rfl, rfl⟩ := pure_eq_ok.mp told'
      obtain ⟨rfl, rfl⟩ := pure_eq_ok.mp outlined
      simp only [same, taken, List.drop_left, List.take_left] at pending ⊢
      exact ⟨.single fun known bits answers => answered known bits answers ▸ .branch told .nil, pending⟩
  | some other =>
      obtain ⟨_, own, rfl⟩ := map_eq_ok.mp told'
      obtain ⟨otherwise, same'⟩ := whenFalse other rfl _ _ _ own
      obtain ⟨_, _, fresh, outlined⟩ := bind_eq_ok.mp outlined
      obtain ⟨_, rfl⟩ := freshMark_eq_ok.mp fresh
      obtain ⟨rfl, rfl⟩ := pure_eq_ok.mp outlined
      simp only [same', same, taken, List.drop_left, List.take_left] at pending ⊢
      exact ⟨.single fun known bits answers => answered known bits answers ▸ .branch told otherwise, pending⟩

theorem seq_tells {first rest : Node} (before : Tells scope first.outline (first.script scope))
    (after : Tells scope rest.outline (rest.script scope)) :
    Tells scope (Node.mk id span (.seq first rest)).outline ((Node.mk id span (.seq first rest)).script scope) := by
  intro start outline stop succeeds
  obtain ⟨settle, middle, outlined, rfl, pending⟩ := Node.outline_eq_ok succeeds
  obtain ⟨_, _, told, outlined⟩ := bind_eq_ok.mp outlined
  obtain ⟨_, _, told', outlined⟩ := bind_eq_ok.mp outlined
  obtain ⟨rfl, rfl⟩ := pure_eq_ok.mp outlined
  obtain ⟨told, same⟩ := before _ _ _ told
  obtain ⟨told', same'⟩ := after _ _ _ told'
  simp only [same', same, List.drop_length, List.take_length] at pending ⊢
  exact ⟨told.append told', pending⟩

theorem all_tell {statements : List Node} (each : ∀ node ∈ statements, Tells scope node.outline (node.script scope)) :
    Tells scope (List.flatten <$> outlineAll statements) (scriptAll scope statements) := by
  induction statements with
  | nil =>
      intro start outline stop succeeds
      obtain ⟨_, outlined, rfl⟩ := map_eq_ok.mp succeeds
      obtain ⟨rfl, rfl⟩ := pure_eq_ok.mp outlined
      exact ⟨.nil, rfl⟩
  | cons node rest ih =>
      intro start outline stop succeeds
      obtain ⟨_, outlined, rfl⟩ := map_eq_ok.mp succeeds
      obtain ⟨first, between, told, outlined⟩ := bind_eq_ok.mp outlined
      obtain ⟨others, last, told', outlined⟩ := bind_eq_ok.mp outlined
      obtain ⟨rfl, rfl⟩ := pure_eq_ok.mp outlined
      obtain ⟨told, same⟩ := each node (by simp) _ _ _ told
      obtain ⟨told', same'⟩ := ih (fun other member => each other (by simp [member])) _ _ _ (map_eq_ok.mpr ⟨_, told', rfl⟩)
      exact ⟨told.append told', same'.trans same⟩

theorem block_tells {statements : List Node} (each : ∀ node ∈ statements, Tells scope node.outline (node.script scope)) :
    Tells scope (Node.mk id span (.block statements)).outline ((Node.mk id span (.block statements)).script scope) := by
  intro start outline stop succeeds
  obtain ⟨settle, middle, outlined, rfl, pending⟩ := Node.outline_eq_ok succeeds
  obtain ⟨parts, _, told, outlined⟩ := bind_eq_ok.mp outlined
  obtain ⟨rfl, rfl⟩ := pure_eq_ok.mp outlined
  obtain ⟨told, same⟩ := all_tell each _ _ _ (map_eq_ok.mpr ⟨_, told, rfl⟩)
  simp only [same, List.drop_length, List.take_length] at pending ⊢
  exact ⟨told, pending⟩

theorem Statement.tells {node : Node} : Statement scope.program scope.function node → Tells scope node.outline (node.script scope)
  | .new items dest => single_tells rfl (.new items dest)
  | .call known items dest => single_tells rfl (.call known items dest)
  | .goto items => single_tells rfl (.goto items)
  | .raise alarm items => single_tells rfl (.raise alarm items)
  | .send receiver letter items => single_tells rfl (.send receiver letter items)
  | .announce letter items => single_tells rfl (.announce letter items)
  | .receive _ => receive_tells _
  | .assert test => single_tells rfl (.assert test)
  | .print items => single_tells rfl (.print items)
  | .assign handed dest source => single_tells rfl (.assign handed dest source)
  | .exchange dest source => single_tells rfl (.exchange dest source)
  | .remove container indexes position => single_tells rfl (.remove container indexes position)
  | .insert container indexes value => single_tells rfl (.insert container indexes value)
  | .pop => single_tells rfl .pop
  | .ret result => single_tells rfl (.ret result)
  | .loop test inner => loop_tells test inner.tells
  | .branch test whenTrue whenFalse => branch_tells test whenTrue.tells fun node member => (whenFalse node member).tells
  | .seq before after => seq_tells before.tells after.tells
  | .block each => block_tells fun node member => (each node member).tells

end Grammar

/-- Two conversations about the same, one along an outline and one along a script. -/
structure Retells {σ : Type} (talk : Conversation σ Course) (staged : Conversation σ Staging) : Prop where
  state : staged.state = talk.state
  asked : staged.asked = talk.asked
  ending : staged.ending = talk.ending
  act : staged.here.act = talk.here.act.unasked
  amid : talk.ending = none → Amid talk.here.act.recorded talk.here.ahead staged.here.ahead

/-- What can be told of a call without the choices that it has recorded. -/
def Scene.unasked {σ : Type} (scene : Scene σ) : Scene σ := { scene with choices := [] }

namespace Env

variable {σ : Type} {env : Env σ} {answers : Nat → Running σ → Running σ}

theorem retells_next {talk : Conversation σ Course} {staged : Conversation σ Staging} (retells : Retells talk staged) :
    Retells (talk.next env.follow Course.act answers) (staged.next env.stage Staging.act answers) := by
  obtain ⟨⟨ahead, act⟩, state, asked, ending⟩ := talk
  obtain ⟨⟨ahead', act'⟩, state', asked', ending'⟩ := staged
  obtain ⟨sameState, sameAsked, sameEnding, sameAct, amid⟩ := retells
  dsimp only at sameState sameAsked sameEnding sameAct amid
  subst sameState sameAsked sameEnding sameAct
  cases ending' with
  | some result => exact ⟨rfl, rfl, rfl, rfl, amid⟩
  | none =>
      have agrees : env.Matches state' act ahead ahead' := matches_amid (amid rfl)
      simp only [Conversation.next]
      unfold Matches at agrees
      generalize env.follow ⟨ahead, act⟩ state' = turn, env.stage ⟨ahead', act.unasked⟩ state' = turn' at agrees
      cases agrees with
      | on holds => exact ⟨rfl, rfl, rfl, holds.2, fun _ => holds.1⟩
      | ask holds => exact ⟨rfl, by simp only [holds.2, Activation.unasked], rfl, holds.2, fun _ => holds.1⟩
      | ended => exact ⟨rfl, rfl, rfl, rfl, by simp⟩
      | error => exact ⟨rfl, rfl, rfl, rfl, by simp⟩

/-- A call along a script keeps step with the call along the outline that it tells. -/
theorem retells_after {outline : List Outline} {script : List Script} (told : Told outline script) (locals : List Value)
    (state : Running σ) (count : Nat) :
    Retells (env.courseAfter answers outline locals state count) (env.stagedAfter answers script locals state count) := by
  induction count with
  | zero => exact ⟨rfl, rfl, rfl, rfl, fun _ => told.amid⟩
  | succ count ih =>
      simp only [courseAfter, stagedAfter, Function.iterate_succ_apply']
      exact retells_next ih

end Env

theorem Retells.scene {σ : Type} {talk : Conversation σ Course} {staged : Conversation σ Staging} (retells : Retells talk staged) :
    staged.scene Staging.act = (talk.scene Course.act).unasked := by
  simp only [Conversation.scene, Scene.unasked, retells.state, retells.asked, retells.ending, retells.act, Activation.unasked]

/-- The flat code of a routine does what a script says, whatever the surroundings, the callees and the answers are. After any
number of steps the call has the same locals, has changed all that lies outside it in the same way, has asked the same
questions and has ended in the same way as the call along the script at some time. -/
def Routine.Enacts (routine : Routine) (script : List Script) : Prop :=
  ∀ {σ : Type} (env : Env σ), env.routine = routine →
    ∀ (answers : Nat → Running σ → Running σ) (locals : List Value) (state : Running σ),
      ∃ clock, IsClock clock ∧ ∀ count,
        ((env.flatAfter answers locals state count).scene id).unasked =
          (env.stagedAfter answers script locals state (clock count)).scene Staging.act

namespace Program

/-- The code of every lowered function asks for the choices of each statement, each time before the statement is carried
out, and carries it out with what was supplied in the place of its choices. -/
theorem lowered_code_asks_first {program : Program} {function : FunctionId} {options : LowerOptions} {routine : Routine}
    (accepted : program.lowerFunction function options = .ok routine) :
    ∃ script, program.script function options = some script ∧ routine.Enacts script := by
  obtain ⟨laid, outline, rank, outlined, follows⟩ := lowerFunction_follows accepted
  obtain ⟨info, shape, code, labelCount, known, _, lowered, _⟩ := lowerFunction_eq_ok accepted
  have statement := Lowering.Scope.body_succeeds_iff.mp ⟨code, labelCount, lowered⟩
  obtain ⟨_, progress, known', outlined⟩ := outline_eq_ok outlined
  cases known.symm.trans known'
  have told : Told outline (info.body.script ⟨program, info, options⟩) := (statement.tells _ _ _ outlined).1
  refine ⟨info.body.script ⟨program, info, options⟩, by rw [script, known]; rfl, fun {σ} env bound answers locals state => ?_⟩
  subst bound
  let flat := Conversation.start (⟨locals, [], 0, none, none⟩ : Activation) state
  let course := Conversation.start (⟨outline, ⟨locals, [], 0, none, none⟩⟩ : Course) state
  -- the outline keeps up with the code, and the script with the outline
  have start : env.Talks rank flat course := ⟨rfl, rfl, rfl, .refl _, fun _ => ⟨.refl _, rfl, rfl, .inl follows⟩⟩
  obtain ⟨clock, isClock, talks⟩ := exists_clock (Env.talks_next laid answers) start
  refine ⟨clock, isClock, fun count => ?_⟩
  obtain ⟨_, talk⟩ := talks count
  have retold : Retells (env.courseAfter answers outline locals state (clock count)) _ :=
    env.retells_after told locals state (clock count)
  exact (congrArg Scene.unasked talk.scene).trans retold.scene.symm

theorem game_asks_first : ∃ routine script, Sample.game.lowerFunction ⟨0⟩ {} = .ok routine ∧
    Sample.game.script ⟨0⟩ {} = some script ∧ routine.Enacts script := by
  have accepted : ∃ routine, Sample.game.lowerFunction ⟨0⟩ {} = .ok routine := ⟨_, rfl⟩
  obtain ⟨routine, accepted⟩ := accepted
  obtain ⟨script, scripted, enacts⟩ := lowered_code_asks_first accepted
  exact ⟨routine, script, accepted, scripted, enacts⟩

end Program

end Reentry
