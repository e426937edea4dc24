import Reentry.Proofs.Stewardship.Code

/-!
What instructions and calls get hold of: nothing but what the actor and the call had before, and what comes of it.
-/

namespace Reentry

open Exec

variable {σ : Type}

namespace Actor

variable {region : Region} {actor : Actor}

/-- A pushed frame adds its locals to what the actor holds. -/
theorem ownsAll_push {frame : Frame} :
    region.OwnsAll (actor.push frame).roots ↔ region.OwnsAll frame.locals ∧ region.OwnsAll actor.roots := by
  simp only [roots, push, List.flatMap_cons, Region.ownsAll_append]
  exact and_left_comm

end Actor

namespace Activation

variable {region : Region} {act : Activation}

theorem ownsAll_values : region.OwnsAll act.values ↔ region.OwnsAll act.locals ∧
    (∀ result, act.lastCall = some result → region.OwnsAll result.values) ∧
    ∀ result, act.pending = some result → region.OwnsAll result.values := by
  simp only [values, Region.ownsAll_append, and_assoc]
  cases act.lastCall <;> cases act.pending <;> simp

theorem ownsAll_locals (owns : region.OwnsAll act.values) : region.OwnsAll act.locals := (ownsAll_values.mp owns).1

theorem ownsAll_withLocals {locals : List Value} (owns : region.OwnsAll act.values) (own : region.OwnsAll locals) :
    region.OwnsAll (values { act with locals }) :=
  ownsAll_values.mpr ⟨own, (ownsAll_values.mp owns).2⟩

theorem ownsAll_withPending {result : Continuation} (owns : region.OwnsAll act.values) (own : region.OwnsAll result.values) :
    region.OwnsAll (values { act with pending := some result }) := by
  obtain ⟨locals, last, _⟩ := ownsAll_values.mp owns
  exact ownsAll_values.mpr ⟨locals, last, fun _ same => by cases same; exact own⟩

end Activation

/-- Whether the instruction may overwrite what is at a place or in a container. -/
def Instr.overwrites : Instr → Bool
  | .assign _ _ | .swap _ _ | .update _ _ _ | .exchange _ _ _ | .remove _ _ _ | .insert _ _ _ | .collectReturn _ | .writeBack _ _ | .readCreated _ => true
  | _ => false

namespace Env

section

variable {env : Env σ} {act : Activation} {state : Running σ}

/-- The instruction comes to overwrite an element: in the state `first`, that of the container at `base` under the key that `operand`
gives. -/
inductive Overwrites (env : Env σ) (act : Activation) (state : Running σ) : Instr → Activation → Running σ → Place → Operand → Prop
  | assign {value : Operand} {new : Value} {first : Running σ} {base : Place} {key : Operand} {kind : ContainerKind}
      (evaluated : env.eval act value state = .ok new first) : Overwrites env act state (.assign (.element base key kind) value) act first base key
  | update {value : Operand} {new : Value} {first : Running σ} {base : Place} {key : Operand} {kind : ContainerKind}
      (evaluated : env.eval act value state = .ok new first) : Overwrites env act state (.update base (.element key kind) value) act first base key
  | exchange {source : Place} {new : Value} {first : Running σ} {base : Place} {key : Operand} {kind : ContainerKind}
      (loaded : env.load act source state = .ok new first) : Overwrites env act state (.exchange base (.element key kind) source) act first base key
  /-- What an exchange has replaced goes to its source. -/
  | exchanged {container : Place} {selector : Selector} {new whole old : Value} {second third first : Running σ} {base : Place} {key : Operand}
      {kind : ContainerKind} (loaded : env.load act (.element base key kind) state = .ok new second)
      (loaded' : env.load act container second = .ok whole third) (replaced : env.replacePart act whole selector new third = .ok old first) :
      Overwrites env act state (.exchange container selector (.element base key kind)) act first base key
  | swap {source : Place} {old new : Value} {second first : Running σ} {base : Place} {key : Operand} {kind : ContainerKind}
      (loaded : env.load act (.element base key kind) state = .ok old second) (loaded' : env.load act source second = .ok new first) :
      Overwrites env act state (.swap (.element base key kind) source) act first base key
  | swapped {dest : Place} {old new : Value} {second third first : Running σ} {act' : Activation} {base : Place} {key : Operand}
      {kind : ContainerKind} (loaded : env.load act dest state = .ok old second)
      (loaded' : env.load act (.element base key kind) second = .ok new third) (stored : env.store act dest new third = .ok act' first) :
      Overwrites env act state (.swap dest (.element base key kind)) act' first base key
  | collectReturn {base : Place} {key : Operand} {kind : ContainerKind} :
      Overwrites env act state (.collectReturn (.element base key kind)) act state base key
  | writeBack {slot : Nat} {base : Place} {key : Operand} {kind : ContainerKind} :
      Overwrites env act state (.writeBack (.element base key kind) slot) act state base key
  | readCreated {base : Place} {key : Operand} {kind : ContainerKind} :
      Overwrites env act state (.readCreated (.element base key kind)) act
        { state with actor := { state.actor with resume := { state.actor.resume with created := none } } } base key

/-- The instruction comes to change a container under a key: from the state `first` on, it looks up the place `base` and evaluates the
operand, which give the container and the key in the state `after`. -/
inductive Changes (env : Env σ) (act : Activation) (state : Running σ) : Instr → Operand → Place → Running σ → Value → Value → Running σ → Prop
  | element {instr : Instr} {act' : Activation} {first between after : Running σ} {base : Place} {operand : Operand} {container key : Value}
      (overwrites : env.Overwrites act state instr act' first base operand) (loaded : env.load act' base first = .ok container between)
      (named : env.eval act' operand between = .ok key after) : Changes env act state instr operand base first container key after
  | remove {kind : ContainerKind} {between after : Running σ} {base : Place} {operand : Operand} {container key : Value}
      (named : env.eval act operand state = .ok key between) (loaded : env.load act base between = .ok container after) :
      Changes env act state (.remove base kind operand) operand base state container key after
  | insert {kind : ContainerKind} {between after : Running σ} {base : Place} {operand : Operand} {container pair key : Value}
      (packed : env.eval act operand state = .ok pair between) (loaded : env.load act base between = .ok container after)
      (named : (pair.field 0).run after.heap = .ok (key, after.heap)) :
      Changes env act state (.insert base kind operand) operand base state container key after

end

variable {keeps : Account σ} {env : Env σ} {region : Region} {state : Running σ} {act : Activation}

/-- The property holds of what is done to the fields of tuples. -/
def Fielded (keeps : Account σ) : Prop := ∀ {region : Region} {state : Running σ} (tuple : Value) (index : Nat) (value : Value),
  region.OwnsAll [tuple, value] → keeps Value region state (ofValueOp (Operation.replaceField tuple index value).perform) fun old => [old]

/-- The property holds of what is done to the container at a place under the key that an operand gives. -/
def Keyed (env : Env σ) (keeps : Account σ) (act : Activation) (state : Running σ) (base : Place) (operand : Operand) : Prop :=
  ∀ (op : Operation) {container key : Value} {between after : Running σ} {region : Region}, env.load act base state = .ok container between →
    env.eval act operand between = .ok key after → op.keyed? = some (container, key) → region.OwnsAll op.operands →
      keeps Value region after (ofValueOp op.perform) fun result => [result]

/-- The property holds of what the instruction does to containers under keys. -/
def Alters (env : Env σ) (keeps : Account σ) (act : Activation) (state : Running σ) (instr : Instr) : Prop :=
  ∀ (op : Operation) {operand : Operand} {base : Place} {first : Running σ} {container key : Value} {after : Running σ} {region : Region},
    env.Changes act state instr operand base first container key after → op.keyed? = some (container, key) → region.OwnsAll op.operands →
      keeps Value region after (ofValueOp op.perform) fun result => [result]

theorem Alters.keyed {instr : Instr} {act' : Activation} {first : Running σ} {base : Place} {operand : Operand} (alters : env.Alters keeps act state instr)
    (overwrites : env.Overwrites act state instr act' first base operand) : env.Keyed keeps act' first base operand :=
  fun op => fun loaded named => alters op (.element overwrites loaded named)

section

variable (readers : Readers keeps) (serves : env.Serves keeps) (owns : region.OwnsAll act.values)
include readers serves owns

omit serves in
/-- Storing into a variable changes no cell. -/
theorem store_variable_reads {place : Place} (whole : place.selection? = none) {value : Value} (own : region.OwnsAll [value]) :
    keeps Activation region state (env.store act place value) Activation.values := by
  have value_owned := (Region.ownsAll_cons.mp own).1
  cases place with
  | slot index =>
      unfold store
      dsimp only
      split
      · exact readers.pure (Activation.ownsAll_withLocals owns ((Activation.ownsAll_locals owns).set value_owned))
      · exact readers.trap _ _
  | field index =>
      refine readers.actor fun _ => ?_
      split
      · refine readers.next (readers.modifyActor fun roots => ?_) fun _ _ _ grown _ => readers.pure (owns.mono grown)
        simp only [Actor.roots, Region.ownsAll_append] at roots ⊢
        exact ⟨⟨roots.1.1.set value_owned, roots.1.2⟩, roots.2⟩
      · exact readers.trap _ _
  | trigger =>
      refine readers.next (readers.modifyActor fun roots => ?_) fun _ _ _ grown _ => readers.pure (owns.mono grown)
      simp only [Actor.roots, Region.ownsAll_append, Region.ownsAll_cons] at roots ⊢
      exact ⟨⟨roots.1.1, value_owned, roots.1.2.2⟩, roots.2⟩
  | payload =>
      refine readers.next (readers.modifyActor fun roots => ?_) fun _ _ _ grown _ => readers.pure (owns.mono grown)
      simp only [Actor.roots, Region.ownsAll_append, Region.ownsAll_cons] at roots ⊢
      exact ⟨⟨roots.1.1, roots.1.2.1, value_owned, roots.1.2.2.2⟩, roots.2⟩
  | part _ _ | element _ _ _ => cases whole

theorem store_reads (fielded : Fielded keeps) (place : Place) {value : Value} (own : region.OwnsAll [value])
    (keyed : ∀ base operand kind, place = .element base operand kind → env.Keyed keeps act state base operand) :
    keeps Activation region state (env.store act place value) Activation.values := by
  have locals := Activation.ownsAll_locals owns
  cases place with
  | slot _ | field _ | trigger | payload => exact store_variable_reads readers owns rfl own
  | part base index =>
      exact readers.next (load_reads readers serves locals base) fun tuple _ _ grown whole =>
        readers.next (readers.discard (.replaceField tuple index value) rfl (fielded _ _ _
          (Region.ownsAll_append.mpr ⟨whole, own.mono grown⟩))) fun _ _ _ grown' _ => readers.pure ((owns.mono grown).mono grown')
  | element base key kind =>
      refine readers.bind (load_reads readers serves locals base) fun container _ _ loaded grown whole =>
        readers.bind (expectKind_reads readers _ _) fun _ _ _ expected grown₁ _ => ?_
      obtain rfl := expectKind_eq_ok expected
      refine readers.bind (eval_reads readers serves ((locals.mono grown).mono grown₁) key) fun key _ _ evaluated grown₂ named => ?_
      have operands : Region.OwnsAll _ (Operation.replace container key value).operands := Region.ownsAll_append.mpr
        ⟨(whole.mono grown₁).mono grown₂, Region.ownsAll_append.mpr ⟨named, ((own.mono grown).mono grown₁).mono grown₂⟩⟩
      exact readers.next (readers.discard (.replace container key value) rfl (keyed _ _ _ rfl _ loaded evaluated rfl operands))
        fun _ _ _ grown₃ _ => readers.pure ((((owns.mono grown).mono grown₁).mono grown₂).mono grown₃)

theorem replacePart_reads (fielded : Fielded keeps) {container : Value} (whole : region.OwnsAll [container]) (selector : Selector) {value : Value}
    (own : region.OwnsAll [value]) (keyed : ∀ operand kind, selector = .element operand kind → ∀ (op : Operation) {key after region},
      env.eval act operand state = .ok key after → op.keyed? = some (container, key) → region.OwnsAll op.operands →
        keeps Value region after (ofValueOp op.perform) fun result => [result]) :
    keeps Value region state (env.replacePart act container selector value) fun old => [old] := by
  have locals := Activation.ownsAll_locals owns
  cases selector with
  | part index => exact fielded container index value (Region.ownsAll_append.mpr ⟨whole, own⟩)
  | element key kind =>
      refine readers.bind (expectKind_reads readers _ _) fun _ _ _ expected grown _ => ?_
      obtain rfl := expectKind_eq_ok expected
      refine readers.bind (eval_reads readers serves (locals.mono grown) key) fun key _ _ evaluated grown' named => ?_
      exact keyed _ _ rfl (.replace container key value) evaluated rfl (Region.ownsAll_append.mpr
        ⟨(whole.mono grown).mono grown', Region.ownsAll_append.mpr ⟨named, (own.mono grown).mono grown'⟩⟩)

omit serves in
theorem saveFrame_reads (resume : LabelId) (pendingCall : Option FunctionId) :
    keeps Activation region state (env.saveFrame act resume pendingCall) Activation.values :=
  readers.next (readers.modifyActor fun roots => Actor.ownsAll_push.mpr ⟨Activation.ownsAll_locals owns, roots⟩)
    fun _ _ _ grown _ => readers.pure (Activation.ownsAll_withLocals (owns.mono grown) Region.ownsAll_nil)

theorem request_reads (request : YieldRequest) : keeps (Activation × Continuation) region state (env.request act request)
    fun result => result.1.values ++ result.2.values := by
  have saved {region : Region} {state : Running σ} (owns : region.OwnsAll act.values) (resume : LabelId)
      {reason : YieldReason} (own : region.OwnsAll reason.values) :
      keeps (Activation × Continuation) region state (do pure (← env.saveFrame act resume none, Continuation.suspended reason))
        fun result => result.1.values ++ result.2.values :=
    readers.next (saveFrame_reads readers owns resume none) fun _ _ _ grown held =>
      readers.pure (Region.ownsAll_append.mpr ⟨held, own.mono grown⟩)
  have locals := Activation.ownsAll_locals owns
  cases request with
  | goto | raise | pop => exact readers.pure (Region.ownsAll_append.mpr ⟨owns, Region.ownsAll_nil⟩)
  | send resume | receive resume | nondet resume => exact saved owns resume Region.ownsAll_nil
  | new machine payload resume =>
      exact readers.next (eval_reads readers serves locals payload) fun _ _ _ grown own => saved (owns.mono grown) resume own
  | ret =>
      exact readers.pure (Region.ownsAll_append.mpr ⟨Activation.ownsAll_withLocals owns Region.ownsAll_nil, locals⟩)
  | retValue value =>
      refine readers.next (eval_reads readers serves locals value) fun _ _ _ grown own =>
        readers.pure (Region.ownsAll_append.mpr ⟨?_, ?_⟩)
      · exact Activation.ownsAll_withLocals (owns.mono grown) Region.ownsAll_nil
      · exact Region.ownsAll_append.mpr ⟨own, locals.mono grown⟩

omit serves owns in
theorem position_reads (target : Target) : keeps Nat region state (env.position target) fun _ => [] := by
  unfold position
  split
  · exact readers.pure Region.ownsAll_nil
  · exact readers.trap _ _

omit serves owns in
theorem dispatchReceive_reads (arms : List ReceiveArm) : keeps Nat region state (env.dispatchReceive arms) fun _ => [] := by
  refine readers.actor fun roots => ?_
  split
  · exact readers.get fun _ => readers.trap _ _
  · have payload : region.OwnsAll [state.actor.payload] := by simpa using roots _ (by simp [Actor.roots])
    refine readers.next (readers.modifyActor id) fun _ _ _ grown _ => ?_
    split
    · exact readers.trap _ _
    · split
      · exact readers.next (readers.start _ _ _ Region.ownsAll_nil) fun _ _ _ _ _ => position_reads readers _
      · exact readers.next (readers.alloc (.copy state.actor.payload) rfl rfl (payload.mono grown)) fun _ _ _ _ copied =>
          readers.next (readers.start _ _ _ copied) fun _ _ _ _ _ => position_reads readers _
  · exact readers.get fun _ => readers.trap _ _

/-- Sending keeps what the handler keeps. -/
theorem enqueue_reads (target event payload : Operand) (handles : ∀ sender target event payload region state,
      region.OwnsAll [event, payload] → keeps Unit region state (perform env.handler (.enqueue sender target event payload)) fun _ => []) :
    keeps Unit region state (env.enqueue act target event payload) fun _ => [] := by
  have locals := Activation.ownsAll_locals owns
  refine readers.next (eval_reads readers serves locals target) fun _ _ _ grown _ =>
    readers.next (readers.quiet (.asMachine _ _) (.asMachine _ _)) fun machine _ _ grown₁ _ =>
      readers.next (eval_reads readers serves ((locals.mono grown).mono grown₁) event) fun value _ _ grown₂ kind => ?_
  split
  · exact readers.next (eval_reads readers serves (((locals.mono grown).mono grown₁).mono grown₂) payload)
      fun _ _ _ grown₃ own => readers.actor fun _ => handles _ _ _ _ _ _ (Region.ownsAll_append.mpr ⟨kind.mono grown₃, own⟩)
  · exact readers.quiet (.mismatch _ _ _) (.mismatch _ _ _)

end

/-- Instructions that overwrite nothing keep what is kept by operations that overwrite nothing. -/
theorem step_calm_reads (readers : Readers keeps) (serves : env.Serves keeps) (sends : env.Sends keeps) (owns : region.OwnsAll act.values)
    {instr : Instr} (calm : instr.overwrites = false) (among : instr ∈ env.routine.body) : keeps Flow region state (env.step act instr) Flow.values := by
  have locals := Activation.ownsAll_locals owns
  have jumped {region : Region} {state : Running σ} (owns : region.OwnsAll act.values) (target : Target) :
      keeps Flow region state (do pure (Flow.next { act with position := ← env.position target })) Flow.values :=
    readers.next (position_reads readers target) fun _ _ _ grown _ => readers.pure (owns.mono grown)
  cases instr with
  | label _ | mark _ => exact readers.pure owns
  | jump target => exact jumped owns target
  | jumpUnless cond target =>
      refine readers.next (eval_reads readers serves locals cond) fun _ _ _ grown _ =>
        readers.next (readers.quiet (.asBool _ _) (.asBool _ _)) fun holds _ _ grown' _ => ?_
      cases holds
      · exact jumped ((owns.mono grown).mono grown') target
      · exact readers.pure ((owns.mono grown).mono grown')
  | assert cond message =>
      refine readers.next (eval_reads readers serves locals cond) fun _ _ _ grown _ =>
        readers.next (readers.quiet (.asBool _ _) (.asBool _ _)) fun holds _ _ grown' _ => ?_
      cases holds
      · exact readers.stop nofun
      · exact readers.pure ((owns.mono grown).mono grown')
  | print format args =>
      exact readers.next (evalAll_reads readers serves locals args) fun _ _ _ grown _ => readers.get fun _ =>
        readers.actor fun _ => readers.next (serves.performs _ _ _ rfl Region.ownsAll_nil) fun _ _ _ grown' _ =>
          readers.pure ((owns.mono grown).mono grown')
  | announce event payload =>
      exact readers.next (eval_reads readers serves locals event) fun _ _ _ grown kind =>
        readers.next (eval_reads readers serves (locals.mono grown) payload) fun _ _ _ grown₁ own => readers.actor fun _ =>
          readers.next (serves.performs _ _ _ rfl (Region.ownsAll_append.mpr ⟨kind.mono grown₁, own⟩)) fun _ _ _ grown₂ _ =>
            readers.pure (((owns.mono grown).mono grown₁).mono grown₂)
  | enqueue target event payload =>
      exact readers.next (sends target event payload act _ _ among owns) fun _ _ _ grown _ => readers.pure (owns.mono grown)
  | setGotoTarget state => exact readers.next (readers.modifyActor id) fun _ _ _ grown _ => readers.pure (owns.mono grown)
  | registerReceive event =>
      refine readers.next (readers.modifyActor fun roots => ?_) fun _ _ _ grown _ => readers.pure (owns.mono grown)
      split <;> exact roots
  | dispatchReceive arms =>
      exact readers.next (dispatchReceive_reads readers arms) fun _ _ _ grown _ => readers.pure (owns.mono grown)
  | pushFrame callee args =>
      exact readers.next (evalArguments_reads readers serves locals args) fun _ _ _ grown own =>
        readers.next (readers.start _ callee _ own) fun _ _ _ grown' _ => readers.pure ((owns.mono grown).mono grown')
  | invoke callee =>
      refine readers.next (serves.invokes callee _ _) fun result _ _ grown own => readers.pure ?_
      obtain ⟨locals, _, pending⟩ := Activation.ownsAll_values.mp (owns.mono grown)
      exact Activation.ownsAll_values.mpr ⟨locals, fun _ same => by cases same; exact own, pending⟩
  | propagateSuspension callee resume =>
      rcases last : act.lastCall with _ | result | reason <;> simp only [step, last]
      · exact readers.trap _ _
      · exact readers.pure owns
      · exact readers.next (saveFrame_reads readers owns resume _) fun _ _ _ grown _ =>
          readers.pure (((Activation.ownsAll_values.mp owns).2.1 _ last).mono grown)
  | recordChoice number =>
      refine readers.actor fun _ => ?_
      split
      · exact readers.next (readers.modifyActor id) fun _ _ _ grown _ => readers.pure (owns.mono grown)
      · exact readers.trap _ _
  | «yield» request =>
      refine readers.next (request_reads readers serves owns request) fun result _ _ _ own => readers.pure ?_
      obtain ⟨left, right⟩ := Region.ownsAll_append.mp own
      exact Activation.ownsAll_withPending left right
  | exit =>
      rcases last : act.pending with _ | result <;> simp only [step, last]
      · exact readers.trap _ _
      · exact readers.pure ((Activation.ownsAll_values.mp owns).2.2 result last)
  | assign | swap | update | exchange | remove | insert | collectReturn | writeBack | readCreated => cases calm

/-- Instructions keep what operations keep. -/
theorem step_reads (readers : Readers keeps) (serves : env.Serves keeps) (sends : env.Sends keeps) (owns : region.OwnsAll act.values)
    {instr : Instr} (among : instr ∈ env.routine.body) (fielded : Fielded keeps) (alters : env.Alters keeps act state instr) : keeps Flow region state (env.step act instr) Flow.values := by
  have locals := Activation.ownsAll_locals owns
  have stored {act' : Activation} {region : Region} {first : Running σ} (owns : region.OwnsAll act'.values)
      (place : Place) {value : Value} (own : region.OwnsAll [value])
      (overwrites : ∀ base operand kind, place = .element base operand kind → env.Overwrites act state instr act' first base operand) :
      keeps Flow region first (.next <$> env.store act' place value) Flow.values :=
    readers.map (store_reads readers serves owns fielded place own fun base operand kind same => alters.keyed (overwrites base operand kind same))
      fun _ => rfl
  have called (result : Continuation) (last : act.lastCall = some result) := (Activation.ownsAll_values.mp owns).2.1 result last
  cases instr with
  | assign dest value =>
      exact readers.bind (eval_reads readers serves locals value) fun _ _ _ evaluated grown own =>
        stored (owns.mono grown) dest own fun _ _ _ same => by subst same; exact .assign evaluated
  | swap dest source =>
      refine readers.bind (load_reads readers serves locals dest) fun _ _ _ loaded grown old =>
        readers.bind (load_reads readers serves (locals.mono grown) source) fun _ _ _ loaded' grown₁ new => ?_
      refine readers.bind (store_reads readers serves ((owns.mono grown).mono grown₁) fielded dest new fun _ _ _ same => ?_)
        fun _ _ _ done grown₂ owns => stored owns source ((old.mono grown₁).mono grown₂) fun _ _ _ same => ?_
      · subst same
        exact alters.keyed (.swap loaded loaded')
      · subst same
        exact .swapped loaded loaded' done
  | update container selector value =>
      refine readers.bind (eval_reads readers serves locals value) fun _ _ _ evaluated grown own =>
        readers.bind (load_reads readers serves (locals.mono grown) container) fun _ _ _ loaded grown₁ whole =>
          readers.next (replacePart_reads readers serves ((owns.mono grown).mono grown₁) fielded whole selector (own.mono grown₁)
            fun operand kind same op _ _ _ named => ?_) fun _ _ _ grown₂ _ => readers.pure (((owns.mono grown).mono grown₁).mono grown₂)
      subst same
      exact alters.keyed (.update evaluated) op loaded named
  | exchange container selector source =>
      refine readers.bind (load_reads readers serves locals source) fun _ _ _ taken grown own =>
        readers.bind (load_reads readers serves (locals.mono grown) container) fun _ _ _ loaded grown₁ whole =>
          readers.bind (replacePart_reads readers serves ((owns.mono grown).mono grown₁) fielded whole selector (own.mono grown₁)
            fun operand kind same op _ _ _ named => ?_) fun _ _ _ replaced grown₂ old =>
              stored (((owns.mono grown).mono grown₁).mono grown₂) source old fun _ _ _ same => ?_
      · subst same
        exact alters.keyed (.exchange taken) op loaded named
      · subst same
        exact .exchanged taken loaded replaced
  | remove container kind key =>
      refine readers.bind (eval_reads readers serves locals key) fun key _ _ evaluated grown named =>
        readers.bind (load_reads readers serves (locals.mono grown) container) fun container _ _ loaded grown₁ whole =>
          readers.bind (expectKind_reads readers _ _) fun _ _ _ expected grown₂ _ => ?_
      obtain rfl := expectKind_eq_ok expected
      have operands := Region.ownsAll_append.mpr ⟨whole.mono grown₂, (named.mono grown₁).mono grown₂⟩
      exact readers.next (readers.discard (.remove container key) (by simp [Operation.perform]) (alters _ (.remove evaluated loaded) rfl operands))
        fun _ _ _ last _ => readers.pure ((((owns.mono grown).mono grown₁).mono grown₂).mono last)
  | insert container kind entry =>
      refine readers.bind (eval_reads readers serves locals entry) fun entry _ _ packed grown tuple =>
        readers.bind (load_reads readers serves (locals.mono grown) container) fun container _ _ loaded grown₁ whole =>
          readers.bind (expectKind_reads readers _ _) fun _ _ _ expected grown₂ _ => ?_
      obtain rfl := expectKind_eq_ok expected
      have tuple := (tuple.mono grown₁).mono grown₂
      refine readers.bind (readers.operate (.field entry 0) rfl tuple) fun key _ _ selected grown₃ named =>
        readers.bind (readers.operate (.field entry 1) rfl (tuple.mono grown₃)) fun value _ _ selected' grown₄ own => ?_
      obtain ⟨rfl, first⟩ := quiet_eq_ok (.field entry 0) selected
      obtain ⟨rfl, _⟩ := quiet_eq_ok (.field entry 1) selected'
      have operands := Region.ownsAll_append.mpr
        ⟨((whole.mono grown₂).mono grown₃).mono grown₄, Region.ownsAll_append.mpr ⟨named.mono grown₄, own⟩⟩
      exact readers.next (readers.discard (.insert container key value) (by simp [Operation.perform]) (alters _ (.insert packed loaded first) rfl operands))
        fun _ _ _ grown₅ _ => readers.pure ((((((owns.mono grown).mono grown₁).mono grown₂).mono grown₃).mono grown₄).mono grown₅)
  | collectReturn dest =>
      rcases last : act.lastCall with _ | ⟨value, locals⟩ | reason <;> simp only [step, last]
      · exact readers.trap _ _
      · refine stored owns dest (Region.ownsAll_cons.mpr ⟨?_, Region.ownsAll_nil⟩) fun _ _ _ same => by subst same; exact .collectReturn
        cases value with
        | none => exact Region.owns_null
        | some value => exact called _ last value (by simp [Continuation.values])
      · exact readers.trap _ _
  | writeBack dest slot =>
      rcases last : act.lastCall with _ | ⟨value, locals⟩ | reason <;> simp only [step, last]
      · exact readers.trap _ _
      · split
        next value found =>
            have own : region.Owns value := called _ last _ (by simp [Continuation.values, List.mem_of_getElem? found])
            exact stored owns dest (by simpa using own) fun _ _ _ same => by subst same; exact .writeBack
        next => exact readers.trap _ _
      · exact readers.trap _ _
  | readCreated dest =>
      refine readers.actor fun _ => ?_
      split
      · refine readers.bind (readers.modifyActor id) fun _ _ _ taken grown _ => stored (owns.mono grown) dest (by simp) fun _ _ _ same => ?_
        cases taken
        subst same
        exact .readCreated
      · exact readers.trap _ _
  | _ => exact step_calm_reads readers serves sends owns rfl among

/-- A run keeps what instructions keep. -/
theorem run_reads (readers : Readers keeps) (steps : Nat) (step_keeps : ∀ {act region state instr}, region.OwnsAll act.values →
      instr ∈ env.routine.body → keeps Flow region state (env.step act instr) Flow.values) (owns : region.OwnsAll act.values) :
    keeps Continuation region state (env.run steps act) Continuation.values := by
  induction steps generalizing region state act with
  | zero => exact readers.stop nofun
  | succ steps ih =>
      unfold run
      cases here : env.routine.body[act.position]? with
      | none => exact readers.trap _ _
      | some instr =>
          have owned : region.OwnsAll (Activation.values { act with position := act.position + 1 }) := owns
          refine readers.next (step_keeps owned (List.mem_of_getElem? here)) fun flow _ _ _ own => ?_
          cases flow with
          | next act => exact ih own
          | leave result => exact readers.pure own

theorem fielded (stewards : Stewards keeps) : Fielded keeps :=
  fun tuple index value owns => stewards.operate (.replaceField tuple index value) owns

section

variable (stewards : Stewards keeps) (serves : env.Serves keeps)
include stewards serves

theorem store_keeps (owns : region.OwnsAll act.values) (place : Place) {value : Value} (own : region.OwnsAll [value]) :
    keeps Activation region state (env.store act place value) Activation.values :=
  store_reads stewards.readers serves owns (fielded stewards) place own fun _ _ _ _ op => fun _ _ _ => stewards.operate op

theorem replacePart_keeps (owns : region.OwnsAll act.values) {container : Value} (whole : region.OwnsAll [container]) (selector : Selector)
    {value : Value} (own : region.OwnsAll [value]) :
    keeps Value region state (env.replacePart act container selector value) fun old => [old] :=
  replacePart_reads stewards.readers serves owns (fielded stewards) whole selector own fun _ _ _ op => fun _ _ => stewards.operate op

variable (sends : env.Sends keeps)
include sends

theorem step_keeps (owns : region.OwnsAll act.values) {instr : Instr} (among : instr ∈ env.routine.body) :
    keeps Flow region state (env.step act instr) Flow.values :=
  step_reads stewards.readers serves sends owns among (fielded stewards) fun op => fun _ _ => stewards.operate op

theorem run_keeps (steps : Nat) (owns : region.OwnsAll act.values) :
    keeps Continuation region state (env.run steps act) Continuation.values :=
  run_reads stewards.readers steps (fun owns among => step_keeps stewards serves sends owns among) owns

end

end Env

namespace RunConfig

variable {keeps : Account σ} {config : RunConfig σ} {region : Region} {state : Running σ}

/-- The locals of the frame that is entered were held by the actor. -/
theorem enter_reads (readers : Readers keeps) (function : FunctionId) :
    keeps (Routine × Activation) region state (config.enter function) fun entered => entered.2.values := by
  unfold enter
  cases config.image.routine? function with
  | none => exact readers.actor fun _ => readers.trap _ _
  | some routine =>
      have popped : keeps Frame region state (popFrame routine) Frame.locals := by
        refine readers.actor fun roots => ?_
        split
        · exact readers.trap _ _
        next frame below above =>
            simp only [Actor.roots, above, List.flatMap_cons, Region.ownsAll_append] at roots
            refine readers.next (readers.modifyActor fun _ => ?_) fun _ _ _ grown _ => readers.pure (roots.2.1.mono grown)
            simpa only [Actor.roots, Region.ownsAll_append] using ⟨roots.1, roots.2.2⟩
      refine readers.next popped fun frame _ _ _ locals => readers.actor fun _ => ?_
      split
      · exact readers.trap _ _
      · split
        · exact readers.trap _ _
        · split
          · exact readers.trap _ _
          · split
            · exact readers.trap _ _
            · dsimp only
              split
              · exact readers.trap _ _
              · exact readers.pure (Activation.ownsAll_values.mpr ⟨locals, by simp, by simp⟩)

theorem enter_eq_ok {function : FunctionId} {entered : Routine × Activation} {after : Running σ}
    (enters : config.enter function state = .ok entered after) : config.image.routine? function = some entered.1 := by
  cases found : config.image.routine? function with
  | none =>
      simp only [enter, found] at enters
      obtain ⟨_, _, _, refused⟩ := bind_eq_ok.mp enters
      exact (trap_ne_ok.mp refused).elim
  | some routine =>
      simp only [enter, found] at enters
      obtain ⟨frame, _, _, looked⟩ := bind_eq_ok.mp enters
      obtain ⟨actor, _, _, checked⟩ := bind_eq_ok.mp looked
      clear enters looked
      revert checked
      cases routine.owner.filter fun x => decide (x ≠ actor.machine) <;>
        cases frame.pendingCall.filter fun _ => !calleeBelow frame actor.stack <;>
        cases (if frame.label.isStart then some 0 else routine.landing? frame.label) <;>
        by_cases own : frame.function = function <;>
        by_cases slots : frame.locals.length = routine.shape.slotCount <;>
        simp only [own, slots, ne_eq, not_true_eq_false, not_false_eq_true, if_true, if_false, trap_ne_ok, false_imp_iff]
      rintro entered
      obtain ⟨rfl, _⟩ := pure_eq_ok.mp entered
      rfl

/-- A run keeps what the runs of the routines of its image keep. -/
theorem executeWithin_reads (readers : Readers keeps)
    (runs : ∀ levels function routine act region state, config.image.routine? function = some routine →
      (∀ callee region state, keeps Continuation region state (config.executeWithin levels callee) Continuation.values) → region.OwnsAll act.values →
        keeps Continuation region state (Env.run ⟨config.image, routine, config.handler, config.executeWithin levels⟩ config.steps act)
          Continuation.values)
    (levels : Nat) (function : FunctionId) :
    keeps Continuation region state (config.executeWithin levels function) Continuation.values := by
  induction levels generalizing region state function with
  | zero => exact readers.stop nofun
  | succ levels ih =>
      refine readers.bind (enter_reads readers function) fun entered _ _ enters _ owns => readers.get fun _ => ?_
      split
      · exact readers.stop nofun
      · exact readers.counted fun state => runs levels function entered.1 entered.2 _ state (enter_eq_ok enters) (fun callee _ _ => ih callee) owns

section

variable (stewards : Stewards keeps)
include stewards

theorem enter_keeps (function : FunctionId) :
    keeps (Routine × Activation) region state (config.enter function) fun entered => entered.2.values :=
  enter_reads stewards.readers function

/-- A run keeps what operations keep, if every routine of its image is served so. -/
theorem executeWithin_keeps
    (serves : ∀ function routine invoke, config.image.routine? function = some routine →
      (∀ callee region state, keeps Continuation region state (invoke callee) Continuation.values) →
        Env.Serves ⟨config.image, routine, config.handler, invoke⟩ keeps ∧
          Env.Sends ⟨config.image, routine, config.handler, invoke⟩ keeps)
    (levels : Nat) (function : FunctionId) :
    keeps Continuation region state (config.executeWithin levels function) Continuation.values := by
  refine executeWithin_reads stewards.readers (fun levels function routine act region state found invokes owns => ?_) levels function
  obtain ⟨serves, sends⟩ := serves function routine _ found invokes
  exact Env.run_keeps stewards serves sends config.steps owns

end

end RunConfig

end Reentry
