import Reentry.Execution.Monad

/-!
Runs of the parts of which running code is made, applied to a state.
-/

namespace Reentry

/-- The state with a frame saved on top of the actor's stack. -/
def Running.push {σ : Type} (state : Running σ) (frame : Frame) : Running σ :=
  { state with actor := state.actor.push frame }

/-- A call is not started if its function is not known or the number of arguments is wrong, and for no other reason. -/
theorem Actor.startCall_eq_error {image : Image} {function : FunctionId} {args : List Value} {actor : Actor} {heap : Heap} {cause : RuntimeFailure}
    (refused : (startCall image function args actor).run heap = .error cause) :
    cause = .internal actor.name (.unknownFunction function) ∨ ∃ name expected, cause = .internal name (.wrongArgumentCount expected args.length) := by
  unfold startCall at refused
  split at refused
  · cases refused
    exact .inl rfl
  · simp only [FrameShape.createLocals] at refused
    split at refused
    · cases refused
      exact .inr ⟨_, _, rfl⟩
    · cases refused

namespace Exec

section

variable {S α β : Type} {state final : S}

theorem bind_apply (work : EStateM Stop S α) (rest : α → EStateM Stop S β) :
    (work >>= rest) state = match work state with
      | .ok result state => rest result state
      | .error stop state => .error stop state := by
  change EStateM.bind work rest state = _
  unfold EStateM.bind
  cases work state <;> rfl

theorem map_apply (work : EStateM Stop S α) (change : α → β) :
    (change <$> work) state = match work state with
      | .ok result state => .ok (change result) state
      | .error stop state => .error stop state := by
  change EStateM.map change work state = _
  unfold EStateM.map
  cases work state <;> rfl

theorem bind_of_ok {work : EStateM Stop S α} {rest : α → EStateM Stop S β} {result : α} {middle : S}
    (first : work state = .ok result middle) : (work >>= rest) state = rest result middle := by
  rw [bind_apply, first]

theorem bind_of_error {work : EStateM Stop S α} {rest : α → EStateM Stop S β} {stop : Stop} {middle : S}
    (first : work state = .error stop middle) : (work >>= rest) state = .error stop middle := by
  rw [bind_apply, first]

theorem bind_eq_ok {work : EStateM Stop S α} {rest : α → EStateM Stop S β} {result : β} :
    (work >>= rest) state = .ok result final ↔
      ∃ value middle, work state = .ok value middle ∧ rest value middle = .ok result final := by
  rw [bind_apply]
  cases work state with
  | ok value middle => grind
  | error stop middle => simp

theorem map_eq_ok {work : EStateM Stop S α} {change : α → β} {result : β} :
    (change <$> work) state = .ok result final ↔ ∃ value, work state = .ok value final ∧ change value = result := by
  rw [map_apply]
  cases work state with
  | ok value middle => grind
  | error stop middle => simp

theorem map_eq_error {work : EStateM Stop S α} {change : α → β} {stop : Stop} :
    (change <$> work) state = .error stop final ↔ work state = .error stop final := by
  rw [map_apply]
  cases work state with
  | ok value middle => simp
  | error cause middle => simp

theorem pure_eq_ok {value result : α} :
    (pure value : EStateM Stop S α) state = .ok result final ↔ value = result ∧ state = final := by
  change EStateM.Result.ok value state = .ok result final ↔ _
  simp

end

variable {σ α β : Type} {state final : Running σ}

theorem ofHeapOp_apply (work : HeapOp α) :
    ofHeapOp work state = match work.run state.heap with
      | .ok (result, heap) => .ok result { state with heap }
      | .error cause => .error (.failed cause) state := by
  have read : (get : Exec σ (Running σ)) state = .ok state state := rfl
  rw [ofHeapOp, bind_of_ok read]
  cases work.run state.heap <;> rfl

theorem ofValueOp_apply (work : ValueOp α) :
    ofValueOp work state = match work.run state.heap with
      | .ok (result, heap) => .ok result { state with heap }
      | .error error => .error (.failed (.value error)) state := by
  have read : (get : Exec σ (Running σ)) state = .ok state state := rfl
  rw [ofValueOp, bind_of_ok read]
  cases work.run state.heap <;> rfl

theorem ofValueOp_eq_error {work : ValueOp α} {error : ValueError} (failed : ofValueOp work state = .error (.failed (.value error)) final) :
    work.run state.heap = .error error ∧ final = state := by
  rw [ofValueOp_apply] at failed
  cases ran : work.run state.heap with
  | ok pair =>
      rw [ran] at failed
      cases failed
  | error =>
      rw [ran] at failed
      cases failed
      exact ⟨rfl, rfl⟩

theorem perform_apply (handler : Handler σ) (effect : Effect) :
    perform handler effect state = match handler state.heap effect state.outside with
      | .ok outside => .ok () { state with outside }
      | .error cause => .error (.failed cause) state := by
  have read : (get : Exec σ (Running σ)) state = .ok state state := rfl
  rw [perform, bind_of_ok read]
  cases handler state.heap effect state.outside <;> rfl

theorem fail_ne_ok {cause : RuntimeFailure} {result : α} :
    (fail cause : Exec σ α) state = .ok result final ↔ False := by
  change EStateM.Result.error (Stop.failed cause) state = _ ↔ _
  simp

theorem trap_ne_ok {function : String} {reason : Trap} {result : α} :
    (trap function reason : Exec σ α) state = .ok result final ↔ False := fail_ne_ok

end Exec

end Reentry

/-!
How a run ends, whether it succeeds or fails.
-/

namespace Reentry

namespace Exec

variable {σ α β : Type}

/-- A run ends in such a way, whether it succeeds or fails. -/
def Ends (work : Exec σ α) (state : Running σ) (good : α → Running σ → Prop) (bad : Stop → Running σ → Prop) : Prop :=
  match work state with
  | .ok result after => good result after
  | .error stop after => bad stop after

/-- What a run leaves behind, however it ends. -/
def final {S : Type} : EStateM.Result Stop S α → S
  | .ok _ state => state
  | .error _ state => state

namespace Ends

variable {state : Running σ} {good better : α → Running σ → Prop} {bad worse : Stop → Running σ → Prop}

theorem pure {value : α} (holds : good value state) : Ends (Pure.pure value) state good bad := holds

theorem fail {cause : RuntimeFailure} (holds : bad (.failed cause) state) : Ends (fail cause) state good bad := holds

/-- What the first part gave is known in the second part. -/
theorem bindRan {later : β → Running σ → Prop} {work : Exec σ α} {rest : α → Exec σ β} (first : Ends work state good bad)
    (next : ∀ value after, work state = .ok value after → good value after → Ends (rest value) after later bad) :
    Ends (work >>= rest) state later bad := by
  unfold Ends at first ⊢
  rw [bind_apply]
  cases done : work state with
  | ok value after =>
      rw [done] at first
      exact next value after done first
  | error stop after =>
      rw [done] at first
      exact first

theorem bind {later : β → Running σ → Prop} {work : Exec σ α} {rest : α → Exec σ β} (first : Ends work state good bad)
    (next : ∀ value after, good value after → Ends (rest value) after later bad) : Ends (work >>= rest) state later bad :=
  first.bindRan fun value after _ => next value after

theorem after {later : β → Running σ → Prop} {work : Exec σ α} {rest : α → Exec σ β} {value : α} {middle : Running σ}
    (first : work state = .ok value middle) (next : Ends (rest value) middle later bad) : Ends (work >>= rest) state later bad := by
  unfold Ends at next ⊢
  rw [bind_of_ok first]
  exact next

theorem weaken {work : Exec σ α} (ends : Ends work state good bad) (imp : ∀ value after, good value after → better value after)
    (imp' : ∀ stop after, bad stop after → worse stop after) : Ends work state better worse := by
  unfold Ends at ends ⊢
  cases done : work state with
  | ok value after =>
      rw [done] at ends
      exact imp value after ends
  | error stop after =>
      rw [done] at ends
      exact imp' stop after ends

theorem counted {call : Exec σ α} (ends : Ends call { state with depth := state.depth + 1 } good bad)
    (imp : ∀ result after, good result after → better result { after with depth := after.depth - 1 })
    (imp' : ∀ stop after, bad stop after → worse stop { after with depth := after.depth - 1 }) :
    Ends (counted call) state better worse := by
  unfold Ends Exec.counted at *
  cases done : call { state with depth := state.depth + 1 } with
  | ok result after =>
      rw [done] at ends
      exact imp result after ends
  | error stop after =>
      rw [done] at ends
      exact imp' stop after ends

theorem ok {work : Exec σ α} {result : α} {after : Running σ} (ends : Ends work state good bad)
    (succeeds : work state = .ok result after) : good result after := by
  unfold Ends at ends
  rw [succeeds] at ends
  exact ends

theorem error {work : Exec σ α} {stop : Stop} {after : Running σ} (ends : Ends work state good bad)
    (fails : work state = .error stop after) : bad stop after := by
  unfold Ends at ends
  rw [fails] at ends
  exact ends

end Ends

end Exec

end Reentry
