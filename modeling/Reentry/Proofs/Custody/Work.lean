import Reentry.Proofs.Custody.Stake
import Reentry.Proofs.Execution.Monad

/-!
Work of a running actor that looks after the cells in hand. Such work uses up some values and leaves others in hand,
and it may be done whatever else is in hand; if it fails, what it had in hand is let go.
-/

namespace Reentry

/-- A way of looking after cells, and what of the surroundings may be come by again. -/
structure Household (σ : Type) extends Custody where
  kept : σ → List Value
  /-- What is supposed of the surroundings. -/
  supposes : σ → Prop
  /-- What holds of the surroundings besides, as long as this is so. -/
  sound : σ → Prop

/-- The values that an effect hands over to somebody. -/
def Effect.handsOver : Effect → List Value
  | .enqueue _ _ event payload => [event, payload]
  | .announce _ _ _ | .print _ _ => []

namespace Household

variable {σ : Type} {house : Household σ} {state : Running σ} {fewer more : Stake}

/-- The values in hand, those of the actor, and those outside. -/
def within (house : Household σ) (stake : Stake) (state : Running σ) : Stake :=
  ⟨stake.own, stake.lent ++ (state.actor.roots ++ house.kept state.outside)⟩

/-- As long as what is supposed is so, all is well with these values. -/
def Holds (house : Household σ) (stake : Stake) (state : Running σ) : Prop :=
  house.supposes state.outside → house.keeps state.heap (house.within stake state) ∧ house.sound state.outside

/-- Effects add to the surroundings at most what they hand over. -/
def Served (house : Household σ) (handler : Handler σ) : Prop :=
  ∀ heap effect outside after, handler heap effect outside = .ok after →
    (house.supposes after → house.supposes outside) ∧ (house.sound outside → house.sound after) ∧
      Fewer (house.kept after) (effect.handsOver ++ house.kept outside)

/-- While the surroundings stay as they are. -/
theorem Holds.stay {after : Running σ} (holds : house.Holds more state) (same : after.outside = state.outside)
    (next : house.keeps state.heap (house.within more state) → house.keeps after.heap (house.within fewer after)) :
    house.Holds fewer after := by
  intro supposed
  rw [same] at supposed ⊢
  obtain ⟨keeps, sound⟩ := holds supposed
  exact ⟨next keeps, sound⟩

theorem Holds.less (holds : house.Holds more state) (less : fewer.Less more) : house.Holds fewer state := by
  refine holds.stay rfl fun keeps => house.less keeps ⟨less.own, fun address => ?_⟩
  have all := less.all address
  simp only [within, List.count_append] at all ⊢
  omega

/-- What was in hand is let go. -/
theorem Holds.rest {spent rest : Stake} (holds : house.Holds (spent ++ rest) state) : house.Holds rest state :=
  holds.less (by simpa using (Stake.Less.none spent).append (.refl rest))

/-- A value that has a name is named once more, if that is allowed. -/
theorem Holds.named {stake : Stake} {value : Value} (holds : house.Holds stake state)
    (among : value ∈ stake.lent ∨ value ∈ state.actor.roots) :
    house.Holds (.of house.shares false [value] ++ stake) state := by
  cases shared : house.shares with
  | false => exact holds
  | true =>
      refine holds.stay rfl fun keeps => house.share shared keeps ?_
      rcases among with lent | root
      · exact List.mem_append_left _ lent
      · exact List.mem_append_right _ (List.mem_append_left _ root)

end Household

namespace Exec

variable {σ α β : Type}

/-- The work may be done whatever else is in hand; it uses up some values and leaves others in hand. The first values
are in hand all the time and may be named by others. -/
def Plants (house : Household σ) (base : List Value) (spent : Stake) (work : Exec σ α) (gained : α → Stake) : Prop :=
  ∀ state rest, house.Holds (spent ++ (⟨[], base⟩ ++ rest)) state →
    Ends work state (fun result after => house.Holds (gained result ++ (⟨[], base⟩ ++ rest)) after) fun _ after => house.Holds rest after

namespace Plants

variable {house : Household σ} {base : List Value} {spent more kept : Stake} {work : Exec σ α} {gained fewer : α → Stake}
  {later : β → Stake}

theorem pure {result : α} (less : (gained result).Less spent) : Plants house base spent (Pure.pure result) gained :=
  fun _ _ holds => .pure (holds.less (less.append (.refl _)))

theorem fail {cause : RuntimeFailure} : Plants house base spent (Exec.fail cause) gained := fun _ _ holds => .fail holds.rest.rest

theorem throw {stop : Stop} : Plants house base spent (throw stop) gained := fun _ _ holds => holds.rest.rest

theorem weaken (plants : Plants house base spent work gained) (less : spent.Less more) (less' : ∀ result, (fewer result).Less (gained result)) :
    Plants house base more work fewer :=
  fun state rest holds => (plants state rest (holds.less (less.append (.refl _)))).weaken
    (fun result _ holds => holds.less ((less' result).append (.refl _))) fun _ _ holds => holds

/-- Nothing else is in hand. -/
theorem next {rest : α → Exec σ β} (first : Plants house base spent work gained)
    (next : ∀ result, Plants house base (gained result) (rest result) later) : Plants house base spent (work >>= rest) later :=
  fun state others holds => (first state others holds).bind fun result after holds => next result after others holds

/-- Something else may be in hand. -/
theorem frame (plants : Plants house base spent work gained) (kept : Stake) :
    Plants house base (spent ++ kept) work fun result => gained result ++ kept := by
  have swapped (stake rest : Stake) : (stake ++ (⟨[], base⟩ ++ (kept ++ rest))).Less (stake ++ kept ++ (⟨[], base⟩ ++ rest)) ∧
      (stake ++ kept ++ (⟨[], base⟩ ++ rest)).Less (stake ++ (⟨[], base⟩ ++ (kept ++ rest))) := by
    constructor <;> refine ⟨fun address => ?_, fun address => ?_⟩ <;>
      simp only [Stake.own_append, Stake.lent_append, List.count_append] <;> omega
  exact fun state rest holds => (plants state (kept ++ rest) (holds.less (swapped spent rest).1)).weaken
    (fun result _ holds => holds.less (swapped (gained result) rest).2) fun _ _ holds => holds.rest

/-- What is in hand already is kept meanwhile. -/
theorem bind {rest : α → Exec σ β} (first : Plants house base .none work gained)
    (next : ∀ result, Plants house base (gained result ++ kept) (rest result) later) : Plants house base kept (work >>= rest) later :=
  .next (first.frame kept) next

/-- What the first part leaves in hand is let go. -/
theorem aside {rest : α → Exec σ β} (first : Plants house base .none work gained)
    (next : ∀ result, Plants house base kept (rest result) later) : Plants house base kept (work >>= rest) later :=
  bind first fun result => (next result).weaken (by simpa using (Stake.Less.none (gained result)).append (.refl kept)) fun _ => .refl _

theorem get {rest : Running σ → Exec σ α} (next : ∀ state, Plants house base spent (rest state) gained) :
    Plants house base spent (MonadState.get >>= rest) gained := fun state others holds => next state state others holds

theorem actor {rest : Actor → Exec σ α} (next : ∀ actor, Plants house base spent (rest actor) gained) :
    Plants house base spent (Exec.actor >>= rest) gained := fun state others holds => next state.actor state others holds

theorem ofAlloc {values : List Value} {work : Alloc α} {gained : α → List Value} (plants : Alloc.Plants values work gained) :
    Plants house base ⟨values, []⟩ (Exec.ofAlloc work) fun result => ⟨gained result, []⟩ := by
  exact fun state rest holds => holds.stay rfl fun keeps => plants (house.tends _) state.heap ([] ++ rest.own) keeps

theorem ofValueOp {values : List Value} {work : ValueOp α} {gained : α → List Value}
    (plants : ∀ heap, ValueOp.Plants heap values work gained) :
    Plants house base ⟨values, []⟩ (Exec.ofValueOp work) fun result => ⟨gained result, []⟩ := by
  intro state rest holds
  unfold Ends
  rw [ofValueOp_apply]
  cases ran : work.run state.heap with
  | error error => exact holds.rest.rest
  | ok pair => exact holds.stay rfl fun keeps => plants state.heap (house.tends _) ([] ++ rest.own) pair.1 pair.2 keeps ran

/-- Work that only looks at the heap. -/
theorem quiet {work : ValueOp α} (quiet : ValueOp.Quiet work) : Plants house base spent (Exec.ofValueOp work) fun _ => spent := by
  intro state rest holds
  unfold Ends
  rw [ofValueOp_apply]
  rcases quiet state.heap with ⟨result, done⟩ | ⟨error, done⟩ <;> rw [done]
  · exact holds
  · exact holds.rest.rest

/-- A part of a cell is named once more, if that is allowed. -/
theorem lends {container : Value} {owned : Bool} {work : ValueOp Value} (lends : ∀ heap, ValueOp.Lends heap container work) :
    Plants house base (.of house.shares owned [container]) (Exec.ofValueOp work) fun value => .of house.shares false [value] := by
  refine weaken ?_ (Stake.of_less house.shares owned [container]) fun _ => .refl _
  intro state rest holds
  unfold Ends
  rw [ofValueOp_apply]
  cases ran : work.run state.heap with
  | error error => exact holds.rest.rest
  | ok pair =>
      obtain ⟨value, after⟩ := pair
      obtain ⟨rfl, inside⟩ := lends state.heap value after ran
      by_cases null : value = .null
      · refine holds.less (Stake.Less.append (.trans (Stake.of_scalar _ _ ?_) (.none _)) (.refl _))
        simp [null]
      · obtain ⟨address, rfl, among⟩ := inside null
        cases shared : house.shares with
        | false =>
            rw [shared] at holds
            exact holds
        | true =>
            refine holds.stay rfl fun keeps => ?_
            have named := house.part shared keeps (by simp [shared]) among
            refine house.less named ⟨by simp [Household.within, shared], fun goal => ?_⟩
            simp only [Household.within, shared, Stake.of_shared, Stake.own_append, Stake.lent_append, List.count_append, List.count_cons]
            omega

theorem modifyActor {values : List Value} {change : Actor → Actor} (less : ∀ actor : Actor,
      Fewer (change actor).roots (values ++ actor.roots)) :
    Plants house base ⟨[], values⟩ (Exec.modifyActor change) fun _ => .none := by
  intro state rest holds
  refine holds.stay rfl fun keeps => house.less keeps ⟨.refl _, fun address => ?_⟩
  have := less state.actor address
  simp only [Household.within, Stake.own_append, Stake.lent_append, Stake.own_none, Stake.lent_none, List.count_append,
    List.count_nil] at *
  omega

theorem perform {handler : Handler σ} (served : house.Served handler) (effect : Effect) :
    Plants house base ⟨[], effect.handsOver⟩ (Exec.perform handler effect) fun _ => .none := by
  intro state rest holds
  unfold Ends
  rw [perform_apply]
  cases handled : handler state.heap effect state.outside with
  | error cause => exact holds.rest.rest
  | ok outside =>
      obtain ⟨supposed, sound, less⟩ := served state.heap effect state.outside outside handled
      refine fun supposes => ⟨house.less (holds (supposed supposes)).1 ⟨.refl _, fun address => ?_⟩,
        sound (holds (supposed supposes)).2⟩
      have := less address
      simp only [Household.within, Stake.own_append, Stake.lent_append, Stake.own_none, Stake.lent_none, List.count_append,
        List.count_nil] at *
      omega

end Plants

/-- The same with what was in hand all the time: it may be used up as well. -/
def Spends (house : Household σ) (base : List Value) (spent : Stake) (work : Exec σ α) (gained : α → Stake) : Prop :=
  ∀ state rest, house.Holds (spent ++ (⟨[], base⟩ ++ rest)) state →
    Ends work state (fun result after => house.Holds (gained result ++ rest) after) fun _ after => house.Holds rest after

namespace Spends

variable {house : Household σ} {base : List Value} {spent more kept : Stake} {work : Exec σ α} {gained fewer : α → Stake}
  {later : β → Stake}

theorem pure {result : α} (less : (gained result).Less (spent ++ ⟨[], base⟩)) : Spends house base spent (Pure.pure result) gained := by
  refine fun state rest holds => .pure (holds.less ?_)
  refine (less.append (.refl rest)).trans ⟨fun address => ?_, fun address => ?_⟩ <;>
    simp only [Stake.own_append, Stake.lent_append, List.count_append] <;> omega

theorem fail {cause : RuntimeFailure} : Spends house base spent (Exec.fail cause) gained := fun _ _ holds => .fail holds.rest.rest

theorem weaken (spends : Spends house base spent work gained) (less : spent.Less more) (less' : ∀ result, (fewer result).Less (gained result)) :
    Spends house base more work fewer :=
  fun state rest holds => (spends state rest (holds.less (less.append (.refl _)))).weaken
    (fun result _ holds => holds.less ((less' result).append (.refl _))) fun _ _ holds => holds

/-- What the first part gives may be looked up. -/
theorem ran {rest : α → Exec σ β} (first : Plants house base spent work gained)
    (next : ∀ result before after, work before = .ok result after → Spends house base (gained result) (rest result) later) :
    Spends house base spent (work >>= rest) later := by
  intro state others holds
  have ends := first state others holds
  unfold Ends at ends ⊢
  rw [bind_apply]
  cases done : work state with
  | error stop after =>
      rw [done] at ends
      exact ends
  | ok result after =>
      rw [done] at ends
      exact next result state after done after others ends

theorem next {rest : α → Exec σ β} (first : Plants house base spent work gained)
    (next : ∀ result, Spends house base (gained result) (rest result) later) : Spends house base spent (work >>= rest) later :=
  .ran first fun result _ _ _ => next result

theorem bind {rest : α → Exec σ β} (first : Plants house base .none work gained)
    (next : ∀ result, Spends house base (gained result ++ kept) (rest result) later) : Spends house base kept (work >>= rest) later :=
  .next (first.frame kept) next

theorem aside {rest : α → Exec σ β} (first : Plants house base .none work gained)
    (next : ∀ result, Spends house base kept (rest result) later) : Spends house base kept (work >>= rest) later :=
  bind first fun result => (next result).weaken (by simpa using (Stake.Less.none (gained result)).append (.refl kept)) fun _ => .refl _

/-- What is in hand all the time changes. -/
theorem chain {rest : α → Exec σ β} {base' : α → List Value} {spent' : α → Stake} (first : Spends house base spent work gained)
    (less : ∀ result, (spent' result ++ ⟨[], base' result⟩).Less (gained result))
    (next : ∀ result before after, work before = .ok result after → Spends house (base' result) (spent' result) (rest result) later) :
    Spends house base spent (work >>= rest) later := by
  intro state others holds
  have ends := first state others holds
  unfold Ends at ends ⊢
  rw [bind_apply]
  cases done : work state with
  | error stop after =>
      rw [done] at ends
      exact ends
  | ok result after =>
      rw [done] at ends
      refine next result state after done after others (ends.less ?_)
      refine Stake.Less.trans ⟨fun address => ?_, fun address => ?_⟩ ((less result).append (.refl others)) <;>
        simp only [Stake.own_append, Stake.lent_append, List.count_append] <;> omega

theorem get {rest : Running σ → Exec σ α} (next : ∀ state, Spends house base spent (rest state) gained) :
    Spends house base spent (MonadState.get >>= rest) gained := fun state others holds => next state state others holds

theorem actor {rest : Actor → Exec σ α} (next : ∀ actor, Spends house base spent (rest actor) gained) :
    Spends house base spent (Exec.actor >>= rest) gained := fun state others holds => next state.actor state others holds

/-- What has a name is named once more. -/
theorem named {value : Value} (shared : house.shares = true) (among : value ∈ spent.lent)
    (spends : Spends house base (⟨[], [value]⟩ ++ spent) work gained) : Spends house base spent work gained := by
  intro state rest holds
  have named := holds.named (.inl (List.mem_append_left _ among))
  rw [shared] at named
  exact spends state rest named

end Spends

end Exec

end Reentry
