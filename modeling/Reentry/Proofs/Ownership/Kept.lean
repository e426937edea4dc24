import Reentry.Proofs.Execution.Monad
import Reentry.Proofs.Ownership.Values
import Reentry.World.Basic

/-!
Runs that stay within what their actor owns. Such a run changes no cell of anybody else and sends only
messages that consist of new cells: they are detached from the actor and from one another.
-/

namespace Reentry

/-- New cells that nothing leads out of and that the owner of a region has no part in. -/
structure Heap.Detached (before after : Heap) (own part : Region) : Prop where
  closed : after.Closed part
  fresh : ∀ address, part address → before.size ≤ address.index
  apart : own.Apart part

namespace Heap.Detached

variable {before between after : Heap} {region own more part other : Region}

theorem none (before after : Heap) (own : Region) : Detached before after own fun _ => False :=
  ⟨.empty after, nofun, nofun⟩

/-- Older work may have come first. -/
theorem earlier (detached : Detached between after own part) (size : before.size ≤ between.size) :
    Detached before after own part :=
  ⟨detached.closed, fun address inside => Nat.le_trans size (detached.fresh address inside), detached.apart⟩

/-- Later work of the owner does not touch what has been detached. -/
theorem later (detached : Detached before between own part) (grows : between.Grows own after more) :
    Detached before after more part := by
  have apart : more.Apart part := fun address inside member =>
    (grows.fresh address inside).elim (fun old => detached.apart address old member) fun new =>
      absurd (detached.closed.allocated address member) (Nat.not_lt.mpr new)
  refine ⟨detached.closed.kept grows.size fun address inside => ?_, detached.fresh, apart⟩
  exact grows.elsewhere address (detached.closed.allocated address inside) fun old => detached.apart address old inside

/-- What is detached later has nothing to do with what was there before. -/
theorem apart_older (old : Detached before between own part) (new : Detached between after more other) : part.Apart other :=
  fun address left right => absurd (old.closed.allocated address left) (Nat.not_lt.mpr (new.fresh address right))

theorem union (left : Detached before after own part) (right : Detached before after own other) :
    Detached before after own (part.union other) :=
  ⟨left.closed.union right.closed, fun address inside => inside.elim (left.fresh address) (right.fresh address),
    fun address inside member => member.elim (left.apart address inside) (right.apart address inside)⟩

end Heap.Detached

/-- What a message leads to first. -/
def Message.values (message : Message) : List Value := [message.event, message.payload]

/-- A message that has been sent, and the cells that it consists of. -/
structure Posted where
  mailbox : Nat
  message : Message
  region : Region

namespace Surroundings

/-- The mailboxes after these messages have arrived, in this order. -/
def deliverAll (mailboxes : List (List Message)) (sent : List Posted) : List (List Message) :=
  sent.foldl (fun mailboxes posted => mailboxes.modify posted.mailbox (· ++ [posted.message])) mailboxes

/-- Messages have been added to mailboxes, and the records have grown. -/
structure Extends (before : Surroundings) (sent : List Posted) (after : Surroundings) : Prop where
  mailboxes : after.mailboxes = deliverAll before.mailboxes sent
  printed : before.printed <+: after.printed
  announced : before.announced <+: after.announced

namespace Extends

variable {before between after : Surroundings} {sent more : List Posted}

theorem refl (outside : Surroundings) : outside.Extends [] outside := ⟨rfl, List.prefix_rfl, List.prefix_rfl⟩

theorem trans (first : before.Extends sent between) (second : between.Extends more after) : before.Extends (sent ++ more) after := by
  refine ⟨?_, first.printed.trans second.printed, first.announced.trans second.announced⟩
  rw [second.mailboxes, first.mailboxes]
  exact List.foldl_append.symm

end Extends

end Surroundings

/-- A message is made of its own new cells. -/
structure Posted.Apart (before after : Heap) (own : Region) (posted : Posted) : Prop where
  detached : before.Detached after own posted.region
  owns : posted.region.OwnsAll posted.message.values

/-- What a run of an actor that owns a region does. In the end the actor owns more, and apart from that there
are new cells at hand for a message. -/
structure Kept (before : Running Surroundings) (region : Region) (after : Running Surroundings) (more hand : Region) : Prop where
  heap : before.heap.Grows region after.heap more
  atHand : before.heap.Detached after.heap more hand
  posts : ∃ sent, before.outside.Extends sent after.outside ∧ (∀ posted ∈ sent, posted.Apart before.heap after.heap more) ∧
    (∀ posted ∈ sent, posted.region.Apart hand) ∧ sent.Pairwise fun posted other => posted.region.Apart other.region

namespace Kept

variable {before between after : Running Surroundings} {region more most hand other : Region}

/-- Work on the heap within the region. -/
theorem ofGrows (grows : before.heap.Grows region after.heap more) (outside : after.outside = before.outside) :
    Kept before region after more fun _ => False :=
  ⟨grows, .none _ _ _, [], by rw [outside]; exact .refl _, by simp⟩

theorem refl (closed : before.heap.Closed region) : Kept before region before region fun _ => False := ofGrows (.refl closed) rfl

theorem trans (first : Kept before region between more hand) (second : Kept between more after most other) :
    Kept before region after most (hand.union other) := by
  obtain ⟨grows, held, sent, extends_, apart, free, distinct⟩ := first
  obtain ⟨grows', held', sent', extends', apart', free', distinct'⟩ := second
  refine ⟨grows.trans grows', (held.later grows').union (held'.earlier grows.size), sent ++ sent', extends_.trans extends', ?_, ?_, ?_⟩
  · intro posted member
    rcases List.mem_append.mp member with old | new
    · exact ⟨(apart posted old).detached.later grows', (apart posted old).owns⟩
    · exact ⟨(apart' posted new).detached.earlier grows.size, (apart' posted new).owns⟩
  · intro posted member address inside at_hand
    rcases List.mem_append.mp member with old | new
    · exact at_hand.elim (free posted old address inside) ((apart posted old).detached.apart_older held' address inside)
    · refine at_hand.elim (fun early => ?_) (free' posted new address inside)
      exact held.apart_older (apart' posted new).detached address early inside
  · refine List.pairwise_append.mpr ⟨distinct, distinct', fun posted old later new => ?_⟩
    exact (apart posted old).detached.apart_older (apart' later new).detached

/-- What was at hand may be let go. -/
theorem drop (kept : Kept before region after more hand) : Kept before region after more fun _ => False := by
  obtain ⟨grows, _, sent, extends_, apart, _, distinct⟩ := kept
  exact ⟨grows, .none _ _ _, sent, extends_, apart, fun _ _ _ _ => id, distinct⟩

/-- Without anything at hand, one part of a run follows another. -/
theorem next (first : Kept before region between more fun _ => False) (second : Kept between more after most other) :
    Kept before region after most other := by
  have both := first.trans second
  have same : Region.union (fun _ => False) other = other := by
    funext address
    simp [Region.union]
  rwa [same] at both

/-- A message made of what is at hand is sent. -/
theorem post {mailbox : Nat} {message : Message} {outside : Surroundings} (kept : Kept before region after more hand)
    (owns : hand.OwnsAll message.values) (posted : after.outside.post? mailbox message = some outside) :
    Kept before region { after with outside } more fun _ => False := by
  obtain ⟨grows, held, sent, extends_, apart, free, distinct⟩ := kept
  have arrives : after.outside.Extends [⟨mailbox, message, hand⟩] outside := by
    unfold Surroundings.post? at posted
    split at posted
    · cases posted
      exact ⟨rfl, List.prefix_rfl, List.prefix_rfl⟩
    · cases posted
  refine ⟨grows, .none _ _ _, sent ++ [⟨mailbox, message, hand⟩], extends_.trans arrives, fun posted member => ?_,
    fun _ _ _ _ => id, List.pairwise_append.mpr ⟨distinct, by simp, by simpa using free⟩⟩
  rcases List.mem_append.mp member with old | new
  · exact apart posted old
  · obtain rfl := List.mem_singleton.mp new
    exact ⟨held, owns⟩

/-- What is at hand is packed into a new cell. -/
theorem pack {cell : Cell} (kept : Kept before region after more hand) (owns : hand.OwnsAll cell.contents) :
    Kept before region { after with heap := after.heap.allocate cell } more
      (hand.union (Region.between after.heap.size (after.heap.size + 1))) := by
  obtain ⟨grows, held, sent, extends_, apart, free, distinct⟩ := kept
  have aside := Heap.Grows.allocateAside grows.closed cell
  have packed := Heap.Grows.allocate held.closed owns
  refine ⟨grows.trans aside, ⟨packed.closed, ?_, ?_⟩, sent, extends_, fun posted member => ?_, fun posted member => ?_, distinct⟩
  · exact fun address inside => inside.elim (held.fresh address) fun new => Nat.le_trans grows.size new.1
  · exact fun address inside member => member.elim (held.apart address inside) fun new =>
      absurd (grows.closed.allocated address inside) (Nat.not_lt.mpr new.1)
  · exact ⟨(apart posted member).detached.later aside, (apart posted member).owns⟩
  · exact fun address inside other => other.elim (free posted member address inside) fun new =>
      absurd ((apart posted member).detached.closed.allocated address inside) (Nat.not_lt.mpr new.1)

end Kept

namespace Exec

variable {α β : Type} {region : Region} {state : Running Surroundings} {values : α → List Value} {later : β → List Value}

/-- Work of an actor that owns a region, whose results are owned in the end. -/
def Within (region : Region) (state : Running Surroundings) (work : Exec Surroundings α) (values : α → List Value) : Prop :=
  state.heap.Closed region → region.OwnsAll state.actor.roots → match work state with
    | .ok result after => ∃ more, Kept state region after more (fun _ => False) ∧ more.OwnsAll after.actor.roots ∧
        more.OwnsAll (values result)
    | .error _ after => ∃ more, Kept state region after more (fun _ => False) ∧ more.OwnsAll after.actor.roots

/-- Work of an actor that owns a region, whose results are made of new cells that it does not own. -/
def Gives (region : Region) (state : Running Surroundings) (work : Exec Surroundings α) (values : α → List Value) : Prop :=
  state.heap.Closed region → region.OwnsAll state.actor.roots → match work state with
    | .ok result after => ∃ more hand, Kept state region after more hand ∧ more.OwnsAll after.actor.roots ∧
        hand.OwnsAll (values result)
    | .error _ after => ∃ more, Kept state region after more (fun _ => False) ∧ more.OwnsAll after.actor.roots

namespace Within

theorem ok {work : Exec Surroundings α} {result : α} {after : Running Surroundings} (within : Within region state work values)
    (closed : state.heap.Closed region) (roots : region.OwnsAll state.actor.roots) (succeeds : work state = .ok result after) :
    ∃ more, Kept state region after more (fun _ => False) ∧ more.OwnsAll after.actor.roots ∧ more.OwnsAll (values result) := by
  have did := within closed roots
  rw [succeeds] at did
  exact did

theorem pure {result : α} (owns : region.OwnsAll (values result)) : Within region state (Pure.pure result) values :=
  fun closed roots => ⟨region, .refl closed, roots, owns⟩

theorem get {rest : Running Surroundings → Exec Surroundings α}
    (next : region.OwnsAll state.actor.roots → Within region state (rest state) values) :
    Within region state (MonadState.get >>= rest) values := fun closed roots => next roots closed roots

theorem actor {rest : Actor → Exec Surroundings α}
    (next : region.OwnsAll state.actor.roots → Within region state (rest state.actor) values) :
    Within region state (Exec.actor >>= rest) values := fun closed roots => next roots closed roots

/-- What the first part gave is known in the second part. -/
theorem bindRan {work : Exec Surroundings α} {rest : α → Exec Surroundings β} (first : Within region state work values)
    (next : ∀ result after more, work state = .ok result after → region.Inside more → more.OwnsAll (values result) →
      Within more after (rest result) later) : Within region state (work >>= rest) later := by
  intro closed roots
  have did := first closed roots
  rw [bind_apply]
  cases ran : work state with
  | error stop after =>
      rw [ran] at did
      exact did
  | ok result after =>
      rw [ran] at did
      obtain ⟨more, kept, roots, owns⟩ := did
      have then_ := next result after more ran kept.heap.inside owns kept.heap.closed roots
      dsimp only
      cases ran' : rest result after with
      | error stop final =>
          rw [ran'] at then_
          obtain ⟨most, kept', roots'⟩ := then_
          exact ⟨most, kept.next kept', roots'⟩
      | ok result' final =>
          rw [ran'] at then_
          obtain ⟨most, kept', roots', owns'⟩ := then_
          exact ⟨most, kept.next kept', roots', owns'⟩

theorem bind {work : Exec Surroundings α} {rest : α → Exec Surroundings β} (first : Within region state work values)
    (next : ∀ result after more, region.Inside more → more.OwnsAll (values result) → Within more after (rest result) later) :
    Within region state (work >>= rest) later := first.bindRan fun result after more _ => next result after more

theorem modifyActor {change : Actor → Actor}
    (owns : region.OwnsAll state.actor.roots → region.OwnsAll (change state.actor).roots) :
    Within region state (modifyActor change) fun _ => [] :=
  fun closed roots => ⟨region, .ofGrows (.refl closed) rfl, owns roots, Region.ownsAll_nil⟩

theorem ofValueOp {work : ValueOp α} (stays : ValueOp.Stays region state.heap work values) :
    Within region state (ofValueOp work) values := by
  intro closed roots
  have did := stays closed
  rw [ofValueOp_apply]
  cases ran : work.run state.heap with
  | error error => exact ⟨region, .refl closed, roots⟩
  | ok pair =>
      rw [ran] at did
      obtain ⟨more, grows, owns⟩ := did
      exact ⟨more, .ofGrows grows rfl, roots.mono grows.inside, owns⟩

theorem ofHeapOp {work : HeapOp α} (grows : state.heap.Closed region → region.OwnsAll state.actor.roots →
    ∀ result after, work.run state.heap = .ok (result, after) →
      ∃ more, state.heap.Grows region after more ∧ more.OwnsAll (values result)) :
    Within region state (ofHeapOp work) values := by
  intro closed roots
  rw [ofHeapOp_apply]
  cases ran : work.run state.heap with
  | error cause => exact ⟨region, .refl closed, roots⟩
  | ok pair =>
      obtain ⟨more, grows, owns⟩ := grows closed roots pair.1 pair.2 ran
      exact ⟨more, .ofGrows grows rfl, roots.mono grows.inside, owns⟩

/-- Work on the heap that only looks at it. -/
theorem ofQuiet {work : ValueOp α} (quiet : ValueOp.Quiet work) : Within region state (Exec.ofValueOp work) fun _ => [] :=
  ofValueOp (.of_quiet quiet fun _ => rfl)

theorem counted {work : Exec Surroundings α} {values : α → List Value}
    (within : ∀ state, Within region state work values) : Within region state (counted work) values := by
  intro closed roots
  have did := within { state with depth := state.depth + 1 } closed roots
  unfold Exec.counted
  cases ran : work { state with depth := state.depth + 1 } with
  | ok result after =>
      rw [ran] at did
      obtain ⟨more, kept, owned⟩ := did
      exact ⟨more, ⟨kept.heap, kept.atHand, kept.posts⟩, owned⟩
  | error stop after =>
      rw [ran] at did
      obtain ⟨more, kept, owned⟩ := did
      exact ⟨more, ⟨kept.heap, kept.atHand, kept.posts⟩, owned⟩

/-- A line that is printed. -/
theorem print (sender : MachineId) (message : String) :
    Within region state (perform Surroundings.handle (.print sender message)) fun _ => [] :=
  fun closed roots => ⟨region, ⟨.refl closed, .none _ _ _, [], ⟨rfl, List.prefix_append _ _, List.prefix_rfl⟩, by simp⟩, roots,
    Region.ownsAll_nil⟩

/-- An announcement is a record of what the values look like. -/
theorem announce (sender : MachineId) (event payload : Value) :
    Within region state (perform Surroundings.handle (.announce sender event payload)) fun _ => [] :=
  fun closed roots => ⟨region, ⟨.refl closed, .none _ _ _, [], ⟨rfl, List.prefix_rfl, List.prefix_append _ _⟩, by simp⟩, roots,
    Region.ownsAll_nil⟩

/-- What is given is sent. -/
theorem enqueue {work : Exec Surroundings Value} (gives : Gives region state work fun payload => [payload])
    (target : MachineId) {event : Value} (kind : event.isEvent) :
    Within region state (do
      let payload ← work
      perform Surroundings.handle (.enqueue (← Exec.actor).id target event payload)) fun _ => [] := by
  intro closed roots
  have did := gives closed roots
  rw [bind_apply]
  cases ran : work state with
  | error stop after =>
      rw [ran] at did
      exact did
  | ok payload after =>
      rw [ran] at did
      obtain ⟨more, hand, kept, roots, owns⟩ := did
      have event_owned : hand.Owns event := Region.owns_scalar fun address same => by
        rw [same] at kind
        cases kind
      have message : hand.OwnsAll (Message.values ⟨event, payload⟩) := by
        simpa [Message.values, event_owned] using owns
      have known : Exec.actor after = .ok after.actor after := rfl
      dsimp only
      rw [bind_of_ok known, perform_apply]
      cases arrived : after.outside.post? target.index.toNat ⟨event, payload⟩ with
      | none =>
          simp only [Surroundings.handle, arrived]
          exact ⟨more, kept.drop, roots⟩
      | some outside =>
          simp only [Surroundings.handle, arrived]
          exact ⟨more, kept.post message arrived, roots, Region.ownsAll_nil⟩

end Within

namespace Gives

theorem ok {work : Exec Surroundings α} {result : α} {after : Running Surroundings} (gives : Gives region state work values)
    (closed : state.heap.Closed region) (roots : region.OwnsAll state.actor.roots) (succeeds : work state = .ok result after) :
    ∃ more hand, Kept state region after more hand ∧ more.OwnsAll after.actor.roots ∧ hand.OwnsAll (values result) := by
  have did := gives closed roots
  rw [succeeds] at did
  exact did

theorem scalar {value : Value} (scalar : ∀ address, value ≠ .cell address) :
    Gives region state (Pure.pure value) fun value => [value] :=
  fun closed roots => ⟨region, _, .refl closed, roots, by simpa using Region.owns_scalar scalar⟩

theorem trap (function : String) (reason : Trap) : Gives region state (trap function reason) values :=
  fun closed roots => ⟨region, .refl closed, roots⟩

theorem actor {rest : Actor → Exec Surroundings α} (next : Gives region state (rest state.actor) values) :
    Gives region state (Exec.actor >>= rest) values := next

/-- Work within what the actor owns may come first. -/
theorem after {work : Exec Surroundings α} {rest : α → Exec Surroundings β} (first : Within region state work values)
    (next : ∀ result after more, Gives more after (rest result) later) : Gives region state (work >>= rest) later := by
  intro closed roots
  have did := first closed roots
  rw [bind_apply]
  cases ran : work state with
  | error stop after =>
      rw [ran] at did
      exact did
  | ok result after =>
      rw [ran] at did
      obtain ⟨more, kept, roots, _⟩ := did
      have then_ := next result after more kept.heap.closed roots
      dsimp only
      cases ran' : rest result after with
      | error stop final =>
          rw [ran'] at then_
          obtain ⟨most, kept', roots'⟩ := then_
          exact ⟨most, kept.next kept', roots'⟩
      | ok result' final =>
          rw [ran'] at then_
          obtain ⟨most, hand, kept', roots', owns'⟩ := then_
          exact ⟨most, hand, kept.next kept', roots', owns'⟩

/-- New cells that the actor does not take. -/
theorem ofAlloc {work : Alloc α} (makes : Alloc.Makes state.heap [] work values) : Gives region state (ofAlloc work) values := by
  intro closed roots
  have fresh := makes.fresh
  have apart : region.Apart (Region.between state.heap.size (work.run state.heap).2.size) := fun address inside new =>
    absurd (closed.allocated address inside) (Nat.not_lt.mpr new.1)
  exact ⟨region, _, ⟨fresh.leaves closed, ⟨fresh.closed, fun _ inside => inside.1, apart⟩, [], .refl _, by simp⟩, roots,
    fresh.owns⟩

theorem cons {first : Exec Surroundings Value} {rest : Exec Surroundings (List Value)}
    (gives : Gives region state first fun value => [value])
    (next : ∀ after more, region.Inside more → Gives more after rest id) :
    Gives region state (do pure ((← first) :: (← rest))) id := by
  intro closed roots
  have did := gives closed roots
  rw [bind_apply]
  cases ran : first state with
  | error stop after =>
      rw [ran] at did
      exact did
  | ok value after =>
      rw [ran] at did
      obtain ⟨more, hand, kept, roots, owns⟩ := did
      have then_ := next after more kept.heap.inside kept.heap.closed roots
      dsimp only
      rw [bind_apply]
      cases ran' : rest after with
      | error stop final =>
          rw [ran'] at then_
          obtain ⟨most, kept', roots'⟩ := then_
          exact ⟨most, (kept.trans kept').drop, roots'⟩
      | ok values final =>
          rw [ran'] at then_
          obtain ⟨most, hand', kept', roots', owns'⟩ := then_
          have both := (Region.ownsAll_append.mpr
            ⟨owns.mono (Region.inside_union_left hand hand'), owns'.mono (Region.inside_union_right hand hand')⟩)
          exact ⟨most, _, kept.trans kept', roots', both⟩

theorem new {work : Exec Surroundings (List Value)} (gives : Gives region state work id) :
    Gives region state (do Exec.ofAlloc (Cell.new (.tuple (← work)))) fun value => [value] := by
  intro closed roots
  have did := gives closed roots
  rw [bind_apply]
  cases ran : work state with
  | error stop after =>
      rw [ran] at did
      exact did
  | ok values after =>
      rw [ran] at did
      obtain ⟨more, hand, kept, roots, owns⟩ := did
      have inside : Region.between after.heap.size (after.heap.size + 1) after.heap.next := ⟨Nat.le_refl _, Nat.lt_succ_self _⟩
      exact ⟨more, _, @Kept.pack _ _ _ _ _ (.tuple values) kept owns, roots, by simpa using .inr inside⟩

end Gives

end Exec

end Reentry
