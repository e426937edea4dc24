import Reentry.Proofs.Exploration.Complete
import Reentry.Proofs.Mail.Letters
import Reentry.Proofs.Ownership.Copies

/-!
No message that an actor sends to itself is lost, delivered twice or overtaken without need, on any branch of an
exploration.
-/

namespace Reentry

namespace Branch

variable {config : RunConfig SelfMail} {first branch next : Branch} {letters more : List Letter}

/-- What a receive takes from the inbox. -/
theorem deliver?_waiting (inbox : branch.inbox = Letter.waiting letters) :
    branch.deliver? = (letters.find? (·.isDue branch.state.actor.accepts)).map fun letter =>
      { branch with state := { branch.state with
        actor := branch.state.actor.deliver letter.event letter.payload
        outside := { branch.state.outside with
          inbox := Letter.waiting (Letter.deliver branch.state.actor.accepts letters) } } } := by
  have unfolded : branch.deliver? = (branch.inbox.find? (branch.state.actor.accepts ·.1)).map fun message =>
      { branch with state := { branch.state with
        actor := branch.state.actor.deliver message.1 message.2
        outside := { branch.state.outside with inbox := branch.inbox.eraseP (branch.state.actor.accepts ·.1) } } } := by
    unfold deliver?
    dsimp only [Branch.inbox]
    cases branch.state.outside.inbox.find? (branch.state.actor.accepts ·.1) <;> rfl
  rw [unfolded, inbox, Letter.find?_waiting, Letter.eraseP_waiting, Option.map_map]
  rfl

/-- A fork copies every message, in order. -/
theorem fork_inbox_length (branch : Branch) : branch.fork.inbox.length = branch.inbox.length :=
  Alloc.mapM_length _ _ _

/-- At every moment the inbox is what waits. -/
theorem Moment.inbox (handles : config.handler = SelfMail.handle) (empty : first.inbox = [])
    (moment : Moment config first branch letters) : branch.inbox = Letter.waiting letters := by
  induction moment with
  | start => exact empty
  | executed _ executes ih => exact executes_inbox executes handles ih
  | created _ executes ih | onFalse _ executes ih | stopped _ executes _ ih =>
      have waits := executes_inbox executes handles ih
      exact waits
  | delivered _ executes delivers ih =>
      rw [deliver?_waiting (executes_inbox executes handles ih), Option.map_eq_some_iff] at delivers
      obtain ⟨letter, _, rfl⟩ := delivers
      rfl
  | @onTrue _ _ next more _ executes ih =>
      have waits := executes_inbox executes handles ih
      have copies : next.fork.inbox.length = (Letter.waiting more).length := by rw [fork_inbox_length, waits]
      exact (Letter.waiting_renew copies).symm

/-- What is written while at most one event is sent. -/
theorem sentBy_of_sends {state : Running SelfMail} {after : Running (Recorded SelfMail)} {count : Nat}
    (sends : state.recording.Sends count after) :
    (count = 0 → Letter.sentBy after.record = []) ∧
      (count = 1 → ∃ effect : Effect, effect.isEnqueue ∧ Letter.sentBy after.record = effect.letter?.toList) := by
  obtain ⟨effects, sent, rfl⟩ := sends
  have same : after.sent = effects := sent
  have written : Letter.sentBy after.record = Letter.sentBy effects := by rw [← same, ← Letter.sentBy_filter, Running.sent]
  refine ⟨fun none => ?_, fun one => ?_⟩
  · rw [written, List.eq_nil_of_length_eq_zero none, Letter.sentBy_nil]
  · obtain ⟨effect, rfl⟩ := List.length_eq_one_iff.mp one
    have mailed : effect ∈ after.sent := by
      rw [same]
      exact List.mem_singleton.mpr rfl
    exact ⟨effect, (List.mem_filter.mp mailed).2, by rw [written, Letter.sentBy_singleton]⟩

theorem Moment.keeps (paired : config.image.Paired) (handles : config.handler = SelfMail.handle) (empty : first.inbox = [])
    (moment : Moment config first branch letters) : branch.Keeps config letters := by
  have inbox := moment.inbox handles empty
  have posts (function : FunctionId) :=
    RunConfig.executeWithin_posts paired (config.depthLimit + 1) function branch.state.recording
  refine ⟨inbox, fun continuation next more executes => ⟨executes_inbox executes handles inbox, ?_⟩,
    fun cause next more executes => ⟨executes_inbox executes handles inbox, ?_⟩, ?_, ?_⟩
  · cases executes with
    | @ok frame below _ state above ran =>
        obtain ⟨silent, once⟩ := sentBy_of_sends ((posts frame.function).ok ran)
        by_cases posted : continuation = .suspended .send
        · subst posted
          obtain ⟨effect, mailed, written⟩ := once rfl
          rw [if_pos rfl, written]
          exact ⟨effect, mailed, rfl⟩
        · rw [if_neg posted, silent (Continuation.sends_eq_zero posted), List.append_nil]
  · cases executes with
    | @failed frame below _ state above ran =>
        obtain ⟨count, sends, le⟩ := (posts frame.function).error ran
        obtain ⟨silent, once⟩ := sentBy_of_sends sends
        rcases Nat.le_one_iff_eq_zero_or_eq_one.mp le with none | one
        · exact .inl (by rw [silent none, List.append_nil])
        · obtain ⟨effect, mailed, written⟩ := once one
          exact .inr ⟨effect, mailed, by rw [written]⟩
  · rw [deliver?_waiting inbox]
    intro next taken
    obtain ⟨letter, found, rfl⟩ := Option.map_eq_some_iff.mp taken
    obtain ⟨earlier, later, same, due, before, delivered⟩ := Letter.deliver_of_find? found
    obtain ⟨waits, accepted⟩ := by simpa [Letter.isDue] using due
    refine ⟨earlier, letter, later, same, waits, accepted, fun other member waits accepts => ?_, rfl, ?_⟩
    · have notDue := before other member
      simp [Letter.isDue, waits, accepts] at notDue
    · dsimp only
      rw [delivered]
      simp [Letter.waiting_cons]
  · rw [deliver?_waiting inbox]
    intro none letter member waits accepts
    have notDue := List.find?_eq_none.mp (Option.map_eq_none_iff.mp none) letter member
    simp [Letter.isDue, waits, accepts] at notDue

/-- Each turn leads from moment to moment. -/
theorem Moment.turn {result : Halt ⊕ Branch} (paired : config.image.Paired) (handles : config.handler = SelfMail.handle)
    (empty : first.inbox = []) (moment : Moment config first branch letters) (turned : branch.turn config = some result) :
    Attended config first result := by
  unfold Branch.turn at turned
  cases above : branch.state.actor.stack with
  | nil =>
      rw [above] at turned
      cases turned
      exact .ends moment (by simp)
  | cons frame below =>
      rw [above] at turned
      dsimp only at turned
      cases ran : config.execute frame.function branch.state with
      | error stop state =>
          rw [ran] at turned
          cases stop with
          | outOfSteps => cases turned
          | failed cause =>
              cases turned
              obtain ⟨after, recorded, rfl⟩ := RunConfig.recorded_of_failed ran
              exact .ends (.executed moment (.failed above recorded)) (by simp)
      | ok continuation state =>
          rw [ran] at turned
          cases turned
          obtain ⟨after, recorded, rfl⟩ := RunConfig.recorded_of_execute ran
          have executes : branch.Executes config letters (.ok continuation) { branch with state := after.unrecorded } _ :=
            .ok above recorded
          have next := moment.executed executes
          cases continuation with
          | completed value locals => exact .ends next (by simp)
          | suspended reason =>
              cases reason with
              | send => exact .goesOn next
              | nondet => exact .chooses (.onFalse moment executes) (.onTrue moment executes)
              | new machine payload => exact .goesOn (.created moment executes)
              | goto | raise | pop => exact .ends (.stopped moment executes rfl) (by simp)
              | receive =>
                  simp only [respond]
                  cases delivers : deliver? { branch with state := after.unrecorded } with
                  | some last => exact .goesOn (.delivered moment executes delivers)
                  | none => exact .ends next fun _ => (next.keeps paired handles empty).blocks delivers

/-- So does advancing. -/
theorem Moment.advance {halt : Halt} {rounds : Nat} (paired : config.image.Paired) (handles : config.handler = SelfMail.handle)
    (empty : first.inbox = []) (moment : Moment config first branch letters) (halts : branch.advance config rounds = some halt) :
    Attended config first (.inl halt) := by
  induction rounds generalizing branch letters with
  | zero => cases halts
  | succ rounds ih =>
      rw [advance_succ, Option.bind_eq_some_iff] at halts
      obtain ⟨result, turned, later⟩ := halts
      have attended := moment.turn paired handles empty turned
      cases result with
      | inl other =>
          rw [Sum.elim_inl] at later
          cases later
          exact attended
      | inr next =>
          rw [Sum.elim_inr] at later
          cases attended with
          | goesOn moment => exact ih moment later

/-- Everything that an actor holds on a branch, what is queued for it included. -/
def held (branch : Branch) : List Value :=
  branch.state.actor.roots ++ branch.inbox.flatMap fun message => [message.1, message.2]

open Alloc in
/-- A fork holds new cells only. -/
theorem fork_fresh (branch : Branch) : Heap.Fresh branch.state.heap branch.fork.state.heap branch.fork.held := by
  have message (held : List Value) (message : Value × Value) : Makes branch.state.heap held (do
      let event ← message.1.deepCopy
      pure (event, ← message.2.deepCopy) : Alloc (Value × Value)) fun copy => [copy.1, copy.2] ++ held :=
    (Makes.deepCopy held message.1).bind fun event => (Makes.deepCopy _ message.2).bind fun payload => .pure (by simp; grind)
  have copies : Makes branch.state.heap [] branch.copies fun copies =>
      copies.1.roots ++ copies.2.flatMap fun message => [message.1, message.2] :=
    (Makes.fork branch.state.actor).bind fun actor => (Makes.mapM message _ _).bind fun inbox => .pure (by simp; grind)
  exact copies.fresh

end Branch

namespace Search

variable {advance : Branch → Option Branch.Halt} {limit : Nat}

/-- Whatever holds of the first branch and of both branches after a choice holds of all that a search advances. -/
theorem historyWithin_induction {motive : Branch → Prop}
    (forks : ∀ branch next, motive branch → advance branch = some (.choosing next) →
      motive (next.choose false) ∧ motive (next.fork.choose true))
    (rounds : Nat) {search : Search} (pending : ∀ branch ∈ search.pending, motive branch) :
    ∀ entry ∈ historyWithin advance limit rounds search, motive entry.1 := by
  induction rounds generalizing search with
  | zero =>
      obtain ⟨_ | ⟨branch, pending⟩, found⟩ := search <;> simp [historyWithin]
  | succ rounds ih =>
      obtain ⟨_ | ⟨branch, rest⟩, found⟩ := search
      · simp [historyWithin]
      · obtain ⟨own, others⟩ := List.forall_mem_cons.mp pending
        rw [historyWithin]
        refine List.forall_mem_cons.mpr ⟨own, ?_⟩
        rcases @step_cases advance limit branch ⟨rest, found⟩ with
          ⟨_, stepped, _⟩ | ⟨ending, last, _, stepped, _⟩ | ⟨_, _, _, stepped, _⟩ | ⟨next, chooses, _, stepped, _⟩ <;>
          simp only [stepped]
        · simp
        · exact ih others
        · simp
        · obtain ⟨left, right⟩ := forks branch next own chooses
          exact ih (List.forall_mem_cons.mpr ⟨left, List.forall_mem_cons.mpr ⟨right, others⟩⟩)

end Search

/-- What an exploration from this branch on does with the messages that its actor sends to itself. -/
structure Branch.ConservesMail (config : RunConfig SelfMail) (first : Branch) (rounds limit : Nat) : Prop where
  moments : ∀ branch letters, Moment config first branch letters → branch.Keeps config letters
  /-- The moments include all branches that are advanced, whatever they are advanced to, and what lies in between. -/
  explored : ∀ entry ∈ Search.history (advance config rounds) limit first, ∃ letters, Moment config first entry.1 letters
  turned : ∀ branch letters, Moment config first branch letters → ∀ result, branch.turn config = some result →
    Attended config first result
  halted : ∀ branch letters, Moment config first branch letters → ∀ halt, branch.advance config rounds = some halt →
    Attended config first (.inl halt)
  /-- Branches that are not advanced stay as they are. -/
  apart : ∀ branch search after, Search.step (advance config rounds) limit branch search = .ok after →
    after.pending = search.pending ∨ ∃ next, branch.advance config rounds = some (.choosing next) ∧
      after.pending = next.choose false :: next.fork.choose true :: search.pending
  /-- The branches after a choice have no cell in common. -/
  forked : ∀ branch : Branch, Heap.Fresh branch.state.heap branch.fork.state.heap branch.fork.held

namespace Program

end Program

namespace Sample

/-- Sends itself two notes, lets the environment choose, and waits for a note and for the end. -/
def jot : FunctionInfo where
  name := "jot"
  params := []
  locals := []
  returnType := none
  slotCount := 0
  owner := none
  types := .empty
  body := node (.block [
    node (.send (node (.lit .this)) (node (.name (.event ⟨0⟩))) (some (node (.exprs .none (node (.lit (.int 7))) none)))),
    node (.send (node (.lit .this)) (node (.name (.event ⟨0⟩))) (some (node (.exprs .none (node (.lit (.int 8))) none)))),
    node (.branch (node (.nondet false)) (node (.receive [⟨.event ⟨0⟩, ⟨1⟩⟩])) none),
    node (.receive [⟨.halt, ⟨1⟩⟩])])

def read : FunctionInfo where
  name := "read"
  params := [⟨"note", 0, .int⟩]
  locals := []
  returnType := none
  slotCount := 1
  owner := none
  types := .empty
  body := node (.block [])

def notes : Program := ⟨"notes.p", [jot, read], [⟨"Clerk", [], []⟩], [⟨"note"⟩]⟩

end Sample

end Reentry
