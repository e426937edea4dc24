import Reentry.Proofs.Exploration.Tree
import Reentry.Proofs.Mail.Single

/-!
The letters that the actor of a branch has sent to itself, each either delivered or waiting. They are kept apart
from the inbox, and each happening in a branch has its own rule for them: sending writes a new letter, a receive
marks the first letter that waits and is accepted, and a fork replaces the letters that wait by their copies. At
every moment the inbox is what waits, in the order of sending.
-/

namespace Reentry

/-- A message that an actor has sent to itself, and whether it has been delivered to it. -/
structure Letter where
  event : Value
  payload : Value
  delivered : Bool

/-- The letter to itself that an actor has sent. -/
def Effect.letter? : Effect → Option Letter
  | .enqueue sender target event payload => if target = sender then some ⟨event, payload, false⟩ else none
  | .announce .. | .print .. => none

namespace Letter

def message (letter : Letter) : Value × Value := (letter.event, letter.payload)

/-- Whether a letter waits for a receive that accepts its event. -/
def isDue (accepts : Value → Bool) (letter : Letter) : Bool := !letter.delivered && accepts letter.event

/-- Messages of the letters that wait, in the order of sending. -/
def waiting (letters : List Letter) : List (Value × Value) := (letters.filter (!·.delivered)).map message

/-- Letters that have been written in the course of these effects. -/
def sentBy (effects : List Effect) : List Letter := effects.filterMap Effect.letter?

/-- Delivers the first letter that is due. -/
def deliver (accepts : Value → Bool) : List Letter → List Letter
  | [] => []
  | letter :: rest =>
      if letter.isDue accepts then { letter with delivered := true } :: rest else letter :: deliver accepts rest

/-- Replaces the messages that wait by others, one by one. -/
def renew : List Letter → List (Value × Value) → List Letter
  | [], _ => []
  | letter :: rest, [] => letter :: rest
  | letter :: rest, message :: more =>
      if letter.delivered then letter :: renew rest (message :: more)
      else ⟨message.1, message.2, false⟩ :: renew rest more

variable {letters : List Letter} {accepts : Value → Bool}

@[simp] theorem waiting_nil : waiting [] = [] := rfl

@[simp] theorem waiting_append (first rest : List Letter) : waiting (first ++ rest) = waiting first ++ waiting rest := by
  simp [waiting]

theorem waiting_cons (letter : Letter) (rest : List Letter) :
    waiting (letter :: rest) = if letter.delivered then waiting rest else letter.message :: waiting rest := by
  unfold waiting
  cases delivered : letter.delivered <;> simp [delivered]

@[simp] theorem sentBy_nil : sentBy [] = [] := rfl

@[simp] theorem sentBy_append (first rest : List Effect) : sentBy (first ++ rest) = sentBy first ++ sentBy rest := by
  simp [sentBy]

theorem sentBy_singleton (effect : Effect) : sentBy [effect] = effect.letter?.toList := by
  unfold sentBy
  cases written : effect.letter? <;> simp [written]

/-- Only what is put into a mailbox is a letter. -/
theorem sentBy_filter (effects : List Effect) : sentBy (effects.filter (·.isEnqueue)) = sentBy effects := by
  have same (effect : Effect) : (if effect.isEnqueue then effect.letter? else none) = effect.letter? := by
    cases effect <;> rfl
  simp only [sentBy, List.filterMap_filter, same]

/-- Among the messages that wait, a receive finds the first letter that is due. -/
theorem find?_waiting (accepts : Value → Bool) (letters : List Letter) :
    (waiting letters).find? (accepts ·.1) = (letters.find? (·.isDue accepts)).map message := by
  have same : (fun letter : Letter => decide ((!letter.delivered) = true ∧ ((fun pair : Value × Value => accepts pair.1) ∘ message) letter = true))
      = fun letter => letter.isDue accepts := by
    funext letter
    simp [isDue, message]
  rw [waiting, List.find?_map, List.find?_filter, same]

theorem eraseP_waiting (accepts : Value → Bool) (letters : List Letter) :
    (waiting letters).eraseP (accepts ·.1) = waiting (deliver accepts letters) := by
  induction letters with
  | nil => rfl
  | cons letter rest ih =>
      unfold deliver
      rw [waiting_cons]
      cases delivered : letter.delivered with
      | true => simp [isDue, delivered, waiting_cons, ih]
      | false =>
          cases accepted : accepts letter.event with
          | true => simp [isDue, delivered, accepted, waiting_cons, message]
          | false => simp [isDue, delivered, accepted, waiting_cons, message, ih]

theorem deliver_append {earlier later : List Letter} {letter : Letter} (due : letter.isDue accepts)
    (before : ∀ other ∈ earlier, other.isDue accepts = false) :
    deliver accepts (earlier ++ letter :: later) = earlier ++ { letter with delivered := true } :: later := by
  induction earlier with
  | nil => simp [deliver, due]
  | cons other rest ih =>
      have first : other.isDue accepts = false := before other (by simp)
      have others := ih fun other member => before other (by simp [member])
      simp [deliver, first, others]

/-- What is delivered is one letter, and before it none was due. -/
theorem deliver_of_find? {letter : Letter} (found : letters.find? (·.isDue accepts) = some letter) :
    ∃ earlier later, letters = earlier ++ letter :: later ∧ letter.isDue accepts ∧
      (∀ other ∈ earlier, other.isDue accepts = false) ∧
      deliver accepts letters = earlier ++ { letter with delivered := true } :: later := by
  obtain ⟨due, earlier, later, rfl, before⟩ := List.find?_eq_some_iff_append.mp found
  have before : ∀ other ∈ earlier, other.isDue accepts = false := by simpa using before
  exact ⟨earlier, later, rfl, due, before, deliver_append due before⟩

theorem waiting_renew {messages : List (Value × Value)} (same : messages.length = (waiting letters).length) :
    waiting (renew letters messages) = messages := by
  induction letters generalizing messages with
  | nil => exact (List.eq_nil_of_length_eq_zero same).symm
  | cons letter rest ih =>
      cases messages with
      | nil => exact List.eq_nil_of_length_eq_zero same.symm
      | cons message more =>
          rw [waiting_cons] at same
          cases delivered : letter.delivered with
          | true =>
              rw [delivered] at same
              simp [renew, delivered, waiting_cons, ih same]
          | false =>
              rw [delivered] at same
              simp [renew, delivered, waiting_cons, Letter.message, ih (by simpa using same)]

end Letter

namespace Branch

abbrev inbox (branch : Branch) : List (Value × Value) := branch.state.outside.inbox

/-- Executes the frame on top of the stack once; what the actor sends to itself meanwhile is added to its letters. -/
inductive Executes (config : RunConfig SelfMail) (branch : Branch) (letters : List Letter) :
    Except RuntimeFailure Continuation → Branch → List Letter → Prop
  | ok {frame below continuation state} (above : branch.state.actor.stack = frame :: below)
      (ran : config.recording.execute frame.function branch.state.recording = .ok continuation state) :
      Executes config branch letters (.ok continuation) { branch with state := state.unrecorded }
        (letters ++ Letter.sentBy state.record)
  | failed {frame below cause state} (above : branch.state.actor.stack = frame :: below)
      (ran : config.recording.execute frame.function branch.state.recording = .error (.failed cause) state) :
      Executes config branch letters (.error cause) { branch with state := state.unrecorded }
        (letters ++ Letter.sentBy state.record)

/-- The moments of the branches of an exploration, each with all the letters of its actor. -/
inductive Moment (config : RunConfig SelfMail) (first : Branch) : Branch → List Letter → Prop
  | start : Moment config first first []
  | executed {branch letters result next more} (moment : Moment config first branch letters)
      (executes : branch.Executes config letters result next more) : Moment config first next more
  | created {branch letters machine payload next more} (moment : Moment config first branch letters)
      (executes : branch.Executes config letters (.ok (.suspended (.new machine payload))) next more) :
      Moment config first next.create more
  | delivered {branch letters next more last} (moment : Moment config first branch letters)
      (executes : branch.Executes config letters (.ok (.suspended .receive)) next more) (delivers : next.deliver? = some last) :
      Moment config first last (Letter.deliver next.state.actor.accepts more)
  | onFalse {branch letters next more} (moment : Moment config first branch letters)
      (executes : branch.Executes config letters (.ok (.suspended .nondet)) next more) :
      Moment config first (next.choose false) more
  | onTrue {branch letters next more} (moment : Moment config first branch letters)
      (executes : branch.Executes config letters (.ok (.suspended .nondet)) next more) :
      Moment config first (next.fork.choose true) (Letter.renew more next.fork.inbox)
  | stopped {branch letters reason next more} (moment : Moment config first branch letters)
      (executes : branch.Executes config letters (.ok (.suspended reason)) next more) (final : reason.isTerminal) :
      Moment config first (next.withActor fun actor => { actor with stack := [] }) more

/-- What is known of the result of a turn. -/
inductive Attended (config : RunConfig SelfMail) (first : Branch) : Halt ⊕ Branch → Prop
  | goesOn {next more} (moment : Moment config first next more) : Attended config first (.inr next)
  | ends {ending last more} (moment : Moment config first last more)
      (blocked : ending = .blocked → ∀ letter ∈ more, letter.delivered = false → ¬last.state.actor.accepts letter.event) :
      Attended config first (.inl (.ended ending last))
  | chooses {next more} (onFalse : Moment config first (next.choose false) more)
      (onTrue : Moment config first (next.fork.choose true) (Letter.renew more next.fork.inbox)) :
      Attended config first (.inl (.choosing next))

variable {config : RunConfig SelfMail} {first branch next : Branch} {letters more : List Letter}
  {result : Except RuntimeFailure Continuation}

/-- What holds of the letters at a moment of a branch, and of what happens to them next. -/
structure Keeps (config : RunConfig SelfMail) (branch : Branch) (letters : List Letter) : Prop where
  /-- What has been sent and not been delivered is in the inbox, in the order of sending. -/
  inbox : branch.inbox = Letter.waiting letters
  /-- An execution sends once if it hands back that it has sent, and if it hands back anything else, not at all. What
  has been sent is in the inbox by then. -/
  sends : ∀ continuation next more, branch.Executes config letters (.ok continuation) next more →
    next.inbox = Letter.waiting more ∧
      if continuation = .suspended .send then ∃ effect : Effect, effect.isEnqueue ∧ more = letters ++ effect.letter?.toList
      else more = letters
  /-- An execution that fails has sent at most once, and what it has sent is in the inbox. -/
  fails : ∀ cause next more, branch.Executes config letters (.error cause) next more →
    next.inbox = Letter.waiting more ∧
      (more = letters ∨ ∃ effect : Effect, effect.isEnqueue ∧ more = letters ++ effect.letter?.toList)
  /-- A receive takes the first letter that waits and whose event is accepted, and leaves the others. -/
  takes : ∀ next, branch.deliver? = some next → ∃ earlier letter later, letters = earlier ++ letter :: later ∧
    letter.delivered = false ∧ branch.state.actor.accepts letter.event ∧
    (∀ other ∈ earlier, other.delivered = false → ¬branch.state.actor.accepts other.event) ∧
    next.state.actor = branch.state.actor.deliver letter.event letter.payload ∧
    next.inbox = Letter.waiting earlier ++ Letter.waiting later
  /-- A receive finds nothing only if none of the letters that wait is accepted. -/
  blocks : branch.deliver? = none → ∀ letter ∈ letters, letter.delivered = false → ¬branch.state.actor.accepts letter.event

/-- While a function is executed the inbox grows by the letters that are written. -/
theorem executes_inbox (executes : branch.Executes config letters result next more) (handles : config.handler = SelfMail.handle)
    (inbox : branch.inbox = Letter.waiting letters) : next.inbox = Letter.waiting more := by
  let grows (before after : Recorded SelfMail) : Prop := ∃ effects, after.2 = before.2 ++ effects ∧
    after.1.inbox = before.1.inbox ++ Letter.waiting (Letter.sentBy effects)
  have tends : Exec.Tends config.recording.handler grows := by
    refine ⟨fun outside => ⟨[], by simp⟩, ?_, ?_⟩
    · rintro first second third ⟨effects, record, inbox⟩ ⟨others, record', inbox'⟩
      exact ⟨effects ++ others, by rw [record', record, List.append_assoc], by rw [inbox', inbox]; simp⟩
    · intro heap effect outside after handled
      obtain ⟨done, record⟩ := Handler.recording_eq_ok.mp handled
      refine ⟨[effect], record, ?_⟩
      rw [handles] at done
      rw [Letter.sentBy_singleton]
      cases effect with
      | enqueue sender target event payload =>
          by_cases own : target = sender <;> simp only [SelfMail.handle, own, if_true, if_false, Except.ok.injEq] at done <;>
            rw [← done] <;> simp [Effect.letter?, own, Letter.waiting, Letter.message]
      | announce _ _ _ | print _ _ =>
          simp only [SelfMail.handle, Except.ok.injEq] at done
          rw [← done]
          simp [Effect.letter?]
  have written {function : FunctionId} := RunConfig.executeWithin_outward tends (config.depthLimit + 1) function
    branch.state.recording
  cases executes with
  | ok above ran =>
      obtain ⟨effects, record, grown⟩ := Exec.Ends.ok written ran
      rw [Letter.waiting_append, ← inbox, Running.record, record]
      exact grown
  | failed above ran =>
      obtain ⟨effects, record, grown⟩ := Exec.Ends.error written ran
      rw [Letter.waiting_append, ← inbox, Running.record, record]
      exact grown

end Branch

end Reentry
