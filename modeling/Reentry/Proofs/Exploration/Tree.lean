import Mathlib.Data.List.Nodup
import Mathlib.Logic.ExistsUnique
import Reentry.Exploration.Branch
import Reentry.Proofs.Suspension.Fuel

/-!
Advancing a branch, with as many executions and steps as it takes. Where a branch arrives does not depend
on how many are allowed, if they are enough. So a branch halts in at most one way, and what each turn keeps
is kept until it halts.
-/

namespace Reentry

/-- Executing a function takes the same course with more steps. -/
theorem RunConfig.execute_below {σ : Type} {config : RunConfig σ} {steps bound : Nat} (le : steps ≤ bound)
    (function : FunctionId) : Below ((config.allowing steps).execute function) ((config.allowing bound).execute function) := by
  have watched := @watchWithin_below _ config (fun _ _ outside => outside) _ _ le (config.depthLimit + 1) function
  rwa [watchWithin_nothing, watchWithin_nothing] at watched

/-- The branch that halted. -/
def Branch.Halt.branch : Halt → Branch
  | .ended _ branch | .choosing branch => branch

namespace Branch

/-- What becomes of a branch to which an execution has handed something back: it halts or goes on. -/
def respond (branch : Branch) : Continuation → Halt ⊕ Branch
  | .completed value _ =>
      .inl (.ended (.returned (value.map fun value => .mk fun _ => branch.state.heap.tree value)) branch)
  | .suspended .send => .inr branch
  | .suspended .nondet => .inl (.choosing branch)
  | .suspended (.new ..) => .inr branch.create
  | .suspended .receive =>
      match branch.deliver? with
      | some branch => .inr branch
      | none => .inl (.ended .blocked branch)
  | .suspended reason => .inl (.ended (.transition reason) (branch.withActor fun actor => { actor with stack := [] }))

variable (config : RunConfig SelfMail)

/-- Executes the frame on top of the stack once. -/
def turn (branch : Branch) : Option (Halt ⊕ Branch) :=
  match branch.state.actor.stack with
  | [] => some (.inl (.ended .nothingLeft branch))
  | frame :: _ =>
      match config.execute frame.function branch.state with
      | .error .outOfSteps _ => none
      | .error (.failed cause) state => some (.inl (.ended (.failed cause) { branch with state }))
      | .ok continuation state => some (respond { branch with state } continuation)

/-- Advancing is taking turns. -/
theorem advance_succ (rounds : Nat) (branch : Branch) :
    advance config (rounds + 1) branch = (turn config branch).bind (Sum.elim some (advance config rounds)) := by
  unfold advance turn
  cases branch.state.actor.stack with
  | nil => rfl
  | cons frame below =>
      dsimp only
      cases config.execute frame.function branch.state with
      | error stop state => cases stop <;> rfl
      | ok continuation state =>
          cases continuation with
          | completed value locals => rfl
          | suspended reason =>
              cases reason with
              | receive =>
                  simp only [respond]
                  cases deliver? { branch with state } <;> rfl
              | _ => rfl

/-- With enough steps, the next turn comes out like this. -/
def Turns (branch : Branch) (result : Halt ⊕ Branch) : Prop :=
  ∃ steps, turn (config.allowing steps) branch = some result

/-- With enough executions and steps, the branch halts like this. -/
def Arrives (branch : Branch) (halt : Halt) : Prop :=
  ∃ steps rounds, advance (config.allowing steps) rounds branch = some halt

variable {config} {branch : Branch} {halt : Halt} {steps bound rounds limit : Nat}

theorem turn_more {result : Halt ⊕ Branch} (le : steps ≤ bound) (turned : turn (config.allowing steps) branch = some result) :
    turn (config.allowing bound) branch = some result := by
  unfold turn at turned ⊢
  cases above : branch.state.actor.stack with
  | nil =>
      rw [above] at turned
      exact turned
  | cons frame below =>
      rw [above] at turned
      dsimp only at turned ⊢
      rcases @RunConfig.execute_below _ config _ _ le frame.function branch.state with same | ⟨after, stuck⟩
      · rw [← same]
        exact turned
      · rw [stuck] at turned
        cases turned

/-- With more steps and more executions a branch halts in the same way. -/
theorem advance_more (le : steps ≤ bound) (le' : rounds ≤ limit)
    (halts : advance (config.allowing steps) rounds branch = some halt) :
    advance (config.allowing bound) limit branch = some halt := by
  induction rounds generalizing limit branch with
  | zero => exact absurd halts nofun
  | succ rounds ih =>
      obtain ⟨more, rfl⟩ : ∃ more, limit = more + 1 := ⟨limit - 1, by omega⟩
      rw [advance_succ, Option.bind_eq_some_iff] at halts ⊢
      obtain ⟨result, turned, later⟩ := halts
      refine ⟨result, turn_more le turned, ?_⟩
      cases result with
      | inl halt =>
          rw [Sum.elim_inl] at later ⊢
          exact later
      | inr next =>
          rw [Sum.elim_inr] at later ⊢
          exact ih (by omega) later

theorem arrives_unique {other : Halt} (arrives : Arrives config branch halt) (arrives' : Arrives config branch other) :
    halt = other := by
  obtain ⟨steps, rounds, halts⟩ := arrives
  obtain ⟨bound, limit, halts'⟩ := arrives'
  have more := advance_more (Nat.le_max_left steps bound) (Nat.le_max_left rounds limit) halts
  have more' := advance_more (Nat.le_max_right steps bound) (Nat.le_max_right rounds limit) halts'
  exact Option.some.inj (more.symm.trans more')

/-- What holds of a halt right after the last turn, and is kept by the turns before, holds of the halt. -/
theorem arrives_induction {motive : Branch → Halt → Prop}
    (last : ∀ branch halt, Turns config branch (.inl halt) → motive branch halt)
    (earlier : ∀ branch next halt, Turns config branch (.inr next) → motive next halt → motive branch halt)
    (arrives : Arrives config branch halt) : motive branch halt := by
  obtain ⟨steps, rounds, halts⟩ := arrives
  induction rounds generalizing branch with
  | zero => cases halts
  | succ rounds ih =>
      rw [advance_succ, Option.bind_eq_some_iff] at halts
      obtain ⟨result, turned, later⟩ := halts
      cases result with
      | inl halt =>
          rw [Sum.elim_inl] at later
          cases later
          exact last branch halt ⟨steps, turned⟩
      | inr next =>
          rw [Sum.elim_inr] at later
          exact earlier branch next halt ⟨steps, turned⟩ (ih later)

/-- What a turn consists of, besides finding that no frame is left. -/
theorem turns_cases {result : Halt ⊕ Branch} (turns : Turns config branch result) :
    (branch.state.actor.stack = [] ∧ result = .inl (.ended .nothingLeft branch)) ∨
      ∃ frame below steps, branch.state.actor.stack = frame :: below ∧
        ((∃ cause state, (config.allowing steps).execute frame.function branch.state = .error (.failed cause) state ∧
            result = .inl (.ended (.failed cause) { branch with state })) ∨
          ∃ continuation state, (config.allowing steps).execute frame.function branch.state = .ok continuation state ∧
            result = respond { branch with state } continuation) := by
  obtain ⟨steps, turned⟩ := turns
  unfold turn at turned
  cases above : branch.state.actor.stack with
  | nil =>
      rw [above] at turned
      cases turned
      exact .inl ⟨rfl, rfl⟩
  | cons frame below =>
      rw [above] at turned
      dsimp only at turned
      refine .inr ⟨frame, below, steps, rfl, ?_⟩
      cases ran : (config.allowing steps).execute frame.function branch.state with
      | error stop state =>
          rw [ran] at turned
          cases stop with
          | outOfSteps => cases turned
          | failed cause =>
              cases turned
              exact .inl ⟨cause, state, rfl, rfl⟩
      | ok continuation state =>
          rw [ran] at turned
          cases turned
          exact .inr ⟨continuation, state, rfl, rfl⟩

end Branch

namespace Branch

variable {config : RunConfig SelfMail} {branch next : Branch}

/-- The branch after a turn. -/
def after : Halt ⊕ Branch → Branch
  | .inl halt => halt.branch
  | .inr branch => branch

/-- Delivering changes neither the choices nor the frames. -/
theorem deliver?_eq_some (delivered : branch.deliver? = some next) :
    next.choices = branch.choices ∧ next.state.actor.stack = branch.state.actor.stack := by
  unfold deliver? at delivered
  obtain ⟨⟨event, payload⟩, _, taken⟩ := Option.bind_eq_some_iff.mp delivered
  cases taken
  exact ⟨rfl, rfl⟩

theorem respond_choices (branch : Branch) (continuation : Continuation) :
    (after (branch.respond continuation)).choices = branch.choices := by
  cases continuation with
  | completed value locals => rfl
  | suspended reason =>
      cases reason with
      | receive =>
          simp only [respond]
          cases delivered : branch.deliver? with
          | none => rfl
          | some next => exact (deliver?_eq_some delivered).1
      | _ => rfl

/-- Only choosing adds to the choices of a branch. -/
theorem arrives_choices {halt : Halt} (arrives : Arrives config branch halt) : halt.branch.choices = branch.choices := by
  have turned {branch : Branch} {result : Halt ⊕ Branch} (turns : Turns config branch result) :
      (after result).choices = branch.choices := by
    rcases turns_cases turns with ⟨_, rfl⟩ | ⟨_, _, _, _, ⟨_, _, _, rfl⟩ | ⟨continuation, state, _, rfl⟩⟩
    · rfl
    · rfl
    · exact respond_choices { branch with state } continuation
  refine arrives_induction (motive := fun branch halt => halt.branch.choices = branch.choices) ?_ ?_ arrives
  · exact fun branch halt turns => turned turns
  · exact fun branch next halt turns same => same.trans (turned turns)

@[simp] theorem choose_choices (chosen : Bool) : (branch.choose chosen).choices = branch.choices ++ [chosen] := rfl

/-- What is copied for a fork: the actor, then what is queued for it. -/
def copies (branch : Branch) : Alloc (Actor × List (Value × Value)) := do
  let actor ← branch.state.actor.fork
  let inbox ← branch.state.outside.inbox.mapM fun (event, payload) => do
    let event ← event.deepCopy
    pure (event, ← payload.deepCopy)
  pure (actor, inbox)

theorem fork_eq (branch : Branch) : branch.fork = { branch with state :=
    { branch.state with
      heap := (branch.copies.run branch.state.heap).2
      actor := (branch.copies.run branch.state.heap).1.1
      outside := { branch.state.outside with inbox := (branch.copies.run branch.state.heap).1.2 } } } := rfl

@[simp] theorem fork_choices : branch.fork.choices = branch.choices := by rw [fork_eq]

end Branch

end Reentry

/-!
Trees of choices. A tree has a leaf for each way in which a branch ends, and a node where it comes to a
choice. The ways to the leaves of a finite tree are in order and apart from each other, and there is one for
every sequence of choices.
-/

namespace Reentry

/-- What comes of a branch, for each of the choices that are still to be made. -/
inductive ChoiceTree where
  | leaf (outcome : Outcome)
  | node (onFalse onTrue : ChoiceTree)

/-- The sequence of choices starts with these. -/
def Begins (choices : List Bool) (sequence : Nat → Bool) : Prop :=
  ∀ index chosen, choices[index]? = some chosen → chosen = sequence index

theorem begins_nil (sequence : Nat → Bool) : Begins [] sequence := by
  intro index chosen found
  simp at found

theorem begins_cons {chosen : Bool} {choices : List Bool} {sequence : Nat → Bool} :
    Begins (chosen :: choices) sequence ↔ chosen = sequence 0 ∧ Begins choices (sequence ∘ Nat.succ) := by
  constructor
  · intro begins
    exact ⟨begins 0 chosen rfl, fun index other found => begins (index + 1) other found⟩
  · rintro ⟨first, rest⟩ (_ | index) other found
    · obtain rfl : chosen = other := by simpa using found
      exact first
    · exact rest index other (by simpa using found)

namespace ChoiceTree

/-- Outcomes at the leaves, from left to right. -/
def leaves : ChoiceTree → List Outcome
  | leaf outcome => [outcome]
  | node onFalse onTrue => onFalse.leaves ++ onTrue.leaves

/-- Choices on the ways to the leaves, from left to right. -/
def paths : ChoiceTree → List (List Bool)
  | leaf _ => [[]]
  | node onFalse onTrue => onFalse.paths.map (false :: ·) ++ onTrue.paths.map (true :: ·)

/-- How often a choice has to be made in the tree. -/
def nodes : ChoiceTree → Nat
  | leaf _ => 0
  | node onFalse onTrue => 1 + onFalse.nodes + onTrue.nodes

theorem length_leaves (tree : ChoiceTree) : tree.leaves.length = tree.nodes + 1 := by
  induction tree with
  | leaf outcome => rfl
  | node onFalse onTrue left right =>
      simp only [leaves, nodes, List.length_append, left, right]
      omega

/-- Ways further to the left are smaller, with false smaller than true. -/
theorem paths_ordered (tree : ChoiceTree) : tree.paths.Pairwise (· < ·) := by
  induction tree with
  | leaf outcome => exact List.pairwise_singleton _ _
  | node onFalse onTrue left right =>
      have under (chosen : Bool) {paths : List (List Bool)} (ordered : paths.Pairwise (· < ·)) :
          (paths.map (chosen :: ·)).Pairwise (· < ·) :=
        ordered.map _ fun _ _ less => .cons less
      refine List.pairwise_append.mpr ⟨under false left, under true right, ?_⟩
      intro first member second among
      obtain ⟨path, _, rfl⟩ := List.mem_map.mp member
      obtain ⟨other, _, rfl⟩ := List.mem_map.mp among
      exact .rel (by decide)

/-- No way to a leaf goes on to another leaf. -/
theorem paths_apart (tree : ChoiceTree) :
    tree.paths.Pairwise fun path other => ¬path <+: other ∧ ¬other <+: path := by
  induction tree with
  | leaf outcome => exact List.pairwise_singleton _ _
  | node onFalse onTrue left right =>
      have under (chosen : Bool) {paths : List (List Bool)}
          (apart : paths.Pairwise fun path other => ¬path <+: other ∧ ¬other <+: path) :
          (paths.map (chosen :: ·)).Pairwise fun path other => ¬path <+: other ∧ ¬other <+: path :=
        apart.map _ fun _ _ => by simp [List.cons_prefix_cons]
      refine List.pairwise_append.mpr ⟨under false left, under true right, ?_⟩
      intro first member second among
      obtain ⟨path, _, rfl⟩ := List.mem_map.mp member
      obtain ⟨other, _, rfl⟩ := List.mem_map.mp among
      simp [List.cons_prefix_cons]

/-- Whatever is chosen, it is the way to exactly one leaf that is taken. -/
theorem paths_cover (tree : ChoiceTree) (sequence : Nat → Bool) : ∃! path, path ∈ tree.paths ∧ Begins path sequence := by
  induction tree generalizing sequence with
  | leaf outcome =>
      refine ⟨[], ⟨by simp [paths], begins_nil sequence⟩, ?_⟩
      rintro path ⟨member, _⟩
      simpa [paths] using member
  | node onFalse onTrue left right =>
      have split (path : List Bool) : (path ∈ (node onFalse onTrue).paths ∧ Begins path sequence) ↔
          ∃ rest, path = sequence 0 :: rest ∧ Begins rest (sequence ∘ Nat.succ) ∧
            rest ∈ (if sequence 0 then onTrue.paths else onFalse.paths) := by
        simp only [paths, List.mem_append, List.mem_map]
        constructor
        · rintro ⟨⟨rest, member, rfl⟩ | ⟨rest, member, rfl⟩, begins⟩ <;> obtain ⟨first, begins⟩ := begins_cons.mp begins
          · exact ⟨rest, by rw [← first], begins, by simpa [← first] using member⟩
          · exact ⟨rest, by rw [← first], begins, by simpa [← first] using member⟩
        · rintro ⟨rest, rfl, begins, member⟩
          refine ⟨?_, begins_cons.mpr ⟨rfl, begins⟩⟩
          cases chosen : sequence 0 <;> simp only [chosen] at member
          · exact .inl ⟨rest, member, rfl⟩
          · exact .inr ⟨rest, member, rfl⟩
      have inner : ∃! rest, rest ∈ (if sequence 0 then onTrue.paths else onFalse.paths) ∧
          Begins rest (sequence ∘ Nat.succ) := by
        cases sequence 0
        · exact left _
        · exact right _
      obtain ⟨rest, ⟨member, begins⟩, only⟩ := inner
      refine ⟨sequence 0 :: rest, (split _).mpr ⟨rest, rfl, begins, member⟩, fun path found => ?_⟩
      obtain ⟨other, rfl, begins, among⟩ := (split path).mp found
      rw [only other ⟨among, begins⟩]

end ChoiceTree

section

variable (arrives : Branch → Branch.Halt → Prop)

/-- The tree of a branch, for a given way of advancing branches. -/
inductive Unfolds : Branch → ChoiceTree → Prop
  | leaf {branch ending last} (ended : arrives branch (.ended ending last)) : Unfolds branch (.leaf (last.outcome ending))
  | node {branch next onFalse onTrue} (chooses : arrives branch (.choosing next)) (left : Unfolds (next.choose false) onFalse)
      (right : Unfolds (next.fork.choose true) onTrue) : Unfolds branch (.node onFalse onTrue)

/-- The second branch comes from the first one through choices. -/
inductive Leads : Branch → Branch → Prop
  | refl (branch) : Leads branch branch
  | onFalse {branch next last} (chooses : arrives branch (.choosing next)) (later : Leads (next.choose false) last) :
      Leads branch last
  | onTrue {branch next last} (chooses : arrives branch (.choosing next)) (later : Leads (next.fork.choose true) last) :
      Leads branch last

/-- Whatever is chosen, the branch halts before the next choice. -/
def Halting (branch : Branch) : Prop := ∀ other, Leads arrives branch other → ∃ halt, arrives other halt

end

/-- Outcomes in the order of their choices, with one for every sequence of choices. -/
structure Complete (outcomes : List Outcome) : Prop where
  ordered : outcomes.Pairwise fun first second => first.choices < second.choices
  apart : outcomes.Pairwise fun first second => ¬first.choices <+: second.choices ∧ ¬second.choices <+: first.choices
  covers : ∀ sequence, ∃! outcome, outcome ∈ outcomes ∧ Begins outcome.choices sequence

namespace Unfolds

variable {arrives : Branch → Branch.Halt → Prop} {branch : Branch} {tree : ChoiceTree}

/-- The choices of an outcome are those of the branch and those on the way to the leaf. -/
theorem choices (keeps : ∀ branch halt, arrives branch halt → halt.branch.choices = branch.choices)
    (unfolds : Unfolds arrives branch tree) :
    tree.leaves.map Outcome.choices = tree.paths.map (branch.choices ++ ·) := by
  induction unfolds with
  | leaf ended =>
      have same := keeps _ _ ended
      simpa [ChoiceTree.leaves, ChoiceTree.paths, Branch.outcome, Branch.Halt.branch] using same
  | @node branch next onFalse onTrue chooses _ _ left right =>
      have same : next.choices = branch.choices := keeps _ _ chooses
      rw [ChoiceTree.leaves, ChoiceTree.paths, List.map_append, left, right, List.map_append, List.map_map, List.map_map]
      simp only [Branch.choose_choices, Branch.fork_choices, same, List.append_assoc, List.singleton_append]
      rfl

/-- The leaves of a finite tree of choices are complete. -/
theorem complete (keeps : ∀ branch halt, arrives branch halt → halt.branch.choices = branch.choices)
    (unfolds : Unfolds arrives branch tree) (first : branch.choices = []) : Complete tree.leaves := by
  have paths : tree.leaves.map Outcome.choices = tree.paths := by
    simpa [first] using unfolds.choices keeps
  have ordered := tree.paths_ordered
  have apart := tree.paths_apart
  rw [← paths, List.pairwise_map] at ordered apart
  refine ⟨ordered, apart, fun sequence => ?_⟩
  obtain ⟨path, ⟨member, begins⟩, only⟩ := tree.paths_cover sequence
  have distinct : (tree.leaves.map Outcome.choices).Nodup := by
    rw [paths]
    refine tree.paths_apart.imp ?_
    rintro path _ ⟨notPrefix, _⟩ rfl
    exact notPrefix (List.prefix_refl path)
  obtain ⟨outcome, among, same⟩ := List.mem_map.mp (paths ▸ member)
  refine ⟨outcome, ⟨among, same ▸ begins⟩, fun other ⟨present, begins'⟩ => ?_⟩
  refine List.inj_on_of_nodup_map distinct present among ?_
  rw [same]
  exact only _ ⟨paths ▸ List.mem_map_of_mem present, begins'⟩

end Unfolds

end Reentry
