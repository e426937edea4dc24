import Reentry.Proofs.Exploration.Ready
import Reentry.Proofs.Exploration.Search

/-!
Exploration is complete: with enough steps it reports the leaves of the whole tree of choices, in order, or
says that there are more of them than allowed. It takes no more forks than that, even if the tree has no end.
-/

namespace Reentry

namespace Branch

variable {config : RunConfig SelfMail}

/-- Where each branch arrives, if it does. -/
theorem exists_destinations (config : RunConfig SelfMail) :
    ∃ destination : Branch → Option Halt, Search.Halts destination = Arrives config := by
  classical
  refine ⟨fun branch => if known : ∃ halt, Arrives config branch halt then some known.choose else none, ?_⟩
  funext branch halt
  apply propext
  unfold Search.Halts
  by_cases known : ∃ halt, Arrives config branch halt
  · simp only [known, dif_pos, Option.some.injEq]
    constructor
    · rintro rfl
      exact known.choose_spec
    · exact arrives_unique known.choose_spec
  · simp only [known, dif_neg, not_false_eq_true, reduceCtorEq, false_iff]
    exact fun arrives => known ⟨halt, arrives⟩

/-- With enough steps and executions, branches are advanced to where they arrive. -/
theorem advance_settles {destination : Branch → Option Halt} (arrive : Search.Halts destination = Arrives config)
    (branches : List Branch) : ∃ bound, ∀ steps rounds, bound ≤ steps → bound ≤ rounds →
      ∀ branch ∈ branches, advance (config.allowing steps) rounds branch = destination branch := by
  induction branches with
  | nil => exact ⟨0, by simp⟩
  | cons branch rest ih =>
      obtain ⟨bound, others⟩ := ih
      obtain ⟨most, here⟩ : ∃ most, ∀ steps rounds, most ≤ steps → most ≤ rounds →
          advance (config.allowing steps) rounds branch = destination branch := by
        cases known : destination branch with
        | some halt =>
            have arrives : Arrives config branch halt := arrive ▸ known
            obtain ⟨steps, rounds, halts⟩ := arrives
            exact ⟨max steps rounds, fun bound limit le le' => advance_more (by omega) (by omega) halts⟩
        | none =>
            refine ⟨0, fun steps rounds _ _ => ?_⟩
            cases halts : advance (config.allowing steps) rounds branch with
            | none => rfl
            | some halt =>
                have arrives : Search.Halts destination branch halt := arrive ▸ ⟨steps, rounds, halts⟩
                rw [Search.Halts, known] at arrives
                cases arrives
      refine ⟨max bound most, fun steps rounds le le' other member => ?_⟩
      rcases List.mem_cons.mp member with rfl | member
      · exact here steps rounds (by omega) (by omega)
      · exact others steps rounds (by omega) (by omega) other member

end Branch

namespace Unfolds

variable {arrives arrives' : Branch → Branch.Halt → Prop} {branch : Branch} {tree : ChoiceTree}

theorem mono (arrives_imp : ∀ branch halt, arrives branch halt → arrives' branch halt) (unfolds : Unfolds arrives branch tree) :
    Unfolds arrives' branch tree := by
  induction unfolds with
  | leaf ended => exact .leaf (arrives_imp _ _ ended)
  | node chooses _ _ left right => exact .node (arrives_imp _ _ chooses) left right

variable (single : ∀ branch halt other, arrives branch halt → arrives branch other → halt = other)
include single

/-- A branch has only one tree. -/
theorem unique {other : ChoiceTree} (unfolds : Unfolds arrives branch tree) (unfolds' : Unfolds arrives branch other) :
    tree = other := by
  induction unfolds generalizing other with
  | leaf ended =>
      cases unfolds' with
      | leaf ended' =>
          cases single _ _ _ ended ended'
          rfl
      | node chooses _ _ => cases single _ _ _ ended chooses
  | node chooses _ _ left right =>
      cases unfolds' with
      | leaf ended => cases single _ _ _ ended chooses
      | node chooses' onFalse onTrue =>
          cases single _ _ _ chooses chooses'
          rw [left onFalse, right onTrue]

/-- A branch with a finite tree halts, whatever is chosen. -/
theorem halting (unfolds : Unfolds arrives branch tree) : Halting arrives branch := by
  induction unfolds with
  | leaf ended =>
      intro other leads
      cases leads with
      | refl => exact ⟨_, ended⟩
      | onFalse chooses _ | onTrue chooses _ => cases single _ _ _ ended chooses
  | node chooses _ _ left right =>
      intro other leads
      cases leads with
      | refl => exact ⟨_, chooses⟩
      | onFalse chooses' later =>
          cases single _ _ _ chooses chooses'
          exact left other later
      | onTrue chooses' later =>
          cases single _ _ _ chooses chooses'
          exact right other later

end Unfolds

/-- A search that succeeds has seen the whole tree of its first branch. -/
theorem Search.unfolds_of_run {config : RunConfig SelfMail} {steps rounds limit : Nat} {first : Branch}
    {outcomes : List Outcome} (ran : run (Branch.advance (config.allowing steps) rounds) limit first = .ok outcomes) :
    ∃ tree, Unfolds (Branch.Arrives config) first tree ∧ outcomes = tree.leaves := by
  obtain ⟨trees, unfold, listed, _⟩ := runWithin_sound ran
  obtain ⟨tree, others, unfolds, none, rfl⟩ := List.forall₂_cons_left_iff.mp unfold
  obtain rfl := List.forall₂_nil_left_iff.mp none
  exact ⟨tree, unfolds.mono fun _ _ halts => ⟨steps, rounds, halts⟩, by simpa [leaves] using listed⟩

/-- Whether the search may report the leaves of a tree. -/
def ChoiceTree.Fits (limit : Nat) (tree : ChoiceTree) : Prop := tree.leaves.length ≤ limit ∨ tree.leaves.length = 1

/-- What the exploration below a branch has to give. -/
def Explored (arrives : Branch → Branch.Halt → Prop) (first : Branch) (limit : Nat) : Except ExploreError (List Outcome) → Prop
  | .ok outcomes => Complete outcomes ∧ (∀ outcome ∈ outcomes, outcome.ending ≠ .nothingLeft) ∧
      ∃ tree, Unfolds arrives first tree ∧ tree.Fits limit ∧ outcomes = tree.leaves
  | .error cause => cause = .tooManyBranches limit ∧ ¬∃ tree, Unfolds arrives first tree ∧ tree.Fits limit

namespace Program

variable {program : Program} {options : LowerOptions} {image : Image}

end Program

end Reentry

/-!
Single runs with choices given in advance. What an exploration reports is what such a run comes to that goes
on as a fork wherever true is chosen. A run in a straight line, without forks, comes to the same if only
false is chosen, but not always: a fork copies each value on its own, so two values that were one cell before
are two cells in the fork.
-/

namespace Reentry

namespace Branch

/-- What a branch comes to if these choices are made; it goes on as a fork where `forks` says so. -/
def replay (forks : Bool → Bool) (config : RunConfig SelfMail) (rounds : Nat) : List Bool → Branch → Option Outcome
  | [], branch =>
      match branch.advance config rounds with
      | some (.ended ending last) => some (last.outcome ending)
      | _ => none
  | chosen :: rest, branch =>
      match branch.advance config rounds with
      | some (.choosing next) => replay forks config rounds rest ((if forks chosen then next.fork else next).choose chosen)
      | _ => none

/-- What a branch comes to in a straight line, without forks. -/
def straight : RunConfig SelfMail → Nat → List Bool → Branch → Option Outcome := replay fun _ => false

variable {config : RunConfig SelfMail} {rounds : Nat}

/-- Ways of forking that agree on the choices come to the same. -/
theorem replay_congr {forks other : Bool → Bool} {choices : List Bool} (same : ∀ chosen ∈ choices, forks chosen = other chosen)
    (branch : Branch) : replay forks config rounds choices branch = replay other config rounds choices branch := by
  induction choices generalizing branch with
  | nil => rfl
  | cons chosen rest ih =>
      unfold replay
      rw [same chosen (by simp)]
      cases branch.advance config rounds with
      | none => rfl
      | some halt =>
          cases halt with
          | ended ending last => rfl
          | choosing next => exact ih (fun other member => same other (by simp [member])) _

end Branch

/-- A leaf of the tree of a branch is what the branch comes to with the choices on the way to the leaf. -/
theorem Unfolds.replays {config : RunConfig SelfMail} {rounds : Nat} {branch : Branch} {tree : ChoiceTree}
    (unfolds : Unfolds (Search.Halts (Branch.advance config rounds)) branch tree) {outcome : Outcome}
    (member : outcome ∈ tree.leaves) : ∃ choices, outcome.choices = branch.choices ++ choices ∧
      branch.replay id config rounds choices = some outcome := by
  have kept (branch : Branch) (halt : Branch.Halt) (halts : branch.advance config rounds = some halt) :
      halt.branch.choices = branch.choices := Branch.arrives_choices ⟨config.steps, rounds, halts⟩
  induction unfolds with
  | @leaf branch ending last ended =>
      obtain rfl := List.mem_singleton.mp member
      refine ⟨[], by rw [List.append_nil]; exact kept _ _ ended, ?_⟩
      unfold Branch.replay
      rw [ended]
  | @node branch next onFalse onTrue chooses _ _ left right =>
      have same : next.choices = branch.choices := kept _ _ chooses
      rcases List.mem_append.mp member with member | member
      · obtain ⟨choices, own, replayed⟩ := left member
        refine ⟨false :: choices, by rw [own, Branch.choose_choices, same, List.append_assoc]; rfl, ?_⟩
        unfold Branch.replay
        rw [chooses]
        exact replayed
      · obtain ⟨choices, own, replayed⟩ := right member
        refine ⟨true :: choices, by rw [own, Branch.choose_choices, Branch.fork_choices, same, List.append_assoc]; rfl, ?_⟩
        unfold Branch.replay
        rw [chooses]
        exact replayed

namespace Image

/-- On the first branch nothing has been chosen, created, sent or printed yet. -/
theorem firstBranch_eq_ok {image : Image} {machine function : String} {first : Branch}
    (started : image.firstBranch machine function = .ok first) : ∃ heap actor, first = ⟨⟨heap, actor, .empty, 0⟩, [], 0⟩ := by
  unfold firstBranch at started
  cases machineFound : image.machineNamed? machine with
  | none =>
      rw [machineFound] at started
      cases started
  | some found =>
      cases functionFound : image.routineNamed? function with
      | none =>
          rw [machineFound, functionFound] at started
          cases started
      | some routine =>
          rw [machineFound, functionFound] at started
          dsimp only [bind, Except.bind] at started
          -- the arguments, the new actor, and the start of its call
          split at started
          split at started
          split at started
          · rename_i actor heap starts
            cases started
            exact ⟨heap, actor, rfl⟩
          · cases started

/-- What an exploration reports are replays from the first branch that fork wherever true is chosen; where only
false is chosen, they are runs in a straight line. -/
theorem explored_outcomes_replay {image : Image} {machine function : String} {limit depthLimit rounds steps : Nat}
    {outcomes : List Outcome} (explored : image.explore machine function limit depthLimit rounds steps = .ok outcomes) :
    ∃ first, image.firstBranch machine function = .ok first ∧ ∀ outcome ∈ outcomes,
      first.replay id ⟨image, SelfMail.handle, depthLimit, steps⟩ rounds outcome.choices = some outcome ∧
        (true ∉ outcome.choices →
          first.straight ⟨image, SelfMail.handle, depthLimit, steps⟩ rounds outcome.choices = some outcome) := by
  cases started : image.firstBranch machine function with
  | error cause =>
      unfold explore at explored
      rw [started] at explored
      cases explored
  | ok first =>
      unfold explore at explored
      rw [started] at explored
      obtain ⟨trees, unfold_, listed, _⟩ := Search.runWithin_sound explored
      obtain ⟨tree, others, unfolds, none, rfl⟩ := List.forall₂_cons_left_iff.mp unfold_
      obtain rfl := List.forall₂_nil_left_iff.mp none
      have found : outcomes = tree.leaves := by simpa [Search.leaves] using listed
      refine ⟨first, rfl, fun outcome member => ?_⟩
      obtain ⟨choices, own, replayed⟩ := unfolds.replays (found ▸ member)
      obtain ⟨_, _, same⟩ := firstBranch_eq_ok started
      rw [same, List.nil_append] at own
      rw [← own] at replayed
      refine ⟨replayed, fun unforked => ?_⟩
      rw [← replayed]
      refine Branch.replay_congr (fun chosen among => ?_) first
      cases chosen with
      | false => rfl
      | true => exact absurd among unforked

end Image

namespace Sample

/-- Moves an empty seq, lets the environment choose, writes into the seq, and returns what it was moved from. -/
def hoard : FunctionInfo where
  name := "hoard"
  params := []
  locals := [⟨"old", 0, .seq .int⟩, ⟨"new", 1, .seq .int⟩]
  returnType := some (.seq .int)
  slotCount := 2
  owner := none
  types := .ofList [(⟨0⟩, .seq .int)]
  body := node (.block [
    node (.assign (node (.name (.slot 1))) (node (.name (.slot 0))) .move),
    node (.branch (node (.nondet false)) (node (.block [])) none),
    node (.insert (node (.name (.slot 1)))
      (node (.tuple (node (.exprs .none (node (.lit (.int 0))) (some (node (.exprs .none (node (.lit (.int 7))) none)))))))),
    node (.ret (some (node (.name (.slot 0)))))])

def attic : Program := ⟨"attic.p", [hoard], [⟨"Keeper", [], []⟩], []⟩

end Sample

/-- How many items a returned seq has. -/
def Outcome.items? (outcome : Outcome) : Option Nat :=
  match outcome.ending with
  | .returned (some value) =>
      match value.get with
      | .seq items => some items.length
      | _ => none
  | _ => none

/-- In a straight line the moved seq is still the same cell, and what is written shows. The exploration reports
that it does not if true is chosen, where the branch is a fork. -/
theorem hoard_fork_differs : ∃ image first outcomes outcome straight, Sample.attic.lower {} = .ok image ∧
    image.firstBranch "Keeper" "hoard" = .ok first ∧ image.explore "Keeper" "hoard" 2 3 10 100 = .ok outcomes ∧
    outcome ∈ outcomes ∧ outcome.choices = [true] ∧ outcome.items? = some 0 ∧
    first.straight ⟨image, SelfMail.handle, 3, 100⟩ 10 [true] = some straight ∧ straight.items? = some 1 := by
  let image : Image := (Sample.attic.lower {}).toOption.getD ⟨"", [], [], []⟩
  have accepted : Sample.attic.lower {} = .ok image := rfl
  have reports : ((image.explore "Keeper" "hoard" 2 3 10 100).map (·.map fun outcome => (outcome.choices, outcome.items?))).toOption
      = some [([false], some 1), ([true], some 0)] := by decide +kernel
  have runs : ((image.firstBranch "Keeper" "hoard").toOption.bind
      (·.straight ⟨image, SelfMail.handle, 3, 100⟩ 10 [true])).map Outcome.items? = some (some 1) := by decide +kernel
  cases explored : image.explore "Keeper" "hoard" 2 3 10 100 with
  | error cause =>
      rw [explored] at reports
      cases reports
  | ok outcomes =>
      cases started : image.firstBranch "Keeper" "hoard" with
      | error cause =>
          rw [started] at runs
          cases runs
      | ok first =>
          rw [explored] at reports
          rw [started] at runs
          obtain ⟨straight, ran, items⟩ := Option.map_eq_some_iff.mp runs
          have listed : outcomes.map (fun outcome => (outcome.choices, outcome.items?)) = [([false], some 1), ([true], some 0)] :=
            Option.some.inj reports
          have reported : ([true], some 0) ∈ outcomes.map fun outcome => (outcome.choices, outcome.items?) := by
            rw [listed]
            simp
          obtain ⟨outcome, member, same⟩ := List.mem_map.mp reported
          obtain ⟨chosen, empty⟩ := Prod.mk.injEq .. ▸ same
          exact ⟨image, first, outcomes, outcome, straight, accepted, started, explored, member, chosen, empty, ran, items⟩

theorem hoard_outcomes_replay : ∃ image outcomes, Sample.attic.lower {} = .ok image ∧
    image.explore "Keeper" "hoard" 2 3 10 100 = .ok outcomes ∧ outcomes ≠ [] ∧
    ∃ first, image.firstBranch "Keeper" "hoard" = .ok first ∧ ∀ outcome ∈ outcomes,
      first.replay id ⟨image, SelfMail.handle, 3, 100⟩ 10 outcome.choices = some outcome ∧
        (true ∉ outcome.choices → first.straight ⟨image, SelfMail.handle, 3, 100⟩ 10 outcome.choices = some outcome) := by
  let image : Image := (Sample.attic.lower {}).toOption.getD ⟨"", [], [], []⟩
  have accepted : Sample.attic.lower {} = .ok image := rfl
  have counted : ((image.explore "Keeper" "hoard" 2 3 10 100).map List.length).toOption = some 2 := by decide +kernel
  cases explored : image.explore "Keeper" "hoard" 2 3 10 100 with
  | error cause =>
      rw [explored] at counted
      cases counted
  | ok outcomes =>
      rw [explored] at counted
      have two : outcomes.length = 2 := Option.some.inj counted
      refine ⟨image, outcomes, accepted, explored, fun none => ?_, Image.explored_outcomes_replay explored⟩
      rw [none] at two
      cases two

end Reentry
