import Mathlib.Algebra.GroupWithZero.Nat
import Reentry.Exploration.Search
import Reentry.Proofs.Exploration.Tree

/-!
The search through a tree of choices, for any way of advancing branches. It finds the leaves of the trees
of its pending branches, in order, if there are not more of them than allowed, and stops at the first fork
that would lead to more. Pending branches and outcomes together grow with each fork and never shrink, so the
limit bounds the forks, and with them the turns that the search takes.
-/

namespace Reentry.Search

variable (advance : Branch → Option Branch.Halt) (limit : Nat)

/-- A way of advancing, as a relation. -/
def Halts (branch : Branch) (halt : Branch.Halt) : Prop := advance branch = some halt

/-- What a search does with a pending branch. -/
inductive Move where
  /-- The branch has ended. -/
  | finish
  /-- The branch has come to a choice and is forked. -/
  | fork
  /-- The branch has come to a choice, but is not forked because there would be too many. -/
  | refuse
  /-- The branch has not halted. -/
  | giveUp
deriving DecidableEq

def move (branch : Branch) (search : Search) : Move :=
  match advance branch, step advance limit branch search with
  | none, _ => .giveUp
  | some (.ended ..), _ => .finish
  | some (.choosing _), .ok _ => .fork
  | some (.choosing _), .error _ => .refuse

/-- The branches that a search advances, one after the other, and what it does with them. -/
def historyWithin : Nat → Search → List (Branch × Move)
  | _, ⟨[], _⟩ => []
  | 0, _ => []
  | rounds + 1, ⟨branch :: pending, found⟩ =>
      (branch, move advance limit branch ⟨pending, found⟩) ::
        match step advance limit branch ⟨pending, found⟩ with
        | .ok next => historyWithin rounds next
        | .error _ => []

/-- The history of the search below a branch. -/
def history (branch : Branch) : List (Branch × Move) :=
  historyWithin advance limit (2 * limit + 1) ⟨[branch], []⟩

/-- How often a move is made. -/
def Move.count (move : Move) (history : List (Branch × Move)) : Nat := history.countP (·.2 == move)

/-- Outcomes that are known, and those that there will be at least. -/
def size (search : Search) : Nat := search.found.length + search.pending.length

variable {advance limit} {branch : Branch} {pending : List Branch} {found outcomes : List Outcome} {rounds : Nat}

/-- What a step of the search can do. -/
theorem step_cases (branch : Branch) (search : Search) :
    (advance branch = none ∧ step advance limit branch search = .error .outOfSteps ∧
        move advance limit branch search = .giveUp) ∨
      (∃ ending last, advance branch = some (.ended ending last) ∧
        step advance limit branch search = .ok ⟨search.pending, last.outcome ending :: search.found⟩ ∧
        move advance limit branch search = .finish) ∨
      (∃ next, advance branch = some (.choosing next) ∧ limit < search.size + 2 ∧
        step advance limit branch search = .error (.tooManyBranches limit) ∧
        move advance limit branch search = .refuse) ∨
      ∃ next, advance branch = some (.choosing next) ∧ search.size + 2 ≤ limit ∧
        step advance limit branch search = .ok ⟨next.choose false :: next.fork.choose true :: search.pending, search.found⟩ ∧
        move advance limit branch search = .fork := by
  cases halts : advance branch with
  | none =>
      have stepped : step advance limit branch search = .error .outOfSteps := by rw [step, halts]
      exact .inl ⟨rfl, stepped, by rw [move, halts]⟩
  | some halt =>
      cases halt with
      | ended ending last =>
          refine .inr (.inl ⟨ending, last, rfl, ?_, ?_⟩)
          · rw [step, halts]
          · rw [move, halts]
      | choosing next =>
          by_cases tooMany : limit < search.size + 2
          · have stepped : step advance limit branch search = .error (.tooManyBranches limit) := by
              rw [step, halts]
              exact if_pos tooMany
            exact .inr (.inr (.inl ⟨next, rfl, tooMany, stepped, by rw [move, halts, stepped]⟩))
          · have stepped : step advance limit branch search =
                .ok ⟨next.choose false :: next.fork.choose true :: search.pending, search.found⟩ := by
              rw [step, halts]
              exact if_neg tooMany
            exact .inr (.inr (.inr ⟨next, rfl, Nat.le_of_not_lt tooMany, stepped, by rw [move, halts, stepped]⟩))

theorem runWithin_nil (rounds : Nat) (found : List Outcome) :
    runWithin advance limit rounds ⟨[], found⟩ = .ok found.reverse := by
  cases rounds <;> rfl

theorem runWithin_succ (rounds : Nat) : runWithin advance limit (rounds + 1) ⟨branch :: pending, found⟩ =
    (match step advance limit branch ⟨pending, found⟩ with
      | .ok next => runWithin advance limit rounds next
      | .error cause => .error cause) := by
  rw [runWithin]
  cases step advance limit branch ⟨pending, found⟩ <;> rfl

/-- Leaves of several trees, from left to right. -/
def leaves (trees : List ChoiceTree) : List Outcome := trees.flatMap ChoiceTree.leaves

/-- What a search finds are the leaves of the trees of its pending branches. -/
theorem runWithin_sound {search : Search} (ran : runWithin advance limit rounds search = .ok outcomes) :
    ∃ trees, List.Forall₂ (Unfolds (Halts advance)) search.pending trees ∧
      outcomes = search.found.reverse ++ leaves trees ∧ outcomes.length ≤ max limit search.size := by
  induction rounds generalizing search with
  | zero =>
      obtain ⟨_ | ⟨branch, pending⟩, found⟩ := search
      · cases ran
        exact ⟨[], .nil, by simp [leaves], by simp only [size, List.length_reverse, List.length_nil]; omega⟩
      · cases ran
  | succ rounds ih =>
      obtain ⟨_ | ⟨branch, pending⟩, found⟩ := search
      · cases ran
        exact ⟨[], .nil, by simp [leaves], by simp only [size, List.length_reverse, List.length_nil]; omega⟩
      · rw [runWithin_succ] at ran
        rcases @step_cases advance limit branch ⟨pending, found⟩ with
          ⟨_, stepped, _⟩ | ⟨ending, last, ended, stepped, _⟩ | ⟨_, _, _, stepped, _⟩ | ⟨next, chooses, few, stepped, _⟩
        · rw [stepped] at ran
          cases ran
        · rw [stepped] at ran
          obtain ⟨trees, unfold, rfl, bound⟩ := ih ran
          refine ⟨.leaf (last.outcome ending) :: trees, .cons (.leaf ended) unfold, by simp [leaves, ChoiceTree.leaves], ?_⟩
          simp only [size, List.length_cons] at bound ⊢
          omega
        · rw [stepped] at ran
          cases ran
        · rw [stepped] at ran
          obtain ⟨trees, unfold, listed, bound⟩ := ih ran
          obtain ⟨onFalse, more, left, unfoldMore, rfl⟩ := List.forall₂_cons_left_iff.mp unfold
          obtain ⟨onTrue, others, right, unfoldOthers, rfl⟩ := List.forall₂_cons_left_iff.mp unfoldMore
          refine ⟨.node onFalse onTrue :: others, .cons (.node chooses left right) unfoldOthers, ?_, ?_⟩
          · simpa [leaves, ChoiceTree.leaves] using listed
          · simp only [size, List.length_cons] at bound few ⊢
            omega

/-- How often the search has to advance for the trees. -/
def turns (trees : List ChoiceTree) : Nat := (trees.map fun tree => 2 * tree.nodes + 1).sum

/-- If the trees of the pending branches have no more leaves than allowed, the search finds them. -/
theorem runWithin_complete {search : Search} {trees : List ChoiceTree}
    (unfold : List.Forall₂ (Unfolds (Halts advance)) search.pending trees)
    (fits : search.found.length + (leaves trees).length ≤ max limit search.size) (enough : turns trees ≤ rounds) :
    runWithin advance limit rounds search = .ok (search.found.reverse ++ leaves trees) := by
  induction rounds generalizing search trees with
  | zero =>
      obtain ⟨pending, found⟩ := search
      cases unfold with
      | nil => simp [runWithin_nil, leaves]
      | cons first rest => simp [turns] at enough
  | succ rounds ih =>
      obtain ⟨pending, found⟩ := search
      cases unfold with
      | nil => simp [runWithin_nil, leaves]
      | @cons branch tree pending trees first rest =>
          have atLeast : pending.length ≤ (leaves trees).length := by
            rw [rest.length_eq]
            clear fits enough ih rest
            induction trees with
            | nil => simp
            | cons tree trees ih =>
                simp only [leaves, List.flatMap_cons, List.length_append, List.length_cons, tree.length_leaves] at ih ⊢
                omega
          rw [runWithin_succ]
          cases first with
          | @leaf _ ending last ended =>
              have stepped : step advance limit branch ⟨pending, found⟩ = .ok ⟨pending, last.outcome ending :: found⟩ := by
                rw [step, ended]
              simp only [stepped]
              rw [ih rest]
              · simp [leaves, ChoiceTree.leaves]
              · simp only [size, leaves, List.flatMap_cons, ChoiceTree.leaves, List.length_append, List.length_cons,
                  List.length_nil] at fits ⊢
                omega
              · simp only [turns, List.map_cons, List.sum_cons] at enough ⊢
                omega
          | @node _ next onFalse onTrue chooses left right =>
              have more : (leaves (.node onFalse onTrue :: trees)).length =
                  onFalse.nodes + onTrue.nodes + 2 + (leaves trees).length := by
                simp only [leaves, List.flatMap_cons, List.length_append, ChoiceTree.length_leaves, ChoiceTree.nodes]
                omega
              have few : ¬limit < found.length + pending.length + 2 := by
                rw [more] at fits
                simp only [size, List.length_cons] at fits
                omega
              have stepped : step advance limit branch ⟨pending, found⟩ =
                  .ok ⟨next.choose false :: next.fork.choose true :: pending, found⟩ := by
                rw [step, chooses]
                exact if_neg few
              simp only [stepped]
              rw [ih (.cons left (.cons right rest))]
              · simp [leaves, ChoiceTree.leaves]
              · have same : leaves (onFalse :: onTrue :: trees) = leaves (.node onFalse onTrue :: trees) := by
                  simp [leaves, ChoiceTree.leaves]
                rw [same]
                simp only [size, List.length_cons] at fits ⊢
                omega
              · simp only [turns, List.map_cons, List.sum_cons, ChoiceTree.nodes] at enough ⊢
                omega

/-- A search that is given enough turns either finds all leaves or comes to a fork too many. -/
theorem runWithin_ends {search : Search} {most : Nat}
    (halting : ∀ branch ∈ search.pending, Halting (Halts advance) branch) (few : search.size ≤ most) (le : limit ≤ most)
    (enough : 2 * (most - search.size) + search.pending.length ≤ rounds) :
    (∃ outcomes, runWithin advance limit rounds search = .ok outcomes) ∨
      runWithin advance limit rounds search = .error (.tooManyBranches limit) := by
  induction rounds generalizing search with
  | zero =>
      obtain ⟨_ | ⟨branch, pending⟩, found⟩ := search
      · exact .inl ⟨_, runWithin_nil 0 found⟩
      · simp at enough
  | succ rounds ih =>
      obtain ⟨_ | ⟨branch, pending⟩, found⟩ := search
      · exact .inl ⟨_, runWithin_nil _ found⟩
      · rw [runWithin_succ]
        have others : ∀ branch ∈ pending, Halting (Halts advance) branch :=
          fun other member => halting other (List.mem_cons_of_mem _ member)
        rcases @step_cases advance limit branch ⟨pending, found⟩ with
          ⟨stuck, _, _⟩ | ⟨ending, last, _, stepped, _⟩ | ⟨_, _, _, stepped, _⟩ | ⟨next, chooses, room, stepped, _⟩
        · obtain ⟨halt, halts⟩ := halting branch (by simp) branch (.refl branch)
          rw [Halts, stuck] at halts
          cases halts
        · rw [stepped]
          refine ih others ?_ ?_ <;> simp only [size, List.length_cons] at few enough ⊢ <;> omega
        · rw [stepped]
          exact .inr rfl
        · rw [stepped]
          have halting : ∀ branch ∈ next.choose false :: next.fork.choose true :: pending, Halting (Halts advance) branch := by
            intro other member
            rcases List.mem_cons.mp member with rfl | member
            · exact fun last leads => halting branch (by simp) last (.onFalse chooses leads)
            · rcases List.mem_cons.mp member with rfl | member
              · exact fun last leads => halting branch (by simp) last (.onTrue chooses leads)
              · exact others other member
          refine ih halting ?_ ?_ <;> simp only [size, List.length_cons] at few room enough ⊢ <;> omega

theorem Move.count_cons (wanted made : Move) (branch : Branch) (history : List (Branch × Move)) :
    wanted.count ((branch, made) :: history) = (if made = wanted then 1 else 0) + wanted.count history := by
  simp only [count, List.countP_cons, beq_iff_eq]
  omega

/-- Every fork leaves one more branch. -/
theorem historyWithin_bounded (rounds : Nat) (search : Search) :
    Move.fork.count (historyWithin advance limit rounds search) + search.size ≤ max limit search.size := by
  induction rounds generalizing search with
  | zero =>
      obtain ⟨_ | ⟨branch, pending⟩, found⟩ := search <;>
        (simp only [historyWithin, Move.count, List.countP_nil]; omega)
  | succ rounds ih =>
      obtain ⟨_ | ⟨branch, pending⟩, found⟩ := search
      · simp only [historyWithin, Move.count, List.countP_nil]
        omega
      · rw [historyWithin]
        rcases @step_cases advance limit branch ⟨pending, found⟩ with
          ⟨_, stepped, made⟩ | ⟨ending, last, _, stepped, made⟩ | ⟨_, _, _, stepped, made⟩ | ⟨next, _, room, stepped, made⟩
        all_goals simp only [stepped, made, Move.count_cons, reduceCtorEq, if_false, if_true]
        · simp only [Move.count, List.countP_nil]
          omega
        · have later := ih ⟨pending, last.outcome ending :: found⟩
          simp only [size, List.length_cons] at later ⊢
          omega
        · simp only [Move.count, List.countP_nil]
          omega
        · have later := ih ⟨next.choose false :: next.fork.choose true :: pending, found⟩
          simp only [size, List.length_cons] at later room ⊢
          omega

/-- A search that reports outcomes has forked at every choice; else it is refused one fork. -/
theorem historyWithin_refused {search : Search} (done : runWithin advance limit rounds search ≠ .error .outOfSteps) :
    Move.refuse.count (historyWithin advance limit rounds search) =
      if (runWithin advance limit rounds search).isOk then 0 else 1 := by
  induction rounds generalizing search with
  | zero =>
      obtain ⟨_ | ⟨branch, pending⟩, found⟩ := search
      · rfl
      · exact absurd rfl done
  | succ rounds ih =>
      obtain ⟨_ | ⟨branch, pending⟩, found⟩ := search
      · rfl
      · rw [runWithin_succ] at done ⊢
        rw [historyWithin]
        rcases @step_cases advance limit branch ⟨pending, found⟩ with
          ⟨_, stepped, made⟩ | ⟨ending, last, _, stepped, made⟩ | ⟨_, _, _, stepped, made⟩ | ⟨next, _, room, stepped, made⟩
        all_goals
          simp only [stepped] at done
          simp only [stepped, made, Move.count_cons, reduceCtorEq, if_false, if_true, Nat.zero_add]
        · exact absurd rfl done
        · exact ih done
        · rfl
        · exact ih done

/-- What a search does depends only on the branches that it advances. -/
theorem runWithin_congr {other : Branch → Option Branch.Halt} {search : Search}
    (same : ∀ entry ∈ historyWithin advance limit rounds search, other entry.1 = advance entry.1) :
    runWithin other limit rounds search = runWithin advance limit rounds search ∧
      historyWithin other limit rounds search = historyWithin advance limit rounds search := by
  induction rounds generalizing search with
  | zero =>
      obtain ⟨_ | ⟨branch, pending⟩, found⟩ := search <;> exact ⟨rfl, rfl⟩
  | succ rounds ih =>
      obtain ⟨_ | ⟨branch, pending⟩, found⟩ := search
      · exact ⟨rfl, rfl⟩
      · rw [historyWithin] at same
        have here : other branch = advance branch := same _ (List.mem_cons_self ..)
        have stepped : step other limit branch ⟨pending, found⟩ = step advance limit branch ⟨pending, found⟩ := by
          rw [step, step, here]
        have made : move other limit branch ⟨pending, found⟩ = move advance limit branch ⟨pending, found⟩ := by
          rw [move, move, here, stepped]
        rw [runWithin_succ, runWithin_succ, historyWithin, historyWithin, stepped, made]
        cases next : step advance limit branch ⟨pending, found⟩ with
        | error cause => exact ⟨rfl, rfl⟩
        | ok search =>
            rw [next] at same
            obtain ⟨ran, did⟩ := ih fun entry member => same entry (List.mem_cons_of_mem _ member)
            exact ⟨ran, by dsimp only; rw [did]⟩

section

variable {first : Branch}

/-- The search below a branch finds the leaves of its tree, if it is finite and has no more leaves than
allowed, or only one; else it comes to a fork too many. -/
theorem run_decides (halting : Halting (Halts advance) first) :
    (∃ tree, Unfolds (Halts advance) first tree ∧ (tree.leaves.length ≤ limit ∨ tree.leaves.length = 1) ∧
        run advance limit first = .ok tree.leaves) ∨
      ((¬∃ tree, Unfolds (Halts advance) first tree ∧ (tree.leaves.length ≤ limit ∨ tree.leaves.length = 1)) ∧
        run advance limit first = .error (.tooManyBranches limit)) := by
  have ends := @runWithin_ends advance limit (2 * limit + 1) ⟨[first], []⟩ (max limit 1)
    (by simpa using halting) (by simp only [size, List.length_cons, List.length_nil]; omega) (Nat.le_max_left _ _)
    (by simp only [size, List.length_cons, List.length_nil]; omega)
  rcases ends with ⟨outcomes, ran⟩ | stopped
  · obtain ⟨trees, unfold, listed, bound⟩ := runWithin_sound ran
    obtain ⟨tree, others, unfolds, none, rfl⟩ := List.forall₂_cons_left_iff.mp unfold
    obtain rfl := List.forall₂_nil_left_iff.mp none
    have found : outcomes = tree.leaves := by simpa [leaves] using listed
    subst found
    refine .inl ⟨tree, unfolds, ?_, ran⟩
    simp only [size, List.length_cons, List.length_nil, tree.length_leaves] at bound ⊢
    omega
  · refine .inr ⟨?_, stopped⟩
    rintro ⟨tree, unfolds, few⟩
    have ran := @runWithin_complete advance limit (2 * limit + 1) ⟨[first], []⟩ [tree] (.cons unfolds .nil)
      (by simp only [leaves, size, List.flatMap_cons, List.flatMap_nil, List.append_nil, List.length_cons, List.length_nil]; omega)
      (by rw [tree.length_leaves] at few; simp only [turns, List.map_cons, List.map_nil, List.sum_cons, List.sum_nil]; omega)
    rw [ran] at stopped
    cases stopped

/-- The search below a branch forks less often than branches are allowed, or not at all. -/
theorem history_bounded (advance : Branch → Option Branch.Halt) (limit : Nat) (first : Branch) :
    Move.fork.count (history advance limit first) < max 1 limit := by
  have bounded := @historyWithin_bounded advance limit (2 * limit + 1) ⟨[first], []⟩
  simp only [size, List.length_cons, List.length_nil] at bounded
  unfold history
  omega

end

end Reentry.Search
