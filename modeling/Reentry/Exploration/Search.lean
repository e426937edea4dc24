import Reentry.Exploration.Branch

/-!
Running one function of a machine under every sequence of choices. At a choice the branch goes on with
false and a fork of it with true, false first, so outcomes come in the order of their choices. The number
of branches is limited.
-/

namespace Reentry

inductive ExploreError where
  | noMachine (name : String)
  | noFunction (name : String)
  | start (cause : RuntimeFailure)
  | tooManyBranches (limit : Nat)
  /-- A branch ran for longer than allowed. -/
  | outOfSteps
deriving DecidableEq, Repr

namespace ExploreError

def message : ExploreError → String
  | .noMachine name => "No machine named `" ++ name ++ "`"
  | .noFunction name => "No function named `" ++ name ++ "`"
  | .start cause => cause.message
  | .tooManyBranches limit => "More than " ++ Decimal.natText limit ++ " branches; raise --max-branches"
  | .outOfSteps => "a branch ran for too long"

end ExploreError

/-- Branches still to be advanced, the next one first, and the outcomes found, last first. -/
structure Search where
  pending : List Branch
  found : List Outcome

namespace Search

variable (advance : Branch → Option Branch.Halt) (limit : Nat)

/-- Advances the first pending branch. There may be `limit` branches, finished ones included; a single
one is always allowed. -/
def step (branch : Branch) (search : Search) : Except ExploreError Search :=
  match advance branch with
  | none => .error .outOfSteps
  | some (.ended ending branch) => .ok { search with found := branch.outcome ending :: search.found }
  | some (.choosing branch) =>
      if limit < search.found.length + search.pending.length + 2 then .error (.tooManyBranches limit)
      else .ok { search with pending := branch.choose false :: branch.fork.choose true :: search.pending }

/-- Advances pending branches until none is left, at most so many times. -/
def runWithin : Nat → Search → Except ExploreError (List Outcome)
  | _, ⟨[], found⟩ => .ok found.reverse
  | 0, _ => .error .outOfSteps
  | rounds + 1, ⟨branch :: pending, found⟩ => do
      runWithin rounds (← step advance limit branch ⟨pending, found⟩)

/-- Explores everything below a branch. Each of the branches is advanced once for its ending, and each
but the first comes from one fork, so twice the limit is enough. -/
def run (branch : Branch) : Except ExploreError (List Outcome) :=
  runWithin advance limit (2 * limit + 1) ⟨[branch], []⟩

end Search

namespace Image

def machineNamed? (image : Image) (name : String) : Option (MachineTypeId × MachineDecl) := do
  let index ← image.machines.findIdx? (·.name == name)
  some (⟨.ofNat index⟩, ← image.machines[index]?)

/-- Initial values for the parameters of a routine. -/
def defaultArguments (routine : Routine) : Alloc (List Value) :=
  (routine.shape.slots.take routine.shape.paramCount).mapM FrameShape.initialSlot

/-- A fresh actor about to run a function with default arguments. -/
def firstBranch (image : Image) (machine function : String) : Except ExploreError Branch := do
  let some (machineType, decl) := image.machineNamed? machine | throw (.noMachine machine)
  let some routine := image.routineNamed? function | throw (.noFunction function)
  let (args, heap) := (defaultArguments routine).run .empty
  let (actor, heap) := (Actor.create ⟨0⟩ machineType decl).run heap
  match (actor.startCall image routine.function args).run heap with
  | .ok (actor, heap) => return ⟨⟨heap, actor, .empty, 0⟩, [], 0⟩
  | .error cause => throw (.start cause)

/-- Outcomes of a function on a fresh instance of a machine, under every sequence of choices. A branch
may execute `rounds` times between two choices, each time for at most `steps` instructions a call. -/
def explore (image : Image) (machine function : String) (limit depthLimit rounds steps : Nat) :
    Except ExploreError (List Outcome) := do
  let config : RunConfig SelfMail := ⟨image, SelfMail.handle, depthLimit, steps⟩
  Search.run (Branch.advance config rounds) limit (← image.firstBranch machine function)

end Image

end Reentry
