import Reentry.Actor.Basic
import Reentry.Execution.Continuation
import Reentry.Value.Operator

/-!
What running code works on: the heap, the actor and whatever lies outside the actor. Changes made before
a failure stay.
-/

namespace Reentry

/-- What code does beyond its own actor. -/
inductive Effect where
  | enqueue (sender target : MachineId) (event payload : Value)
  | announce (sender : MachineId) (event payload : Value)
  | print (sender : MachineId) (message : String)
deriving DecidableEq, Repr

/-- Why a run ended early. Running out of steps says nothing about the program. -/
inductive Stop where
  | failed (cause : RuntimeFailure)
  | outOfSteps
deriving DecidableEq, Repr

/-- State of a run; `outside` is what effects change. -/
structure Running (σ : Type) where
  heap : Heap
  actor : Actor
  outside : σ
  /-- How many calls are active. -/
  depth : Nat

abbrev Exec (σ : Type) := EStateM Stop (Running σ)

/-- How effects change what lies outside the actor. A handler sees the heap as it is when the effect
takes place. -/
abbrev Handler (σ : Type) := Heap → Effect → σ → Except RuntimeFailure σ

namespace Exec

variable {σ α : Type}

def fail (cause : RuntimeFailure) : Exec σ α := throw (.failed cause)

/-- Reports a broken rule in a function. -/
def trap (function : String) (trap : Trap) : Exec σ α := fail (.internal function trap)

def ofAlloc (work : Alloc α) : Exec σ α :=
  modifyGet fun state =>
    let (result, heap) := work.run state.heap
    (result, { state with heap })

def ofHeapOp (work : HeapOp α) : Exec σ α := do
  match work.run (← get).heap with
  | .ok (result, heap) => modify ({ · with heap }); pure result
  | .error cause => fail cause

def ofValueOp (work : ValueOp α) : Exec σ α := do
  match work.run (← get).heap with
  | .ok (result, heap) => modify ({ · with heap }); pure result
  | .error error => fail (.value error)

def actor : Exec σ Actor := do pure (← get).actor

def modifyActor (change : Actor → Actor) : Exec σ Unit :=
  modify fun state => { state with actor := change state.actor }

/-- Counts a call as active while it runs, however it ends. -/
def counted (call : Exec σ α) : Exec σ α := fun state =>
  match call { state with depth := state.depth + 1 } with
  | .ok result state => .ok result { state with depth := state.depth - 1 }
  | .error stop state => .error stop { state with depth := state.depth - 1 }

def perform (handler : Handler σ) (effect : Effect) : Exec σ Unit := do
  let state ← get
  match handler state.heap effect state.outside with
  | .ok outside => modify ({ · with outside })
  | .error cause => fail cause

end Exec

end Reentry
