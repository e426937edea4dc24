import Reentry.Execution.Step
import Reentry.Proofs.Custody.Operand

/-!
Instructions that change a cell. Such an instruction works out which cell that is and what goes into it; then it makes
the change, and does nothing else.
-/

namespace Reentry

/-- The change of one cell, about to be made. -/
structure Aimed where
  container : Value
  /-- Values that go into the cell. -/
  spent : List Value
  /-- Whether parts behind the one that is changed may be changed, too. -/
  onward : Bool
  write : ValueOp Unit
  alters : ∀ heap, ValueOp.Alters heap container onward write
  plants : ∀ heap, ValueOp.Plants heap spent write fun _ => []

namespace Aimed

def part (tuple : Value) (index : Nat) (value : Value) : Aimed :=
  ⟨tuple, [value], false, tuple.updateField index value, fun _ => Value.updateField_alters index, fun _ => Value.updateField_plants index⟩

def element (container key value : Value) : Aimed :=
  ⟨container, [value], false, container.update key value, fun _ => Value.update_alters, fun _ => Value.update_plants⟩

def insertion (container key value : Value) : Aimed :=
  ⟨container, [value], true, container.insert key value, fun _ => Value.insert_alters, fun _ => Value.insert_plants⟩

def removal (container key : Value) : Aimed :=
  ⟨container, [], true, container.remove key, fun _ => Value.remove_alters, fun _ => Value.remove_plants⟩

end Aimed

/-- The operand whose value the instruction makes the event that is handled. -/
def Instr.raised? : Instr → Option Operand
  | .assign .trigger event => some event
  | _ => none

namespace Env

open Exec

variable {σ : Type} (env : Env σ) (act : Activation)

/-- The change that storing a value at a place makes, if the place lies in a cell. -/
def aimAt : Place → Option (Value → Exec σ Aimed)
  | .part base index => some fun value => do
      let tuple ← env.load act base
      pure (.part tuple index value)
  | .element base key kind => some fun value => do
      let container ← env.load act base
      expectKind kind container
      let key ← env.eval act key
      pure (.element container key value)
  | .slot _ | .field _ | .trigger | .payload => none

/-- The change that an instruction makes, if it changes a cell. Exchanges are left out. -/
def aim : Instr → Option (Exec σ Aimed)
  | .assign dest value => (env.aimAt act dest).map fun aim => do aim (← env.eval act value)
  | .update container (.part index) value => some do
      let value ← env.eval act value
      let container ← env.load act container
      pure (.part container index value)
  | .update container (.element key kind) value => some do
      let value ← env.eval act value
      let container ← env.load act container
      expectKind kind container
      let key ← env.eval act key
      pure (.element container key value)
  | .remove container kind key => some do
      let key ← env.eval act key
      let container ← env.load act container
      expectKind kind container
      pure (.removal container key)
  | .insert container kind entry => some do
      let entry ← env.eval act entry
      let container ← env.load act container
      expectKind kind container
      let key ← Exec.ofValueOp (entry.field 0)
      let value ← Exec.ofValueOp (entry.field 1)
      pure (.insertion container key value)
  | .collectReturn dest =>
      match act.lastCall with
      | some (.completed value _) => (env.aimAt act dest).map fun aim => aim (value.getD .null)
      | _ => none
  | .readCreated dest => (env.aimAt act dest).map fun aim => do
      match (← Exec.actor).resume.created with
      | some created =>
          Exec.modifyActor fun actor => { actor with resume := { actor.resume with created := none } }
          aim (.machine created)
      | none => env.trap .noInstance
  | _ => none

variable {env act}

/-- What an operation gives may be ignored before or after it is made part of a run. -/
theorem ofValueOp_ignore (work : ValueOp Value) :
    (Exec.ofValueOp (work >>= fun _ => pure ()) : Exec σ Unit) = Exec.ofValueOp work >>= fun _ => pure () := by
  funext state
  rw [ofValueOp_apply, bind_apply, ofValueOp_apply, StateT.run_bind]
  cases work.run state.heap <;> rfl

theorem store_aim {place : Place} {aim : Value → Exec σ Aimed} (aims : env.aimAt act place = some aim) (value : Value) :
    env.store act place value = (do
      let aimed ← aim value
      Exec.ofValueOp aimed.write
      pure act) := by
  cases place with
  | slot _ | field _ | trigger | payload => cases aims
  | part base index =>
      cases aims
      simp only [store, bind_assoc, pure_bind]
      rfl
  | element base key kind =>
      cases aims
      simp only [store, bind_assoc, pure_bind]
      rfl

theorem step_aim {instr : Instr} {work : Exec σ Aimed} (aims : env.aim act instr = some work) :
    env.step act instr = (do
      let aimed ← work
      Exec.ofValueOp aimed.write
      pure (.next act)) := by
  cases instr with
  | assign dest value =>
      obtain ⟨aim, at_dest, rfl⟩ := Option.map_eq_some_iff.mp aims
      simp only [step, store_aim at_dest, bind_assoc, map_bind, map_pure]
  | update container selector value =>
      cases selector with
      | part index =>
          cases aims
          have ignored (tuple value : Value) : (Exec.ofValueOp (Aimed.part tuple index value).write : Exec σ Unit)
              = Exec.ofValueOp (tuple.replaceField index value) >>= fun _ => pure () := ofValueOp_ignore _
          simp only [step, replacePart, bind_assoc, pure_bind, ignored]
      | element key kind =>
          cases aims
          have ignored (container key value : Value) : (Exec.ofValueOp (Aimed.element container key value).write : Exec σ Unit)
              = Exec.ofValueOp (container.replace key value) >>= fun _ => pure () := ofValueOp_ignore _
          simp only [step, replacePart, bind_assoc, pure_bind, ignored]
  | remove container kind key =>
      cases aims
      simp only [step, bind_assoc, pure_bind]
      rfl
  | insert container kind entry =>
      cases aims
      simp only [step, bind_assoc, pure_bind]
      rfl
  | collectReturn dest =>
      rcases last : act.lastCall with _ | ⟨value, locals⟩ | reason <;> simp only [aim, last] at aims
      · cases aims
      · obtain ⟨aim, at_dest, rfl⟩ := Option.map_eq_some_iff.mp aims
        simp only [step, last, store_aim at_dest, map_bind, map_pure]
      · cases aims
  | readCreated dest =>
      obtain ⟨aim, at_dest, rfl⟩ := Option.map_eq_some_iff.mp aims
      simp only [step, store_aim at_dest, bind_assoc, map_bind, map_pure]
      refine bind_congr fun actor => ?_
      cases actor.resume.created with
      | none => rfl
      | some created => simp only [bind_assoc]
  | _ => cases aims

theorem step_raised {instr : Instr} {event : Operand} (raises : instr.raised? = some event) :
    env.step act instr = (do
      let value ← env.eval act event
      Exec.modifyActor fun actor => { actor with trigger := value }
      pure (.next act)) := by
  cases instr with
  | assign dest value =>
      cases dest with
      | trigger =>
          cases raises
          simp only [step, store, map_bind, map_pure]
      | _ => cases raises
  | _ => cases raises

end Env

end Reentry
