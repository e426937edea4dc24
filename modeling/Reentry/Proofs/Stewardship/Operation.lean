import Reentry.Proofs.Ownership.Values

/-!
All that may be done with values: making them out of nothing or out of other values, looking into containers, and
changing containers. Code does nothing else with them.
-/

namespace Reentry

inductive Operation where
  /-- Makes a value that looks like this; that is how constants and initial values come about. -/
  | build (tree : Tree)
  | copy (value : Value)
  | tuple (items : List Value)
  | named (fields : List (String × Value))
  | seq (items : List Value)
  | cast (value : Value) (ty : Ty)
  | unary (op : UnaryOp) (arg : Value)
  | binary (op : BinaryOp) (lhs rhs : Value)
  | lookup (container key : Value)
  | replace (container key value : Value)
  | insert (container key value : Value)
  | remove (container key : Value)
  | field (container : Value) (index : Nat)
  | replaceField (container : Value) (index : Nat) (value : Value)

namespace Operation

/-- Carries out the operation; where it gives nothing, the result is null. -/
def perform : Operation → ValueOp Value
  | build tree => tree.build.toOp
  | copy value => value.deepCopy.toOp
  | tuple items => (Cell.new (.tuple items)).toOp
  | named fields => (Cell.new (.named fields)).toOp
  | seq items => (Cell.new (.seq items)).toOp
  | cast value ty => value.cast ty
  | unary op arg => op.apply arg
  | binary op lhs rhs => op.apply lhs rhs
  | lookup container key => container.lookup key
  | replace container key value => container.replace key value
  | insert container key value => do container.insert key value; pure .null
  | remove container key => do container.remove key; pure .null
  | field container index => container.field index
  | replaceField container index value => container.replaceField index value

/-- The values that the operation works with. -/
def operands : Operation → List Value
  | build _ => []
  | copy value => [value]
  | tuple items => items
  | named fields => fields.map (·.2)
  | seq items => items
  | cast value _ => [value]
  | unary _ arg => [arg]
  | binary _ lhs rhs => [lhs, rhs]
  | lookup container key => [container, key]
  | replace container key value => [container, key, value]
  | insert container key value => [container, key, value]
  | remove container key => [container, key]
  | field container _ => [container]
  | replaceField container _ value => [container, value]

open ValueOp

/-- Whoever owns the operands of an operation comes to own what it gives and what it makes. -/
theorem perform_stays {region : Region} {heap : Heap} (op : Operation) (owns : region.OwnsAll op.operands) :
    Stays region heap op.perform fun result => [result] := by
  cases op with
  | build tree => exact .makes (Tree.build_makes [] tree)
  | copy value => exact .makes (.deepCopy [] value)
  | tuple items | named fields | seq items =>
      intro closed
      have inside : Region.between heap.size (heap.size + 1) heap.next := ⟨Nat.le_refl _, Nat.lt_succ_self _⟩
      exact ⟨_, .allocate closed owns, by simpa using .inr inside⟩
  | cast value ty => exact Value.cast_stays (by simpa [operands] using owns) ty
  | unary op arg => exact op.apply_stays arg
  | binary op lhs rhs => exact BinaryOp.apply_stays op fun _ => owns lhs (.head _)
  | lookup container key => exact Value.lookup_stays (by simp [operands] at owns; exact owns.1)
  | replace container key value =>
      simp only [operands, Region.ownsAll_cons] at owns
      exact Value.replace_stays owns.1 owns.2.2.1
  | insert container key value =>
      simp only [operands, Region.ownsAll_cons] at owns
      exact (Value.insert_stays owns.1 owns.2.2.1).bind fun _ _ _ _ _ => .pure (by simp)
  | remove container key =>
      simp only [operands, Region.ownsAll_cons] at owns
      exact (Value.remove_stays owns.1).bind fun _ _ _ _ _ => .pure (by simp)
  | field tuple index => exact Value.field_stays (by simpa [operands] using owns) index
  | replaceField tuple index value =>
      simp only [operands, Region.ownsAll_cons] at owns
      exact Value.replaceField_stays owns.1 owns.2.1 index

end Operation

/-!
A key that holds the map in which it is used keeps operations from changing the map. Nothing else fails in this way.
-/

namespace ValueOp

variable {α β : Type}

/-- Work that never fails because a key holds its map. -/
def Unhindered (work : ValueOp α) : Prop := ∀ heap, work.run heap ≠ .error .keyHoldsMap

namespace Unhindered

theorem pure (result : α) : Unhindered (Pure.pure result) := fun _ => nofun

theorem throw {error : ValueError} (other : error ≠ .keyHoldsMap) : Unhindered (throw error : ValueOp α) :=
  fun _ same => other (Except.error.inj same)

theorem get : Unhindered (get : ValueOp Heap) := fun _ => nofun

theorem modify (change : Heap → Heap) : Unhindered (modify change : ValueOp Unit) := fun _ => nofun

theorem alloc (work : Alloc α) : Unhindered work.toOp := fun _ => nofun

theorem bind {work : ValueOp α} {rest : α → ValueOp β} (first : Unhindered work) (later : ∀ result, Unhindered (rest result)) :
    Unhindered (work >>= rest) := by
  intro heap
  rw [StateT.run_bind]
  cases ran : work.run heap with
  | error error =>
      intro same
      cases same
      exact first heap ran
  | ok pair => exact later pair.1 pair.2

theorem mismatch (op expected : String) (found : Value) : Unhindered (Value.mismatch op expected found : ValueOp α) :=
  get.bind fun _ => throw nofun

theorem asBool (op : String) (value : Value) : Unhindered (value.asBool op) := by
  cases value <;> first | exact pure _ | exact mismatch _ _ _

theorem asInt (op : String) (value : Value) : Unhindered (value.asInt op) := by
  cases value <;> first | exact pure _ | exact mismatch _ _ _

theorem asMachine (op : String) (value : Value) : Unhindered (value.asMachine op) := by
  cases value <;> first | exact pure _ | exact mismatch _ _ _

theorem seqIndex (key : Value) (length : Nat) (inclusive : Bool) : Unhindered (key.seqIndex length inclusive) := by
  apply (asInt _ _).bind
  intro index
  generalize (if inclusive then length + 1 else length) = bound
  dsimp only
  split
  · exact pure _
  · exact throw (by simp)

theorem ints (op : String) (lhs rhs : Value) : Unhindered (BinaryOp.ints op lhs rhs) :=
  (asInt _ _).bind fun _ => (asInt _ _).bind fun _ => pure _

theorem size (container : Value) : Unhindered container.size := by
  apply get.bind
  intro heap
  split
  · exact pure _
  · exact pure _
  · exact mismatch _ _ _

theorem keys (map : Value) : Unhindered map.keys := by
  apply get.bind
  intro heap
  split
  · exact alloc _
  · exact mismatch _ _ _

theorem values (map : Value) : Unhindered map.values := by
  apply get.bind
  intro heap
  split
  · exact alloc _
  · exact mismatch _ _ _

theorem containsKey (map key : Value) : Unhindered (map.containsKey key) := by
  apply get.bind
  intro heap
  split
  · exact get.bind fun _ => pure _
  · exact mismatch _ _ _

theorem lookup (container key : Value) : Unhindered (container.lookup key) := by
  apply get.bind
  intro heap
  split
  · exact (seqIndex _ _ _).bind fun _ => pure _
  · apply get.bind
    intro heap
    split
    · exact pure _
    · exact throw (by simp)
  · exact mismatch _ _ _

theorem field (tuple : Value) (index : Nat) : Unhindered (tuple.field index) := by
  apply get.bind
  intro heap
  split
  · split
    · exact pure _
    · exact throw (by simp)
  · split
    · exact pure _
    · exact throw (by simp)
  · exact mismatch _ _ _

theorem replaceField (tuple : Value) (index : Nat) (value : Value) : Unhindered (tuple.replaceField index value) := by
  apply get.bind
  intro heap
  split
  · split
    · exact (modify _).bind fun _ => pure _
    · exact throw (by simp)
  · split
    · exact (modify _).bind fun _ => pure _
    · exact throw (by simp)
  · exact mismatch _ _ _

theorem cast (value : Value) (ty : Ty) : Unhindered (value.cast ty) := by
  apply get.bind
  intro heap
  split
  · exact pure _
  · exact throw (by simp)

theorem unary (op : UnaryOp) (arg : Value) : Unhindered (op.apply arg) := by
  cases op with
  | not => exact (asBool _ _).bind fun _ => pure _
  | neg =>
      apply (asInt _ _).bind
      intro value
      split
      · exact throw (by simp)
      · exact pure _
  | keys => exact keys arg
  | values => exact values arg
  | sizeof => exact (size _).bind fun _ => pure _

theorem binary (op : BinaryOp) (lhs rhs : Value) : Unhindered (op.apply lhs rhs) := by
  cases op with
  | add | sub | mul | lt | le | gt | ge => exact (ints _ _ _).bind fun _ => pure _
  | div =>
      apply (ints _ _ _).bind
      rintro ⟨left, right⟩
      dsimp only
      split
      · exact throw (by simp)
      · exact pure _
  | and | or =>
      apply (asBool _ _).bind
      intro holds
      cases holds <;> first | exact pure _ | exact (asBool _ _).bind fun _ => pure _
  | eq | ne => exact get.bind fun _ => pure _
  | index => exact lookup lhs rhs
  | mem => exact (containsKey rhs lhs).bind fun _ => pure _

theorem bindCopy (map : Address) (key value : Value) (entries : List Entry) : Unhindered (Value.bindCopy map key value entries) :=
  (alloc _).bind fun _ => get.bind fun _ => (modify _).bind fun _ => pure _

end Unhindered

/-- Work that fails because a key holds its map only if this key holds this container. -/
def Hindered (container key : Value) (work : ValueOp α) : Prop :=
  ∀ heap, work.run heap = .error .keyHoldsMap → ∃ map, container = .cell map ∧ heap.reaches key map

namespace Hindered

variable {container key : Value}

theorem never {work : ValueOp α} (unhindered : Unhindered work) : Hindered container key work :=
  fun heap failed => absurd failed (unhindered heap)

theorem get {rest : Heap → ValueOp α} (next : ∀ heap, Hindered container key (rest heap)) :
    Hindered container key (MonadState.get >>= rest) := fun heap => next heap heap

/-- Nothing hinders what comes behind. -/
theorem bind {work : ValueOp α} {rest : α → ValueOp β} (first : Hindered container key work) (later : ∀ result, Unhindered (rest result)) :
    Hindered container key (work >>= rest) := by
  intro heap failed
  rw [StateT.run_bind] at failed
  cases ran : work.run heap with
  | error error =>
      rw [ran] at failed
      cases failed
      exact first heap ran
  | ok pair =>
      rw [ran] at failed
      exact absurd failed (later pair.1 pair.2)

theorem checkKey (key : Value) (map : Address) : Hindered (.cell map) key (key.checkKey map) := by
  intro heap failed
  refine ⟨map, rfl, ?_⟩
  simp only [Value.checkKey, StateT.run_bind, StateT.run_get, pure_bind] at failed
  split at failed
  · assumption
  · cases failed

theorem replace (container key value : Value) : Hindered container key (container.replace key value) := by
  apply get
  intro heap
  split
  next found => exact never ((Unhindered.seqIndex _ _ _).bind fun _ => (Unhindered.modify _).bind fun _ => .pure _)
  next found =>
      obtain ⟨rfl, _⟩ := Value.contents_of_cell? found
      exact (checkKey key _).bind fun _ => .bindCopy _ _ _ _
  next => exact never (.mismatch _ _ _)

theorem remove (container key : Value) : Hindered container key (container.remove key) := by
  apply get
  intro heap
  split
  next found => exact never ((Unhindered.seqIndex _ _ _).bind fun _ => .modify _)
  next found =>
      obtain ⟨rfl, _⟩ := Value.contents_of_cell? found
      apply (checkKey key _).bind
      intro _
      apply Unhindered.get.bind
      intro heap
      split
      · exact .modify _
      · exact Unhindered.get.bind fun _ => .throw nofun
  next => exact never (.mismatch _ _ _)

theorem insert (container key value : Value) : Hindered container key (container.insert key value) := by
  apply get
  intro heap
  split
  next found => exact never ((Unhindered.seqIndex _ _ _).bind fun _ => .modify _)
  next found =>
      obtain ⟨rfl, _⟩ := Value.contents_of_cell? found
      apply (checkKey key _).bind
      intro _
      apply Unhindered.get.bind
      intro heap
      split
      · exact Unhindered.get.bind fun _ => .throw nofun
      · exact (Unhindered.bindCopy _ _ _ _).bind fun _ => .pure _
  next => exact never (.mismatch _ _ _)

end Hindered

end ValueOp

namespace Operation

open ValueOp

/-- The container that the operation changes under a key, and the key. -/
def keyed? : Operation → Option (Value × Value)
  | replace container key _ | insert container key _ | remove container key => some (container, key)
  | _ => none

/-- Whether the operation overwrites a cell. The others at most add cells. -/
def overwrites : Operation → Bool
  | replace _ _ _ | insert _ _ _ | remove _ _ | replaceField _ _ _ => true
  | _ => false

theorem keyed?_of_calm {op : Operation} (calm : op.overwrites = false) : op.keyed? = none := by
  cases op with
  | replace | insert | remove | replaceField => cases calm
  | _ => rfl

theorem perform_unhindered (op : Operation) (plain : op.keyed? = none) : op.perform.Unhindered := by
  cases op with
  | build _ | copy _ | tuple _ | named _ | seq _ => exact .alloc _
  | cast value ty => exact .cast value ty
  | unary op arg => exact .unary op arg
  | binary op lhs rhs => exact .binary op lhs rhs
  | lookup container key => exact .lookup container key
  | replace | insert | remove => cases plain
  | field container index => exact .field container index
  | replaceField container index value => exact .replaceField container index value

theorem perform_hindered {op : Operation} {container key : Value} (keyed : op.keyed? = some (container, key)) :
    op.perform.Hindered container key := by
  cases op with
  | replace => cases keyed; exact .replace _ _ _
  | insert => cases keyed; exact (Hindered.insert _ _ _).bind fun _ => .pure _
  | remove => cases keyed; exact (Hindered.remove _ _).bind fun _ => .pure _
  | _ => cases keyed

end Operation

end Reentry
