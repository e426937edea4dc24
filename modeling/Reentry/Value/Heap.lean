import Reentry.Program.Name

/-!
Values and the storage they share. A scalar is its own value; a tuple, seq or map is a cell of the heap,
and two values that name one cell see each other's changes. Cells are allocated at ascending addresses
and never freed, so an address stands for the same cell in every later heap.
-/

namespace Reentry

structure Address where
  index : Nat
deriving DecidableEq, Repr, Inhabited

inductive Value where
  /-- The null value, which is also the null event. -/
  | null
  | bool (value : Bool)
  | int (value : Int64)
  | event (id : EventId)
  /-- The built-in event that halts an actor. -/
  | halt
  | machine (id : MachineId)
  | cell (address : Address)
deriving DecidableEq, Repr, Inhabited

/-- What is seen of a value without going into its parts. -/
inductive Mark where
  | null
  | bool (value : Bool)
  | int (value : Int64)
  | event (id : EventId)
  | halt
  | machine (id : MachineId)
  | tuple (arity : Nat)
  | named (names : List String)
  | seq (length : Nat)
  | map (size : Nat)
deriving DecidableEq, Repr

/-- What a value looks like at some moment: the marks of its parts, outermost first. -/
abbrev Fingerprint := List Mark

structure Entry where
  key : Value
  /-- Fingerprint that the key had when the entry was made. -/
  imprint : Fingerprint
  value : Value
deriving DecidableEq, Repr

inductive Cell where
  | tuple (items : List Value)
  | named (fields : List (String × Value))
  | seq (items : List Value)
  /-- Entries in the order in which their keys were inserted. -/
  | map (entries : List Entry)
deriving Repr

namespace Cell

/-- Everything that is stored directly in a cell. -/
def contents : Cell → List Value
  | .tuple items => items
  | .named fields => fields.map (·.2)
  | .seq items => items
  | .map entries => entries.flatMap fun entry => [entry.key, entry.value]

/-- The parts of a map are its keys and values in turn. -/
theorem map_contents_getElem? (entries : List Entry) (step : Nat) : (Cell.map entries).contents[step]?
    = entries[step / 2]?.map fun entry => if step % 2 = 0 then entry.key else entry.value := by
  induction entries generalizing step with
  | nil => rfl
  | cons entry rest ih =>
      match step with
      | 0 | 1 => rfl
      | step + 2 =>
          have inner := ih step
          rw [Nat.add_div_right step (by omega), Nat.add_mod_right]
          exact inner

end Cell

structure Heap where
  cells : Array Cell
deriving Repr, Inhabited

namespace Heap

def empty : Heap := ⟨#[]⟩

def size (heap : Heap) : Nat := heap.cells.size

/-- The cell at an address; where nothing is allocated, the empty tuple. -/
def read (heap : Heap) (address : Address) : Cell :=
  heap.cells[address.index]?.getD (.tuple [])

/-- The cell that the next allocation gets. -/
def next (heap : Heap) : Address := ⟨heap.size⟩

def allocate (heap : Heap) (cell : Cell) : Heap := ⟨heap.cells.push cell⟩

def write (heap : Heap) (address : Address) (cell : Cell) : Heap :=
  ⟨heap.cells.setIfInBounds address.index cell⟩

theorem size_allocate (heap : Heap) (cell : Cell) : (heap.allocate cell).size = heap.size + 1 := by
  simp [allocate, size]

theorem size_write (heap : Heap) (address : Address) (cell : Cell) :
    (heap.write address cell).size = heap.size := by
  simp [write, size]

theorem read_allocate_next (heap : Heap) (cell : Cell) :
    (heap.allocate cell).read heap.next = cell := by
  simp [allocate, read, next, size]

theorem read_allocate_of_lt {heap : Heap} {address : Address} (allocated : address.index < heap.size)
    (cell : Cell) : (heap.allocate cell).read address = heap.read address := by
  have other : address.index ≠ heap.cells.size := Nat.ne_of_lt allocated
  simp [allocate, read, Array.getElem?_push, other]

theorem read_write_self {heap : Heap} {address : Address} (allocated : address.index < heap.size)
    (cell : Cell) : (heap.write address cell).read address = cell := by
  have bound : address.index < heap.cells.size := allocated
  simp [write, read, bound]

theorem read_write_of_ne (heap : Heap) {address other : Address} (different : other ≠ address) (cell : Cell) :
    (heap.write address cell).read other = heap.read other := by
  have indices : address.index ≠ other.index := fun same => different (by cases address; cases other; simp_all)
  simp [write, read, indices]

end Heap

/-- Work on a heap that cannot fail. -/
abbrev Alloc := StateM Heap

/-- Stores a cell and gives the value that names it. -/
def Cell.new (cell : Cell) : Alloc Value :=
  modifyGet fun heap => (.cell heap.next, heap.allocate cell)

namespace Value

/-- Whether both values are one cell. -/
def sameStorage : Value → Value → Bool
  | .cell left, .cell right => left == right
  | _, _ => false

/-- Whether this is an event; null is none. -/
def isEvent : Value → Bool
  | .event _ | .halt => true
  | _ => false

def kindName (heap : Heap) : Value → String
  | .null => "null"
  | .bool _ => "bool"
  | .int _ => "int"
  | .event _ | .halt => "event"
  | .machine _ => "machine"
  | .cell address =>
      match heap.read address with
      | .tuple _ => "tuple"
      | .named _ => "named tuple"
      | .seq _ => "seq"
      | .map _ => "map"

end Value

end Reentry
