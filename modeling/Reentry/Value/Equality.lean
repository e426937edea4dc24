import Reentry.Value.Heap

/-!
Equality of values and the search for a key among the entries of a map. Values are equal if they have the
same structure, whatever cells they are stored in; two names of one cell are equal without a look inside.
A comparison goes no further than it has to, so it may end although a value is part of itself.

A fingerprint is a cheap view of a value: equal values look the same. Entries keep the fingerprint that
their key had when they were made. As long as keys stay unchanged that tells nothing new; an entry whose
key has changed since is out of reach for whatever does not look as the key once did.
-/

namespace Reentry

/-! Tests of which some may be cut off. They are made one after the other, and only as far as they tell
something new. -/

section

variable {α β : Type}

/-- Whether a test holds of all items. -/
def every? (test : α → Option Bool) : List α → Option Bool
  | [] => some true
  | item :: rest => do if ← test item then every? test rest else some false

/-- Whether a test holds of all items of two lists of one length, pair by pair. -/
def everyPair? (test : α → β → Option Bool) : List α → List β → Option Bool
  | left :: lefts, right :: rights => do if ← test left right then everyPair? test lefts rights else some false
  | [], [] => some true
  | _, _ => some false

/-- Index of the first item of which a test holds. -/
def firstWhere? (test : α → Option Bool) : List α → Option (Option Nat)
  | [] => some none
  | item :: rest => do if ← test item then some (some 0) else some ((← firstWhere? test rest).map (· + 1))

end

/-- Index of the entry with an equal key. Where there is but one entry the keys alone are compared. -/
def Entry.find? (marks : Value → Fingerprint) (equal : Value → Value → Option Bool) (key : Value) :
    List Entry → Option (Option Nat)
  | [] => some none
  | [entry] => firstWhere? (fun entry => equal key entry.key) [entry]
  | entries =>
      let look := marks key
      firstWhere? (fun entry => if look == entry.imprint then equal key entry.key else some false) entries

namespace Heap

/-- Marks of a value, unless they lie more than `levels` cells deep. A map shows its size and no more:
equal maps may have their entries in any order. -/
def marksWithin? (heap : Heap) : Nat → Value → Option Fingerprint
  | _, .null => some [.null]
  | _, .bool value => some [.bool value]
  | _, .int value => some [.int value]
  | _, .event id => some [.event id]
  | _, .halt => some [.halt]
  | _, .machine id => some [.machine id]
  | 0, .cell _ => none
  | levels + 1, .cell address =>
      match heap.read address with
      | .tuple items => (items.mapM (heap.marksWithin? levels)).map (.tuple items.length :: ·.flatten)
      | .named fields =>
          (fields.mapM fun field => heap.marksWithin? levels field.2).map
            (.named (fields.map (·.1)) :: ·.flatten)
      | .seq items => (items.mapM (heap.marksWithin? levels)).map (.seq items.length :: ·.flatten)
      | .map entries => some [.map entries.length]

/-- Fingerprint of a value. A path that passes no cell twice is no longer than the heap; a value whose
marks have no end has none. -/
def fingerprint (heap : Heap) (value : Value) : Fingerprint := (heap.marksWithin? (heap.size + 1) value).getD []

/-- Equality of values, unless it takes more than `levels` nested comparisons of cells. Maps of one size
are equal if each key of the first is bound in the second to an equal value; everything else is compared
in order. -/
def equalWithin? (heap : Heap) : Nat → Value → Value → Option Bool
  | 0, .cell _, .cell _ => none
  | levels + 1, .cell leftAddress, .cell rightAddress =>
      if leftAddress = rightAddress then some true
      else
        match heap.read leftAddress, heap.read rightAddress with
        | .tuple left, .tuple right | .seq left, .seq right =>
            if left.length = right.length then everyPair? (heap.equalWithin? levels) left right else some false
        | .named left, .named right =>
            if left.map (·.1) = right.map (·.1) then
              everyPair? (fun field other => heap.equalWithin? levels field.2 other.2) left right
            else some false
        | .map left, .map right =>
            if left.length = right.length then
              every? (fun entry => do
                match (← Entry.find? heap.fingerprint (heap.equalWithin? levels) entry.key right).bind (right[·]?) with
                | some other => heap.equalWithin? levels entry.value other.value
                | none => some false) left
            else some false
        | _, _ => some false
  | _, left, right => some (left == right)

/-- Comparison of values. One that is nested deeper than there are pairs of cells compares some pair
within itself and would never end. -/
def equal? (heap : Heap) (left right : Value) : Option Bool := heap.equalWithin? (heap.size * heap.size + 1) left right

/-- Equality of values; a comparison without end counts as a difference. -/
def equal (heap : Heap) (left right : Value) : Bool := (heap.equal? left right).getD false

/-- Index of the entry that a look-up of the key finds. -/
def entryIndex? (heap : Heap) (key : Value) (entries : List Entry) : Option Nat :=
  (Entry.find? heap.fingerprint heap.equal? key entries).join

/-- Index of the entry that a new binding of the key replaces. -/
def boundIndex? (heap : Heap) (key : Value) (entries : List Entry) : Option Nat :=
  let look := heap.fingerprint key
  entries.findIdx? fun entry => look == entry.imprint && heap.equal key entry.key

/-- Binds a key: an entry that has it already gets the value and keeps its own key, and a new entry comes
last. Also gives the value that was replaced. -/
def bind (heap : Heap) (key value : Value) (entries : List Entry) : List Entry × Option Value :=
  match heap.boundIndex? key entries with
  | some index => (entries.modify index ({ · with value }), entries[index]?.map (·.value))
  | none => (entries ++ [⟨key, heap.fingerprint key, value⟩], none)

end Heap

/-- A new map with these bindings, made one after the other. -/
def Cell.newMap (bindings : List (Value × Value)) : Alloc Value := do
  let heap ← get
  Cell.new (.map (bindings.foldl (fun entries (key, value) => (heap.bind key value entries).1) []))

end Reentry
