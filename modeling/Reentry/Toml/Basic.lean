/-!
TOML values and the rules about adding to tables. A table remembers how it came to be, since that decides
what may still be added: a header may come back to a table that was only passed on the way to another
one, a dotted key may add to what dotted keys made, and a table in braces is closed.
-/

namespace Reentry

inductive TableOrigin where
  /-- Under a header of its own. -/
  | header
  /-- Passed by the header of a table inside it. -/
  | passed
  /-- Made by a dotted key. -/
  | dotted
  /-- Written in braces. -/
  | braces
deriving DecidableEq, Repr

inductive Toml where
  | bool (value : Bool)
  | int (value : Int64)
  | real (numeral : String)
  | str (text : String)
  | time (text : String)
  | arr (items : List Toml)
  | table (origin : TableOrigin) (entries : List (String × Toml))
  /-- Tables under one repeated header. -/
  | tables (items : List (List (String × Toml)))
deriving Repr

namespace Toml

abbrev Entries := List (String × Toml)

def find? (key : String) (entries : Entries) : Option Toml :=
  (entries.find? (·.1 == key)).map (·.2)

/-- Overwrites the value of a key where it stands. -/
def replace (key : String) (value : Toml) (entries : Entries) : Entries :=
  entries.map fun entry => if entry.1 == key then (key, value) else entry

/-- Changes the table that the path of a header leads to. Tables on the way are made if they are
missing; of repeated tables the last counts. -/
def modifyAt (change : Entries → Option Entries) : List String → Entries → Option Entries
  | [], entries => change entries
  | key :: path, entries =>
      match find? key entries with
      | none => do some (entries ++ [(key, .table .passed (← modifyAt change path []))])
      | some (.table origin inner) =>
          if origin = .braces then none
          else do some (replace key (.table origin (← modifyAt change path inner)) entries)
      | some (.tables items) => do
          some (replace key (.tables (items.dropLast ++ [← modifyAt change path (← items.getLast?)])) entries)
      | some _ => none

/-- Whether a dotted key may pass a table; the last table that it passes takes the value. -/
def mayPass (origin : TableOrigin) (takesValue : Bool) : Bool :=
  match origin with
  | .dotted => true
  | .passed => !takesValue
  | .header | .braces => false

/-- Adds a value under a key, which may be dotted. -/
def insertAt (value : Toml) : List String → Entries → Option Entries
  | [], _ => none
  | [key], entries => if (find? key entries).isSome then none else some (entries ++ [(key, value)])
  | key :: path, entries =>
      match find? key entries with
      | none => do some (entries ++ [(key, .table .dotted (← insertAt value path []))])
      | some (.table origin inner) =>
          if mayPass origin (path.length == 1) then do
            some (replace key (.table origin (← insertAt value path inner)) entries)
          else none
      | some (.tables items) =>
          if path.length == 1 then none
          else do
            some (replace key (.tables (items.dropLast ++ [← insertAt value path (← items.getLast?)])) entries)
      | some _ => none

/-- Opens the table of a header. -/
def openTable (key : String) (entries : Entries) : Option Entries :=
  match find? key entries with
  | none => some (entries ++ [(key, .table .header [])])
  | some (.table .passed inner) => some (replace key (.table .header inner) entries)
  | some _ => none

/-- Opens another table of a repeated header. -/
def openRepeated (key : String) (entries : Entries) : Option Entries :=
  match find? key entries with
  | none => some (entries ++ [(key, .tables [[]])])
  | some (.tables items) => some (replace key (.tables (items ++ [[]])) entries)
  | some _ => none

/-- The table in braces with these keys and values. -/
def ofPairs? (pairs : List (List String × Toml)) : Option Toml := do
  some (.table .braces (← pairs.foldlM (fun entries (path, value) => insertAt value path entries) []))

/-- Contents of the named fields of a record. A list gives them in order, without names, and may be
shorter or longer. -/
def record? (names : List String) : Toml → Option (List (Option Toml))
  | .table _ entries => some (names.map (find? · entries))
  | .tables items => some (names.zipIdx.map fun (_, index) => items[index]?.map (.table .header))
  | .arr items => some (names.zipIdx.map fun (_, index) => items[index]?)
  | .time _ => some (names.map fun _ => none)
  | _ => none

end Toml

end Reentry
