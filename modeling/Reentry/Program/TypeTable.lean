import Reentry.Program.Name
import Reentry.Program.Ty

/-!
Types of subexpressions, by node. A table binds each node at most once: writing a node again replaces
its type in place.
-/

namespace Reentry

structure TypeTable where
  entries : List (NodeId × Ty)
  distinct : (entries.map (·.1)).Nodup

namespace TypeTable

def empty : TypeTable := ⟨[], List.nodup_nil⟩

instance : Inhabited TypeTable := ⟨empty⟩

def find? (table : TypeTable) (node : NodeId) : Option Ty :=
  (table.entries.find? (·.1 == node)).map (·.2)

/-- Rebinds the node where it stands, or adds it at the end. -/
def putEntry (node : NodeId) (ty : Ty) : List (NodeId × Ty) → List (NodeId × Ty)
  | [] => [(node, ty)]
  | entry :: rest => if entry.1 = node then (node, ty) :: rest else entry :: putEntry node ty rest

theorem mem_keys_putEntry {node other : NodeId} {ty : Ty} {entries : List (NodeId × Ty)}
    (member : other ∈ (putEntry node ty entries).map (·.1)) :
    other = node ∨ other ∈ entries.map (·.1) := by
  induction entries with
  | nil => simpa [putEntry] using member
  | cons entry rest induction =>
      unfold putEntry at member
      split at member
      · simp only [List.map_cons, List.mem_cons] at member ⊢
        exact member.imp_right .inr
      · simp only [List.map_cons, List.mem_cons] at member ⊢
        rcases member with first | later
        · exact .inr (.inl first)
        · exact (induction later).imp_right .inr

theorem nodup_putEntry (node : NodeId) (ty : Ty) {entries : List (NodeId × Ty)}
    (distinct : (entries.map (·.1)).Nodup) : ((putEntry node ty entries).map (·.1)).Nodup := by
  induction entries with
  | nil => simp [putEntry]
  | cons entry rest induction =>
      simp only [List.map_cons, List.nodup_cons] at distinct
      unfold putEntry
      split
      · rename_i same
        simpa [← same] using distinct
      · rename_i other
        simp only [List.map_cons, List.nodup_cons]
        refine ⟨fun member => ?_, induction distinct.2⟩
        rcases mem_keys_putEntry member with same | later
        · exact other same
        · exact distinct.1 later

def insert (table : TypeTable) (node : NodeId) (ty : Ty) : TypeTable :=
  ⟨putEntry node ty table.entries, nodup_putEntry node ty table.distinct⟩

/-- Of several entries for one node the last one counts. -/
def ofList (entries : List (NodeId × Ty)) : TypeTable :=
  entries.foldl (fun table entry => table.insert entry.1 entry.2) empty

end TypeTable

end Reentry
