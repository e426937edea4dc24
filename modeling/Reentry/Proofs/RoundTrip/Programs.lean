import Reentry.Lowering.Program
import Reentry.Proofs.RoundTrip.Nodes
import Reentry.Proofs.RoundTrip.Parsed

/-!
A program is read back from its text, unless it nests deeper than the reader goes. The text spells the numbers of nodes in
type tables as keys; in a table they are distinct, so that none of its entries is replaced by another.
-/

namespace Reentry

open Json

namespace TypeTable

theorem putEntry_fresh {node : NodeId} {ty : Ty} {entries : List (NodeId × Ty)} (fresh : node ∉ entries.map (·.1)) :
    putEntry node ty entries = entries ++ [(node, ty)] := by
  induction entries with
  | nil => rfl
  | cons entry entries ih =>
      simp only [List.map_cons, List.mem_cons, not_or] at fresh
      rw [putEntry, if_neg (Ne.symm fresh.1), ih fresh.2, List.cons_append]

/-- Entries for nodes that are not in the table yet are added in order. -/
theorem entries_foldl {table : TypeTable} {entries : List (NodeId × Ty)} (distinct : ((table.entries ++ entries).map (·.1)).Nodup) :
    (entries.foldl (fun table entry => table.insert entry.1 entry.2) table).entries = table.entries ++ entries := by
  induction entries generalizing table with
  | nil => simp
  | cons entry entries ih =>
      have fresh : entry.1 ∉ table.entries.map (·.1) := fun member => by
        simp only [List.map_append, List.map_cons, List.nodup_append, List.mem_cons] at distinct
        exact distinct.2.2 _ member _ (.inl rfl) rfl
      have added : (table.insert entry.1 entry.2).entries = table.entries ++ [entry] := putEntry_fresh fresh
      rw [List.foldl_cons, ih (by rw [added, List.append_assoc]; exact distinct), added, List.append_assoc]
      rfl

theorem ofList_entries (table : TypeTable) : ofList table.entries = table := by
  have same : (ofList table.entries).entries = table.entries := entries_foldl table.distinct
  cases read : ofList table.entries with
  | mk entries distinct =>
      rw [read] at same
      obtain ⟨entries', distinct'⟩ := table
      cases same
      rfl

theorem read?_toJson (table : TypeTable) : read? table.toJson = some table := by
  refine read_bind (mapM_map fun entry _ => ?_) (congrArg some table.ofList_entries)
  exact read_bind (keyNumber?_natText entry.1.index) (read_bind entry.2.read?_toJson rfl)

theorem whole_toJson (table : TypeTable) : table.toJson.IsWhole :=
  whole_obj (List.forall_mem_map.mpr fun entry _ => ⟨(escapes_natText _).symm, entry.2.whole_toJson⟩)

end TypeTable

section Declarations

theorem VarDecl.read?_toJson (decl : VarDecl) : read? decl.toJson = some decl := by
  refine read_bind (record?_record [.str decl.name, .ofUInt32 decl.slot, decl.ty.toJson] (by decide) rfl) ?_
  exact read_bind rfl (read_bind (readUInt32?_ofUInt32 _) (read_bind decl.ty.read?_toJson rfl))

theorem VarDecl.whole_toJson (decl : VarDecl) : decl.toJson.IsWhole := ⟨rfl, trivial, rfl, trivial, rfl, decl.ty.whole_toJson, trivial⟩

theorem FunctionInfo.read?_toJson (info : FunctionInfo) : read? info.toJson = some info := by
  refine read_bind (record?_record [.str info.name, .arr (info.params.map VarDecl.toJson), .arr (info.locals.map VarDecl.toJson),
    .ofOption Ty.toJson info.returnType, .ofUInt32 info.slotCount, .ofOption MachineTypeId.toJson info.owner, info.types.toJson,
    info.body.toJson] (by decide) rfl) ?_
  have returnType : readOptional? Ty.read? (some (ofOption Ty.toJson info.returnType)) = some info.returnType :=
    readOptional?_ofOption fun ty _ => ⟨by cases ty <;> rintro ⟨⟩, ty.read?_toJson⟩
  have owner : readOptional? MachineTypeId.read? (some (ofOption MachineTypeId.toJson info.owner)) = some info.owner :=
    readOptional?_ofOption fun machine _ => ⟨by rintro ⟨⟩, read_word MachineTypeId.mk machine.index⟩
  refine read_bind rfl (read_bind (readList?_map fun decl _ => decl.read?_toJson) (read_bind (readList?_map fun decl _ => decl.read?_toJson) ?_))
  refine read_bind returnType (read_bind (readUInt32?_ofUInt32 _) (read_bind owner ?_))
  exact read_bind info.types.read?_toJson (read_bind info.body.read?_toJson rfl)

theorem FunctionInfo.whole_toJson (info : FunctionInfo) : info.toJson.IsWhole := by
  have decls (decls : List VarDecl) : (Json.arr (decls.map VarDecl.toJson)).IsWhole := whole_arr (List.forall_mem_map.mpr fun decl _ => decl.whole_toJson)
  have returnType : (ofOption Ty.toJson info.returnType).IsWhole := by
    cases info.returnType with
    | none => trivial
    | some ty => exact ty.whole_toJson
  have owner : (ofOption MachineTypeId.toJson info.owner).IsWhole := by
    cases info.owner <;> trivial
  exact ⟨rfl, trivial, rfl, decls _, rfl, decls _, rfl, returnType, rfl, trivial, rfl, owner, rfl, info.types.whole_toJson, rfl,
    info.body.whole_toJson, trivial⟩

theorem MachineDecl.read?_toJson (decl : MachineDecl) : read? decl.toJson = some decl := by
  refine read_bind (record?_record [.str decl.name, .arr (decl.fields.map VarDecl.toJson), .arr (decl.states.map .str)] (by decide) rfl) ?_
  exact read_bind rfl (read_bind (readList?_map fun field _ => field.read?_toJson) (read_bind (readList?_map fun _ _ => rfl) rfl))

theorem MachineDecl.whole_toJson (decl : MachineDecl) : decl.toJson.IsWhole :=
  ⟨rfl, trivial, rfl, whole_arr (List.forall_mem_map.mpr fun field _ => field.whole_toJson), rfl,
    whole_arr (List.forall_mem_map.mpr fun _ _ => trivial), trivial⟩

theorem EventDecl.read?_toJson (decl : EventDecl) : read? decl.toJson = some decl :=
  read_bind (record?_record [.str decl.name] (by decide) rfl) (read_bind rfl rfl)

theorem EventDecl.whole_toJson (decl : EventDecl) : decl.toJson.IsWhole := ⟨rfl, trivial, trivial⟩

end Declarations

namespace Program

theorem read?_toJson (program : Program) : read? program.toJson = some program := by
  refine read_bind (record?_record [.str program.file, .arr (program.functions.map FunctionInfo.toJson),
    .arr (program.machines.map MachineDecl.toJson), .arr (program.events.map EventDecl.toJson)] (by decide) rfl) ?_
  refine read_bind rfl (read_bind (readList?_map fun info _ => info.read?_toJson) ?_)
  exact read_bind (readList?_map fun decl _ => decl.read?_toJson) (read_bind (readList?_map fun decl _ => decl.read?_toJson) rfl)

theorem whole_toJson (program : Program) : program.toJson.IsWhole :=
  ⟨rfl, trivial, rfl, whole_arr (List.forall_mem_map.mpr fun info _ => info.whole_toJson), rfl,
    whole_arr (List.forall_mem_map.mpr fun decl _ => decl.whole_toJson), rfl,
    whole_arr (List.forall_mem_map.mpr fun decl _ => decl.whole_toJson), trivial⟩

end Program

/-- A program whose text does not nest too deep is read back from it, and so is lowered to the same code or refused for the same reason. -/
theorem programs_survive_their_text (program : Program) (fits : program.toJson.depth ≤ Program.nestingLimit) :
    Program.parse? program.text = some program ∧
      ∀ options, (Program.parse? program.text).map (·.lower options) = some (program.lower options) := by
  have reads : Program.parse? program.text = some program := read_bind (parseWithin?_text program.whole_toJson fits) program.read?_toJson
  refine ⟨reads, fun options => ?_⟩
  rw [reads]
  rfl

namespace Sample

def recite : FunctionInfo where
  name := "\"recite\"\\\n"
  params := [⟨"verses", 0, .map .int (.named [("", .seq .any), ("é", .tuple [.machine, .event])])⟩]
  locals := []
  returnType := some .null
  slotCount := 4294967295
  owner := some ⟨0⟩
  types := (TypeTable.empty.insert ⟨4294967295⟩ .bool).insert ⟨0⟩ .null
  body := .mk ⟨0⟩ ⟨1, 1⟩ (.block [
    .mk ⟨1⟩ ⟨2, 1⟩ (.assign (.mk ⟨2⟩ ⟨2, 1⟩ (.name (.field 1))) (.mk ⟨3⟩ ⟨2, 5⟩ (.lit (.int Int64.minValue))) .swap),
    .mk ⟨4⟩ ⟨3, 1⟩ (.receive [⟨.null, ⟨1⟩⟩, ⟨.event ⟨7⟩, ⟨0⟩⟩]),
    .mk ⟨5⟩ ⟨4, 1⟩ (.branch (.mk ⟨6⟩ ⟨4, 4⟩ (.nondet true))
      (.mk ⟨7⟩ ⟨5, 3⟩ (.print "\x08\x1f\x7b0\x7d 😀" (some (.mk ⟨8⟩ ⟨5, 9⟩ (.exprs .move (.mk ⟨9⟩ ⟨5, 9⟩ (.lit .this)) none)))))
      (some (.mk ⟨10⟩ ⟨6, 3⟩ (.assert (.mk ⟨11⟩ ⟨6, 10⟩ (.lit .null)) none)))),
    .mk ⟨12⟩ ⟨7, 1⟩ .pop,
    .mk ⟨13⟩ ⟨8, 1⟩ (.ret none)])

def fable : Program := ⟨"fable.p", [recite], [⟨"Bard", [], ["", "\t"]⟩], [⟨"verse"⟩]⟩

end Sample

theorem fable_survives_its_text : Sample.fable.toJson.depth ≤ Program.nestingLimit ∧
    Program.parse? Sample.fable.text = some Sample.fable ∧
    ∀ options, (Program.parse? Sample.fable.text).map (·.lower options) = some (Sample.fable.lower options) :=
  ⟨by decide +kernel, programs_survive_their_text Sample.fable (by decide +kernel)⟩

end Reentry
