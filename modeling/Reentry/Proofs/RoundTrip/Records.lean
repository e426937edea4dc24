import Reentry.Json.Record
import Reentry.Program.Writer
import Reentry.Proofs.RoundTrip.Lexed

/-!
Typed data that was written is read back: words and integers in their whole range, lists item by item, options whether
something is there or not, and records field by field. A record that has all its fields is read as those fields, whatever
may be left out of it, since a name stands in it only once.
-/

namespace Reentry

namespace Json

section Steps

variable {α β : Type} {read : Option α} {value : α}

/-- A reader goes on with what its first step has read. -/
theorem read_bind {next : α → Option β} {result : β} (found : read = some value) (goes : next value = some result) :
    (read >>= next) = some result := by
  rw [found]
  exact goes

theorem read_map {make : α → β} (found : read = some value) : make <$> read = some (make value) := by
  rw [found]
  rfl

theorem mapM_map {write : α → β} {read : β → Option α} {items : List α} (each : ∀ item ∈ items, read (write item) = some item) :
    (items.map write).mapM read = some items := by
  induction items with
  | nil => rfl
  | cons item items ih =>
      rw [List.map_cons, List.mapM_cons]
      exact read_bind (each item List.mem_cons_self) (read_bind (ih fun item member => each item (List.mem_cons_of_mem _ member)) rfl)

end Steps

section Parts

variable {α : Type} {write : α → Json} {read : Json → Option α}

theorem readList?_map {items : List α} (each : ∀ item ∈ items, read (write item) = some item) :
    readList? read (.arr (items.map write)) = some items := mapM_map each

/-- An option is read back as long as nothing that is there is written as null. -/
theorem readOptional?_ofOption {value : Option α} (each : ∀ item ∈ value, write item ≠ .null ∧ read (write item) = some item) :
    readOptional? read (some (ofOption write value)) = some value := by
  cases value with
  | none => rfl
  | some item =>
      obtain ⟨there, reads⟩ := each item rfl
      simp only [readOptional?, ofOption]
      exact read_map reads

theorem readUInt32?_ofUInt32 (word : UInt32) : readUInt32? (.ofUInt32 word) = some word := by
  have bound : word.toNat < UInt32.size := word.toNat_lt
  change (if word.toNat < UInt32.size then some word.toNat else none).map UInt32.ofNat = _
  rw [if_pos bound, Option.map_some, UInt32.ofNat_toNat]

/-- A name that is a number. -/
theorem read_word {Name : Type} (make : UInt32 → Name) (word : UInt32) : (readUInt32? (.ofUInt32 word)).map make = some (make word) := by
  rw [readUInt32?_ofUInt32]
  rfl

theorem readInt64?_toInt (value : Int64) : readInt64? (.int value.toInt) = some value := by
  have bounds : Int64.minValue.toInt ≤ value.toInt ∧ value.toInt ≤ Int64.maxValue.toInt := ⟨value.le_toInt, value.toInt_le⟩
  rw [readInt64?, if_pos bounds, Int64.ofInt_toInt]

/-- The key of a numeral is that number. -/
theorem keyNumber?_natText (word : UInt32) : keyNumber? (Decimal.natText word.toNat : Key) = some word := by
  have token : Lexer.numberToken? (Decimal.natText word.toNat).toList = some (.int word.toNat) := by
    rw [Decimal.natText, String.toList_ofList]
    exact Lexer.numberToken?_intDigits word.toNat
  simp only [keyNumber?, token]
  exact readUInt32?_ofUInt32 word

end Parts

/-- A record with its fields in order. -/
def record (fields : List Field) (values : List Json) : Json :=
  .obj (fields.zipWith (fun field value => ((field.name : Key), value)) values)

section Records

theorem member?_eq {members : List (Key × Json)} {key : Key} {value : Json} (distinct : (members.map (·.1.text)).Nodup)
    (member : (key, value) ∈ members) : member? key.text members = some (some value) := by
  have only : members.filter (·.1.text == key.text) = [(key, value)] := by
    induction members with
    | nil => cases member
    | cons first rest ih =>
        simp only [List.map_cons, List.nodup_cons] at distinct
        rcases List.mem_cons.mp member with rfl | later
        · have others : rest.filter (·.1.text == key.text) = [] := List.filter_eq_nil_iff.mpr fun other among same =>
            distinct.1 (eq_of_beq same ▸ List.mem_map_of_mem among)
          rw [List.filter_cons, if_pos (beq_self_eq_true _), others]
        · have other : (first.1.text == key.text) = false := beq_false_of_ne fun same =>
            distinct.1 (same ▸ List.mem_map_of_mem (f := (·.1.text)) later)
          rw [List.filter_cons, if_neg (by simp [other]), ih distinct.2 later]
  rw [member?, only]

theorem record_names {fields : List Field} {values : List Json} (full : values.length = fields.length) :
    (fields.zipWith (fun field value => ((field.name : Key), value)) values).map (·.1.text) = fields.map Field.name := by
  induction fields generalizing values with
  | nil => rfl
  | cons field fields ih =>
      cases values with
      | nil => cases full
      | cons value values => simp [ih (Nat.succ.inj full)]

/-- Fields that are among the members of an object are found there. -/
theorem namedFields?_eq {members : List (Key × Json)} (distinct : (members.map (·.1.text)).Nodup) {fields : List Field} {values : List Json}
    (full : values.length = fields.length)
    (within : ∀ member ∈ fields.zipWith (fun field value => ((field.name : Key), value)) values, member ∈ members) :
    namedFields? members fields = some (values.map some) := by
  induction fields generalizing values with
  | nil =>
      rw [List.eq_nil_of_length_eq_zero full]
      rfl
  | cons field fields ih =>
      cases values with
      | nil => cases full
      | cons value values =>
          refine read_bind (member?_eq distinct (within _ List.mem_cons_self)) ?_
          exact read_map (ih (Nat.succ.inj full) fun member among => within member (List.mem_cons_of_mem _ among))

/-- A record that has all its fields is read as these. -/
theorem record?_record {fields : List Field} (values : List Json) (distinct : (fields.map Field.name).Nodup)
    (full : values.length = fields.length) : record? fields (record fields values) = some (values.map some) :=
  namedFields?_eq (by rw [record_names full]; exact distinct) full fun _ among => among

end Records

section Depth

theorem depth_lt_arr {items : List Json} {item : Json} (member : item ∈ items) : item.depth < (arr items).depth := by
  have bound : item.depth ≤ itemsDepth items := by
    induction items with
    | nil => cases member
    | cons first rest ih =>
        rw [itemsDepth]
        rcases List.mem_cons.mp member with rfl | later
        · exact Nat.le_max_left ..
        · exact (ih later).trans (Nat.le_max_right ..)
  rw [depth]
  omega

theorem depth_lt_obj {members : List (Key × Json)} {key : Key} {value : Json} (member : (key, value) ∈ members) :
    value.depth < (obj members).depth := by
  have bound : value.depth ≤ membersDepth members := by
    induction members with
    | nil => cases member
    | cons first rest ih =>
        obtain ⟨_, other⟩ := first
        rw [membersDepth]
        rcases List.mem_cons.mp member with same | later
        · cases same
          exact Nat.le_max_left ..
        · exact (ih later).trans (Nat.le_max_right ..)
  rw [depth]
  omega

theorem depth_lt_tagged (name : String) (contents : Json) : contents.depth < (tagged name contents).depth := depth_lt_obj List.mem_cons_self

end Depth

section Whole

theorem whole_arr {items : List Json} (each : ∀ item ∈ items, item.IsWhole) : (arr items).IsWhole := by
  change ItemsWhole items
  induction items with
  | nil => trivial
  | cons item items ih => exact ⟨each item List.mem_cons_self, ih fun item member => each item (List.mem_cons_of_mem _ member)⟩

theorem whole_obj {members : List (Key × Json)} (each : ∀ member ∈ members, member.1.isEscaped = escapes member.1.text ∧ member.2.IsWhole) :
    (obj members).IsWhole := by
  change MembersWhole members
  induction members with
  | nil => trivial
  | cons member members ih =>
      obtain ⟨plain, whole⟩ := each member List.mem_cons_self
      exact ⟨plain, whole, ih fun member among => each member (List.mem_cons_of_mem _ among)⟩

end Whole

end Json

end Reentry
