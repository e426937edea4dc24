import Reentry.Proofs.Forest.Values

/-!
Custody of cells. Running code has values in hand: some of them nothing else names, others may have other names. How
strict one is about the latter depends on what is to be shown, but what code does with values is the same: it drops
them, packs them into cells, stores them, takes cells apart, lets a value of its own be named by others as well and,
where that is allowed, names once more what has a name.
-/

namespace Reentry

/-- Values in hand: those that nothing else names, and those that may have other names. -/
structure Stake where
  own : List Value
  lent : List Value

namespace Stake

instance : Append Stake := ⟨fun first rest => ⟨first.own ++ rest.own, first.lent ++ rest.lent⟩⟩

@[simp] theorem own_append (first rest : Stake) : (first ++ rest).own = first.own ++ rest.own := rfl

@[simp] theorem lent_append (first rest : Stake) : (first ++ rest).lent = first.lent ++ rest.lent := rfl

def none : Stake := ⟨[], []⟩

@[simp] theorem none_append (stake : Stake) : none ++ stake = stake := rfl

@[simp] theorem own_none : none.own = [] := rfl

@[simp] theorem lent_none : none.lent = [] := rfl

/-- Values are dropped, or come to have other names. -/
structure Less (fewer more : Stake) : Prop where
  own : Fewer fewer.own more.own
  all : Fewer (fewer.own ++ fewer.lent) (more.own ++ more.lent)

namespace Less

variable {first second third fourth : Stake}

theorem refl (stake : Stake) : stake.Less stake := ⟨.refl _, .refl _⟩

theorem trans (left : first.Less second) (right : second.Less third) : first.Less third :=
  ⟨left.own.trans right.own, left.all.trans right.all⟩

theorem none (stake : Stake) : Stake.none.Less stake := ⟨.nil _, .nil _⟩

theorem append (left : first.Less second) (right : third.Less fourth) : (first ++ third).Less (second ++ fourth) := by
  refine ⟨left.own.append right.own, fun address => ?_⟩
  have := left.all address
  have := right.all address
  simp only [own_append, lent_append, List.count_append] at *
  omega

/-- Only values that may have other names are concerned. -/
theorem ofLent {own fewer more : List Value} (less : Fewer fewer more) : (⟨own, fewer⟩ : Stake).Less ⟨own, more⟩ :=
  ⟨.refl own, (Fewer.refl own).append less⟩

theorem ofOwn {fewer more lent : List Value} (less : Fewer fewer more) : (⟨fewer, lent⟩ : Stake).Less ⟨more, lent⟩ :=
  ⟨less, less.append (.refl lent)⟩

/-- Others may name a value of one's own. -/
theorem lend (values own lent : List Value) : (⟨own, values ++ lent⟩ : Stake).Less ⟨values ++ own, lent⟩ := by
  refine ⟨.of_sublist (List.sublist_append_right values own), fun address => ?_⟩
  simp only [List.count_append]
  omega

end Less

/-- Values that were evaluated: if nothing else names them they are in hand so; otherwise they are if they may be. -/
def of (shares owned : Bool) (values : List Value) : Stake :=
  if owned then ⟨values, []⟩ else if shares then ⟨[], values⟩ else none

section

variable {shares owned : Bool} {values : List Value}

@[simp] theorem of_owned : of shares true values = ⟨values, []⟩ := rfl

@[simp] theorem of_shared : of true false values = ⟨[], values⟩ := rfl

@[simp] theorem of_unshared : of false false values = none := rfl

/-- What nothing else names may be taken for something that has other names. -/
theorem of_less (shares owned : Bool) (values : List Value) : (of shares false values).Less (of shares owned values) := by
  cases owned
  · exact .refl _
  · cases shares
    · exact .none _
    · simpa using Less.lend values [] []

theorem of_scalar {value : Value} (shares owned : Bool) (scalar : ∀ address, value ≠ .cell address) :
    (of shares owned [value]).Less none := by
  cases owned <;> cases shares
  · exact .none _
  · exact .ofLent (.scalar scalar [])
  all_goals exact ⟨.scalar scalar [], .scalar scalar []⟩

/-- What may be in hand may have other names. -/
theorem lent_less (may : shares = true ∨ owned = true) (values : List Value) :
    (⟨[], values⟩ : Stake).Less (of shares owned values) := by
  cases owned
  · rcases may with rfl | no
    · exact .refl _
    · cases no
  · simpa using Less.lend values [] []

/-- Values that were evaluated one after the other. -/
theorem of_cons (owned other : Bool) (value : Value) (values : List Value) :
    (of shares (owned && other) (value :: values)).Less (of shares other values ++ of shares owned [value]) := by
  cases shares <;> cases owned <;> cases other
  case false.true.true | true.true.true => 
    exact .ofOwn (.of_perm (List.perm_append_singleton value values).symm)
  case true.false.false | true.false.true | true.true.false =>
    refine ⟨.nil _, fun address => ?_⟩
    simp only [Bool.and_false, Bool.false_and, of_shared, of_owned, own_append, lent_append, List.count_append, List.count_nil, List.count_cons]
    omega
  all_goals exact .none _

end

end Stake

/-- How cells are looked after: when a heap and the values in hand are fine. -/
structure Custody where
  /-- Whether what has a name may be named once more. -/
  shares : Bool
  keeps : Heap → Stake → Prop
  less {heap : Heap} {fewer more : Stake} (kept : keeps heap more) (less : fewer.Less more) : keeps heap fewer
  allocate {heap : Heap} {own lent : List Value} {cell : Cell} (kept : keeps heap ⟨cell.contents ++ own, lent⟩) :
    keeps (heap.allocate cell) ⟨.cell heap.next :: own, lent⟩
  write {heap : Heap} {values own lent : List Value} {address : Address} {cell : Cell} (kept : keeps heap ⟨values ++ own, lent⟩)
    (made : Fewer cell.contents (values ++ (heap.read address).contents)) : keeps (heap.write address cell) ⟨own, lent⟩
  unpack {heap : Heap} {own lent : List Value} {address : Address} (kept : keeps heap ⟨.cell address :: own, lent⟩) :
    keeps heap ⟨(heap.read address).contents ++ own, lent⟩
  share {heap : Heap} {own lent : List Value} {value : Value} (shared : shares = true) (kept : keeps heap ⟨own, lent⟩)
    (member : value ∈ lent) : keeps heap ⟨own, value :: lent⟩
  part {heap : Heap} {own lent : List Value} {address : Address} {value : Value} (shared : shares = true)
    (kept : keeps heap ⟨own, lent⟩) (member : .cell address ∈ lent) (inside : value ∈ (heap.read address).contents) :
    keeps heap ⟨own, value :: lent⟩
  around {heap : Heap} {own lent : List Value} {cell : Cell} (shared : shares = true) (kept : keeps heap ⟨own, lent⟩)
    (members : ∀ value ∈ cell.contents, value ∈ lent) : keeps (heap.allocate cell) ⟨own, .cell heap.next :: lent⟩

namespace Custody

theorem tends (custody : Custody) (lent : List Value) : Heap.Tends fun heap own => custody.keeps heap ⟨own, lent⟩ :=
  ⟨fun kept less => custody.less kept (.ofOwn less), custody.allocate, custody.write, custody.unpack⟩

/-- Nothing has two names. -/
def grove : Custody where
  shares := false
  keeps heap stake := heap.Grove (stake.own ++ stake.lent)
  less kept less := kept.mono less.all
  allocate kept := by
    rw [List.append_assoc] at kept
    exact kept.allocate
  write kept made := by
    rw [List.append_assoc] at kept
    exact kept.write made
  unpack kept := by
    rw [List.append_assoc]
    exact Heap.Grove.unpack kept
  share shared := by cases shared
  part shared := by cases shared
  around shared := by cases shared

end Custody

end Reentry
