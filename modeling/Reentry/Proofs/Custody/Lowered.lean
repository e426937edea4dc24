import Reentry.Proofs.Custody.Plain

/-!
Lowered code looks after cells. The code of a statement is fair if the statement stores into containers only what is
copied or computed, and swaps variables only; and what a call returns is always taken up right behind the call.
-/

namespace Reentry

/-- Whether the node is a variable, and no part of a container. -/
def Node.isVariable : Node → Bool
  | .mk _ _ (.name _) => true
  | _ => false

mutual

/-- Whether the cells of a list swap variables only. -/
def Node.swapsVariables : Node → Bool
  | .mk _ _ (.exprs qualifier head tail) => (qualifier != .swap || head.isVariable) && listSwapsVariables tail
  | .mk _ _ (.namedExprs _ _ tail) => listSwapsVariables tail
  | _ => true

def listSwapsVariables : Option Node → Bool
  | none => true
  | some cell => cell.swapsVariables

end

/-- Whether the statement stores into containers nothing that has another name. -/
def NodeKind.storesOwned : NodeKind → Bool
  | .assign _ _ .none => true
  | .assign lhs rhs .move => lhs.isVariable || rhs.isOwned
  | .assign lhs rhs .swap => lhs.isVariable && rhs.isVariable
  | .insert _ entry => entry.isOwned
  | .call _ args _ => listSwapsVariables args
  | _ => true

/-- A statement that stores into containers nothing that has another name, and names nothing twice unless that is allowed. -/
def NodeKind.Tends (shares : Bool) (kind : NodeKind) : Prop := kind.storesOwned ∧ (shares = true ∨ kind.isPlain)

mutual

theorem Node.swapsVariables_of_isPlain : (cell : Node) → cell.isPlain → cell.swapsVariables
  | .mk _ _ kind, plain => by
      cases kind with
      | exprs qualifier head tail =>
          obtain ⟨own, others⟩ := Bool.and_eq_true_iff.mp plain
          obtain rfl : qualifier = .none := by simpa using (Bool.and_eq_true_iff.mp own).1
          exact listSwapsVariables_of_isPlain tail others
      | namedExprs _ head tail => exact listSwapsVariables_of_isPlain tail (Bool.and_eq_true_iff.mp plain).2
      | _ => rfl

theorem listSwapsVariables_of_isPlain : (list : Option Node) → optionalPlain list → listSwapsVariables list
  | none, _ => rfl
  | some cell, plain => cell.swapsVariables_of_isPlain plain

end

theorem NodeKind.storesOwned_of_isPlain {kind : NodeKind} (plain : kind.isPlain) : kind.storesOwned := by
  cases kind with
  | assign lhs rhs qualifier =>
      obtain rfl : qualifier = .none := by simpa using (Bool.and_eq_true_iff.mp (Bool.and_eq_true_iff.mp plain).1).1
      rfl
  | insert target entry =>
      obtain ⟨first, inner⟩ := Bool.and_eq_true_iff.mp plain
      exact entry.isOwned_of_isPlain inner (by simpa using (Bool.and_eq_true_iff.mp first).1)
  | call _ args _ => exact listSwapsVariables_of_isPlain args (Bool.and_eq_true_iff.mp plain).1
  | _ => rfl

theorem NodeKind.tends_of_isPlain (shares : Bool) {kind : NodeKind} (plain : kind.isPlain) : kind.Tends shares :=
  ⟨storesOwned_of_isPlain plain, .inr plain⟩

mutual

/-- A plain body consists of statements that are plain. -/
theorem Node.every_of_isPlain (shares : Bool) : (node : Node) → node.isPlain →
    node.Every (NodeKind.Tends shares) fun cond => shares = true ∨ cond.isPlain
  | .mk _ _ kind, plain => kind.every_of_isPlain shares plain

theorem NodeKind.every_of_isPlain (shares : Bool) (kind : NodeKind) (plain : kind.isPlain) :
    kind.Every (NodeKind.Tends shares) fun cond => shares = true ∨ cond.isPlain := by
  cases kind with
  | loop cond body =>
      obtain ⟨test, inner⟩ := Bool.and_eq_true_iff.mp plain
      exact ⟨.inr test, body.every_of_isPlain shares inner⟩
  | branch cond onTrue onFalse =>
      obtain ⟨first, other⟩ := Bool.and_eq_true_iff.mp plain
      obtain ⟨test, inner⟩ := Bool.and_eq_true_iff.mp first
      exact ⟨.inr test, onTrue.every_of_isPlain shares inner, optionalEvery_of_isPlain shares onFalse other⟩
  | seq first rest =>
      obtain ⟨left, right⟩ := Bool.and_eq_true_iff.mp plain
      exact ⟨first.every_of_isPlain shares left, rest.every_of_isPlain shares right⟩
  | block statements => exact allEvery_of_isPlain shares statements plain
  | _ => exact NodeKind.tends_of_isPlain shares plain

theorem optionalEvery_of_isPlain (shares : Bool) : (node : Option Node) → optionalPlain node →
    optionalEvery (NodeKind.Tends shares) (fun cond => shares = true ∨ cond.isPlain) node
  | none, _ => trivial
  | some node, plain => node.every_of_isPlain shares plain

theorem allEvery_of_isPlain (shares : Bool) : (nodes : List Node) → allPlain nodes →
    allEvery (NodeKind.Tends shares) (fun cond => shares = true ∨ cond.isPlain) nodes
  | [], _ => trivial
  | node :: rest, plain => by
      obtain ⟨own, others⟩ := Bool.and_eq_true_iff.mp plain
      exact ⟨node.every_of_isPlain shares own, allEvery_of_isPlain shares rest others⟩

end

open Lower

variable {shares owned : Bool} {scope : Lowering.Scope} {start stop : Lowering.Progress} {inNew : Bool}

/-- Every instruction of the code is fair. -/
def FairCode (shares : Bool) (code : List Instr) : Prop := ∀ instr ∈ code, instr.Fair shares

namespace FairCode

variable {first rest code : List Instr}

theorem nil : FairCode shares [] := nofun

theorem cons {instr : Instr} (own : instr.Fair shares) (others : FairCode shares code) : FairCode shares (instr :: code) :=
  List.forall_mem_cons.mpr ⟨own, others⟩

theorem append (left : FairCode shares first) (right : FairCode shares rest) : FairCode shares (first ++ rest) :=
  List.forall_mem_append.mpr ⟨left, right⟩

theorem map {α : Type} {items : List α} {instr : α → Instr} (each : ∀ item ∈ items, (instr item).Fair shares) :
    FairCode shares (items.map instr) := List.forall_mem_map.mpr each

theorem composes : Composes (FairCode shares) where
  nil := nil
  append := append
  waypoint {instr} waypoint := by
    refine .cons ?_ nil
    cases instr <;> trivial
  choose resume choice := by simp [FairCode, Template.choose, Template.suspend, Instr.Fair]
  receive after done arms := by
    refine append (append (append (append (map fun _ _ => trivial) ?_) ?_) ?_) ?_
    · simp [FairCode, Template.suspend, Instr.Fair]
    · simp [FairCode, Instr.Fair]
    · refine List.forall_mem_flatMap.mpr fun arm _ => ?_
      simp [Template.receiveArm, Instr.Fair]
    · simp [FairCode, Instr.Fair]

end FairCode

theorem lowerOptional_fair {node : Option Node} {dest : Option Place} (may : shares = true ∨ optionalPlain node)
    (succeeds : lowerOptional inNew .write node scope start = .ok (dest.map .place, stop)) : ∀ place ∈ dest, place.Fair shares := by
  rintro place rfl
  cases node with
  | none => simp [lowerOptional, pure_eq_ok] at succeeds
  | some node =>
      simp only [lowerOptional, map_eq_ok, Option.map_some, Option.some.injEq] at succeeds
      obtain ⟨_, lowered, rfl⟩ := succeeds
      exact node.lower_gives may lowered

/-- What is handed to a call is fair, and so is what is written back. -/
theorem passed_fair {items : List ListItem} {passed : List Argument} (passes : List.Forall₂ ListItem.Passes items passed)
    (give : ∀ item ∈ items, item.Gives shares owned) : ArgumentsFair shares passed ∧ (owned → argumentsOwned passed) := by
  induction passes with
  | nil => exact ⟨trivial, fun _ => rfl⟩
  | @cons item arg items passed own _ ih =>
      obtain ⟨first, others⟩ := List.forall_mem_cons.mp give
      have gives : arg.value.Gives shares owned := by
        unfold ListItem.Passes at own
        split at own
        · obtain ⟨place, fragment, rfl⟩ := own
          rw [ListItem.Gives, fragment] at first
          exact ⟨first, fun _ => rfl⟩
        · obtain ⟨operand, fragment, rfl⟩ := own
          rw [ListItem.Gives, fragment] at first
          exact Operand.Gives.transferred first
      obtain ⟨operand, _⟩ := arg
      obtain ⟨fair, own⟩ := ih others
      exact ⟨⟨gives.1, fair⟩, fun asked => Bool.and_eq_true_iff.mpr ⟨gives.2 asked, own asked⟩⟩

/-- Whether an element that is swapped is a variable, where values may be named once more. -/
def ListItem.SwapsVariable (shares : Bool) (item : ListItem) : Prop :=
  item.qualifier = .swap → shares = true ∧ ∀ place, item.fragment = .place place → place.isVariable

/-- Variables are lowered to variables. -/
theorem Node.lower_isVariable {node : Node} {place : Place} (named : node.isVariable)
    (succeeds : node.lower inNew .write scope start = .ok (.place place, stop)) : place.isVariable := by
  obtain ⟨id, span, kind⟩ := node
  cases kind with
  | name ref =>
      obtain ⟨_, succeeds⟩ := lower_place_eq_ok succeeds
      cases ref <;> simp [NodeKind.lower, name, name.atPlace, pure_eq_ok, readOnly_eq_ok] at succeeds
      all_goals
        obtain ⟨rfl, _⟩ := succeeds
        rfl
  | _ => cases named

mutual

theorem Node.lowerCell_swaps {start stop : Lowering.Progress} {items : List ListItem} :
    (cell : Node) → cell.swapsVariables → shares = true ∨ cell.isPlain →
      cell.lowerCell inNew true scope start = .ok (items, stop) → ∀ item ∈ items, item.SwapsVariable shares
  | .mk _ _ kind, swaps, may, succeeds => by
      cases kind with
      | exprs qualifier head tail =>
          simp only [Node.lowerCell, bind_eq_ok, pure_eq_ok] at succeeds
          obtain ⟨_, _, lowered, _, _, listed, rfl, rfl⟩ := succeeds
          simp only [Node.swapsVariables, Bool.and_eq_true, Bool.or_eq_true, bne_iff_ne] at swaps
          refine List.forall_mem_cons.mpr ⟨fun swapped => ?_,
            lowerItems_swaps tail swaps.2 (may.imp id fun plain => (Bool.and_eq_true_iff.mp plain).2) listed⟩
          obtain rfl : qualifier = .swap := swapped
          refine ⟨may.resolve_right fun plain => ?_, fun place fragment => ?_⟩
          · simp [Node.isPlain, NodeKind.isPlain] at plain
          · simp only at fragment
            subst fragment
            exact head.lower_isVariable (swaps.1.resolve_left fun other => other rfl) lowered
      | namedExprs name head tail =>
          simp only [Node.lowerCell, bind_eq_ok, pure_eq_ok] at succeeds
          obtain ⟨_, _, _, _, _, listed, rfl, rfl⟩ := succeeds
          exact List.forall_mem_cons.mpr ⟨nofun,
            lowerItems_swaps tail swaps (may.imp id fun plain => (Bool.and_eq_true_iff.mp plain).2) listed⟩
      | _ => exact (unexpected_ne_ok.mp succeeds).elim

theorem lowerItems_swaps {start stop : Lowering.Progress} {items : List ListItem} :
    (list : Option Node) → listSwapsVariables list → shares = true ∨ optionalPlain list →
      lowerItems inNew true list scope start = .ok (items, stop) → ∀ item ∈ items, item.SwapsVariable shares
  | none, _, _, succeeds => by
      obtain ⟨rfl, _⟩ := pure_eq_ok.mp succeeds
      exact nofun
  | some cell, swaps, may, succeeds => Node.lowerCell_swaps cell swaps may succeeds

end

theorem Place.isVariable_iff {place : Place} : place.isVariable ↔ place.selection? = none := by
  cases place <;> simp [isVariable, selection?]

/-- What overwrites part of a container has no other name. -/
theorem Instr.assigning_fair {dest : Place} {value : Operand} (found : dest.Fair shares) (fair : value.Fair shares)
    (own : value.isOwned ∨ dest.isVariable ∧ shares = true) : (Instr.assigning dest value).Fair shares := by
  unfold Instr.assigning
  split
  next base selector selects =>
    have owned : value.isOwned := own.resolve_right fun ⟨whole, _⟩ => by simp [Place.isVariable_iff.mp whole] at selects
    cases dest <;> cases selects
    · exact ⟨found, fair, owned⟩
    · exact ⟨found.1, found.2, fair, owned⟩
  next => exact ⟨found, fair, own.imp id fun ⟨whole, shared⟩ => ⟨whole, .inl shared⟩⟩

/-- A payload that has another name is stored where values may be named once more. -/
theorem Instr.payload_fair {payload : Operand} (gives : payload.Gives shares owned) (may : shares = true ∨ owned = true) :
    (Instr.assign .payload payload).Fair shares := by
  rcases may with shared | asked
  · exact ⟨trivial, gives.1, .inr ⟨rfl, .inl shared⟩⟩
  · exact ⟨trivial, gives.1, .inl (gives.2 asked)⟩

/-- The code of an assignment. -/
theorem NodeKind.assign_fair {lhs rhs : Node} {qualifier : Qualifier} {access : Access} {span : Span} {code : List Instr}
    (tends : (NodeKind.assign lhs rhs qualifier).Tends shares)
    (succeeds : (NodeKind.assign lhs rhs qualifier).lower inNew access span scope start = .ok (.code code, stop)) :
    FairCode shares code := by
  obtain ⟨stores, may⟩ := tends
  obtain ⟨source, dest, _, first, second, assigns⟩ := NodeKind.assign_eq_ok succeeds
  have left : shares = true ∨ lhs.isPlain := may.imp id fun plain => (Bool.and_eq_true_iff.mp (Bool.and_eq_true_iff.mp plain).1).2
  have right : shares = true ∨ rhs.isPlain := may.imp id fun plain => (Bool.and_eq_true_iff.mp plain).2
  have found : dest.Fair shares := lhs.lower_gives left second
  have gives := rhs.lower_gives right first
  have shared (other : qualifier ≠ .none) : shares = true := may.resolve_right fun plain =>
    other (by simpa using (Bool.and_eq_true_iff.mp (Bool.and_eq_true_iff.mp plain).1).1)
  cases qualifier with
  | none =>
      obtain ⟨value, rfl, rfl⟩ := assigns
      exact .cons (Instr.assigning_fair found gives.1.cloned (.inl value.isOwned_cloned)) .nil
  | move =>
      obtain ⟨value, rfl, rfl⟩ := assigns
      refine .cons (Instr.assigning_fair found gives.1 ?_) .nil
      rcases Bool.or_eq_true_iff.mp stores with whole | own
      · exact .inr ⟨lhs.lower_isVariable whole second, shared (by simp)⟩
      · exact .inl (gives.2 own)
  | swap =>
      obtain ⟨place, rfl, rfl⟩ := assigns
      obtain ⟨whole, whole'⟩ := Bool.and_eq_true_iff.mp stores
      have at_dest := lhs.lower_isVariable whole second
      refine .cons ?_ .nil
      rw [Instr.exchanging, Place.isVariable_iff.mp at_dest]
      exact ⟨shared (by simp), at_dest, rhs.lower_isVariable whole' first⟩

/-- The code of a statement without inner statements. -/
theorem NodeKind.single_fair {access : Access} {span : Span} {kind : NodeKind} {code : List Instr} (single : kind.isStructured = false)
    (tends : kind.Tends shares) (succeeds : kind.lower inNew access span scope start = .ok (.code code, stop)) : FairCode shares code := by
  have may := tends.2
  cases lower_written single succeeds with
  | @send target event args _ _ _ _ _ _ _ _ _ _ _ _ aimed named listed paid =>
      simp only [isPlain, Bool.and_eq_true] at may
      have asked := target.lower_gives (may.imp id fun plain => plain.1.1) aimed
      have named := event.lower_gives (may.imp id fun plain => plain.1.2) named
      have hands : shares = true ∨ listHandsOwned args := may.imp id fun plain => listHandsOwned_of_isPlain args plain.2
      have gives := ListItem.payload_gives (lowerItems_gives args (may.imp id fun plain => plain.2) listed) hands paid
      exact .cons ⟨named.1, trivial⟩ (.cons ⟨asked.1, named.1, gives.1, hands.imp id gives.2⟩
        (.cons trivial (.cons trivial (.cons trivial .nil))))
  | @new _ args _ _ _ _ _ _ _ _ _ _ listed placed paid =>
      simp only [isPlain, Bool.and_eq_true] at may
      have hands : shares = true ∨ listHandsOwned args := may.imp id fun plain => listHandsOwned_of_isPlain args plain.1
      have gives := ListItem.payload_gives (lowerItems_gives args (may.imp id fun plain => plain.1) listed) hands paid
      refine FairCode.append (.cons ⟨gives.1, hands.imp id gives.2⟩ (.cons trivial (.cons trivial .nil))) ?_
      exact .map fun place member => lowerOptional_fair (may.imp id fun plain => plain.2) placed place (Option.mem_toList.mp member)
  | @call _ args _ _ passed _ _ _ _ _ _ listed placed passes =>
      simp only [isPlain, Bool.and_eq_true] at may
      have first : shares = true ∨ optionalPlain args := may.imp id fun plain => plain.1
      obtain ⟨fair, own⟩ := passed_fair passes (lowerItems_gives args first listed)
      have hands : shares = true ∨ argumentsOwned passed := first.imp id fun plain => own (listHandsOwned_of_isPlain args plain)
      have swapped := swapped_places passes (fun item member swaps place fragment =>
        have given := lowerItems_swaps args tends.1 first listed item member swaps
        (⟨given.1, given.2 place fragment⟩ : shares = true ∧ place.isVariable = true)) 0
      refine FairCode.append (FairCode.append (.cons ⟨fair, hands⟩ (.cons trivial (.cons trivial (.cons trivial .nil)))) ?_) ?_
      · exact .map fun place member => lowerOptional_fair (may.imp id fun plain => plain.2) placed place (Option.mem_toList.mp member)
      · exact .map fun back member => swapped back member
  | @goto _ args _ _ _ _ _ listed paid =>
      have hands : shares = true ∨ listHandsOwned args := may.imp id (listHandsOwned_of_isPlain args)
      have stores := Instr.payload_fair (ListItem.payload_gives (lowerItems_gives args may listed) hands paid) hands
      have resets : Instr.Fair shares (.assign .trigger .null) := ⟨trivial, trivial, .inl rfl⟩
      exact .cons resets (.cons stores (.cons trivial (.cons trivial (.cons trivial .nil))))
  | @raise event args _ _ _ message _ _ _ _ named listed paid =>
      simp only [isPlain, Bool.and_eq_true] at may
      have named := event.lower_gives (may.imp id fun plain => plain.1) named
      have hands : shares = true ∨ listHandsOwned args := may.imp id fun plain => listHandsOwned_of_isPlain args plain.2
      have stores := Instr.payload_fair (ListItem.payload_gives (lowerItems_gives args (may.imp id fun plain => plain.2) listed) hands paid) hands
      have tests : Instr.Fair shares (.assert (Template.nonNull _) message) := ⟨named.1, trivial⟩
      have raises : Instr.Fair shares (.assign .trigger _) := ⟨trivial, named.1, .inr ⟨rfl, .inr rfl⟩⟩
      exact .cons tests (.cons raises (.cons stores (.cons trivial (.cons trivial .nil))))
  | pop => exact .cons ⟨trivial, trivial, .inl rfl⟩ (.cons ⟨trivial, trivial, .inl rfl⟩ (.cons trivial (.cons trivial .nil)))
  | @ret value operand _ _ valued =>
      cases operand with
      | none => exact .cons trivial (.cons trivial .nil)
      | some operand =>
          cases value with
          | none => cases (pure_eq_ok.mp valued).1
          | some node =>
              obtain ⟨_, lowered, same⟩ := map_eq_ok.mp valued
              cases same
              exact .cons ⟨(node.lower_gives may lowered).1.cloned, operand.isOwned_cloned⟩ (.cons trivial .nil)
  | @announce event args _ _ _ _ _ _ _ named listed paid =>
      simp only [isPlain, Bool.and_eq_true] at may
      have named := event.lower_gives (may.imp id fun plain => plain.1) named
      have hands : shares = true ∨ listHandsOwned args := may.imp id fun plain => listHandsOwned_of_isPlain args plain.2
      have gives := ListItem.payload_gives (lowerItems_gives args (may.imp id fun plain => plain.2) listed) hands paid
      exact .cons ⟨named.1, gives.1⟩ .nil
  | @assert cond _ _ _ _ _ tested => exact .cons (cond.lower_gives may tested).1 .nil
  | @print _ args _ _ _ _ _ listed valued =>
      refine .cons (allFair_iff.mpr (mapM_all (fun item member _ operand _ found => ?_) valued)) .nil
      have gives := lowerItems_gives args may listed item member
      rw [ListItem.Gives, (expectValue_eq_ok.mp found).1] at gives
      exact gives.1
  | @remove target key _ _ _ _ _ _ named placed =>
      simp only [isPlain, Bool.and_eq_true] at may
      exact .cons ⟨target.lower_gives (may.imp id fun plain => plain.1) placed,
        (key.lower_gives (may.imp id fun plain => plain.2) named).1⟩ .nil
  | @insert target entry _ _ _ _ _ _ packed placed =>
      simp only [isPlain, Bool.and_eq_true] at may
      have gives := entry.lower_gives (may.imp id fun plain => plain.2) packed
      exact .cons ⟨target.lower_gives (may.imp id fun plain => plain.1.2) placed, gives.1, gives.2 tends.1⟩ .nil
  | assign => exact assign_fair tends succeeds

theorem FairCode.covers (scope : Lowering.Scope) :
    Composes.Covers (FairCode shares) scope (NodeKind.Tends shares) fun cond => shares = true ∨ cond.isPlain where
  toComposes := composes
  single := NodeKind.single_fair
  test may lowered _ := cons (Node.lower_gives _ may lowered).1 nil

/-- Whether what calls return is taken up right behind them only; it may stand at once behind a call if told so. -/
def collects (returning : Bool) : List Instr → Bool
  | [] => true
  | instr :: rest => (returning || !instr.isAwaiting) && collects instr.isReturning rest

section

variable {first rest code : List Instr} {instr : Instr} {returning : Bool}

theorem collects_of_start (collected : collects false code) : collects returning code := by
  cases code with
  | nil => rfl
  | cons instr rest =>
      obtain ⟨own, others⟩ := Bool.and_eq_true_iff.mp collected
      exact Bool.and_eq_true_iff.mpr ⟨by simpa using .inr (by simpa using own), others⟩

theorem collects_append (left : collects returning first) (right : collects false rest) : collects returning (first ++ rest) := by
  induction first generalizing returning with
  | nil => exact collects_of_start right
  | cons instr others ih =>
      obtain ⟨own, later⟩ := Bool.and_eq_true_iff.mp left
      exact Bool.and_eq_true_iff.mpr ⟨own, ih later⟩

/-- Where nothing is taken up, nothing is taken up in the wrong place. -/
theorem collects_of_calm (calm : ∀ instr ∈ code, instr.isAwaiting = false) : collects returning code := by
  induction code generalizing returning with
  | nil => rfl
  | cons instr rest ih =>
      obtain ⟨own, others⟩ := List.forall_mem_cons.mp calm
      exact Bool.and_eq_true_iff.mpr ⟨by simp [own], ih others⟩

theorem collects_composes : Composes fun code => collects false code where
  nil := rfl
  append := collects_append
  waypoint {instr} waypoint := by
    cases instr <;> first | rfl | cases waypoint
  choose _ _ := rfl
  receive after done arms := by
    refine collects_append (collects_append (collects_append (collects_append (collects_of_calm ?_) rfl) rfl) ?_) rfl
    · exact List.forall_mem_map.mpr fun _ _ => rfl
    · induction arms with
      | nil => rfl
      | cons arm rest ih => exact collects_append rfl ih

/-- The code of a statement without inner statements. -/
theorem NodeKind.single_collects {access : Access} {span : Span} {kind : NodeKind} (single : kind.isStructured = false)
    (succeeds : kind.lower inNew access span scope start = .ok (.code code, stop)) : collects false code := by
  cases lower_written single succeeds with
  | new => exact collects_append rfl (collects_of_calm (List.forall_mem_map.mpr fun _ _ => rfl))
  | @call _ _ _ _ _ dest =>
      refine collects_append ?_ (collects_of_calm (List.forall_mem_map.mpr fun _ _ => rfl))
      cases dest <;> rfl
  | @ret _ operand => cases operand <;> rfl
  | assign _ _ assigns => exact assigns.elim (fun _ _ _ => rfl) (fun _ _ => rfl) (fun _ _ _ => rfl) fun _ _ => rfl
  | _ => rfl

theorem collects_covers (scope : Lowering.Scope) : Composes.Covers (fun code => collects false code) scope (fun _ => True) fun _ => True where
  toComposes := collects_composes
  single single _ := NodeKind.single_collects single
  test _ _ _ := rfl

/-- Nothing is taken up right behind an instruction that returns nothing. -/
theorem collects_behind {position : Nat} (collected : collects returning code) (here : code[position]? = some instr)
    (returns : instr.isReturning = false) : code[position + 1]?.any Instr.isAwaiting = false := by
  induction code generalizing returning position with
  | nil => simp at here
  | cons head rest ih =>
      obtain ⟨_, later⟩ := Bool.and_eq_true_iff.mp collected
      cases position with
      | zero =>
          obtain rfl : head = instr := by simpa using here
          rw [returns] at later
          cases rest with
          | nil => rfl
          | cons next rest =>
              obtain ⟨calm, _⟩ := Bool.and_eq_true_iff.mp later
              simpa using calm
      | succ position => exact ih later here

end

/-- In assembled code control is led to labels and marks only, where nothing is taken up. -/
theorem Routine.assemble_collected {info : FunctionInfo} {shape : FrameShape} {code : List Instr} {labelCount : Nat} {verified : Bool}
    {routine : Routine} (assembled : assemble info shape code labelCount verified = .ok routine) (collected : collects false routine.body) :
    routine.Collected where
  start := by
    cases body : routine.body with
    | nil => simp [awaits, body]
    | cons instr rest =>
        rw [body] at collected
        simpa [awaits, body] using (Bool.and_eq_true_iff.mp collected).1
  behind _ _ here returns := collects_behind collected here returns
  target target place leads := by
    rcases assemble_position?_eq assembled leads with ⟨label, here⟩ | ⟨mark, here⟩ <;> simp [awaits, here, Instr.isAwaiting]

/-- Programs that store into containers nothing that has another name, and that name nothing twice unless that is allowed, are
lowered to fair code. -/
theorem Program.lower_fair {program : Program} {options : LowerOptions} {image : Image} (succeeds : program.lower options = .ok image)
    (every : ∀ info ∈ program.functions, info.body.Every (NodeKind.Tends shares) fun cond => shares = true ∨ cond.isPlain) :
    image.Fair shares := by
  intro function routine found
  obtain ⟨_, _, _, _, _, _, _, assembled⟩ := lowerFunction_eq_ok ((lower_routine? succeeds function).2 routine found)
  have collected := lower_composes succeeds (show collects false Routine.implicitReturn = true from rfl)
    (fun info _ => info.body.every_trivial) (fun _ _ => collects_covers _) function routine found
  have fair := lower_composes succeeds (FairCode.cons trivial (.cons trivial .nil)) every (fun _ _ => FairCode.covers _) function routine found
  exact ⟨Routine.assemble_collected assembled collected, fair⟩

theorem Program.lower_plain {program : Program} {options : LowerOptions} {image : Image} (succeeds : program.lower options = .ok image)
    (plain : program.isPlain) (shares : Bool) : image.Fair shares :=
  lower_fair succeeds fun info member => info.body.every_of_isPlain shares (List.all_eq_true.mp plain info member)

end Reentry
