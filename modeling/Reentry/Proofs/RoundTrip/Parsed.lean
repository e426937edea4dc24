import Reentry.Json.Parser
import Reentry.Proofs.RoundTrip.Lexed

/-!
From a text back to the value it was printed from. The parser goes over the tokens of a value as if the value were
delivered at once, whatever containers are open around it, as long as these and the value do not nest too deep.
-/

namespace Reentry

open Json.Parser (advance deliver closeArr closeObj)

namespace Json

variable {limit : Nat}

/-- The first item of an array is read like any other. -/
theorem first_item (json : Json) (above : List Position) (rest : List Token) :
    (json.tokens rest).foldlM (advance limit) (.firstItem above) = (json.tokens rest).foldlM (advance limit) (.expectValue (.item [] :: above)) := by
  rcases json with _ | _ | _ | _ | _ | _ | ⟨_ | _⟩ | ⟨_ | ⟨⟨_, _⟩, _⟩⟩ <;> rw [tokens] <;> rfl

theorem closeArr_eq {above : List Position} (within : above.length < limit) (items : List Json) :
    closeArr limit above items.reverse = deliver (.arr items) above := by
  rw [closeArr, if_pos within, List.reverse_reverse]

theorem closeObj_eq {above : List Position} (within : above.length < limit) (members : List (Key × Json)) :
    closeObj limit above (members.map fun member => (some member.1, member.2)).reverse = deliver (.obj members) above := by
  have kept : (members.map fun member => (some member.1, member.2)).mapM (fun (member : Option Key × Json) => member.1.map (·, member.2))
      = some members := by
    induction members with
    | nil => rfl
    | cons member members ih => simp [ih]
  unfold closeObj
  rw [List.reverse_reverse]
  change deliver (if above.length < limit then
    (((members.map fun member => (some member.1, member.2)).mapM fun (member : Option Key × Json) => member.1.map (·, member.2)).map obj).getD .unreadable
    else .unreadable) above = _
  rw [if_pos within, kept]
  rfl

mutual

/-- The tokens of a value are read as the value. -/
theorem parse_tokens {above : List Position} {rest : List Token} : ∀ json : Json, json.IsWhole → above.length + json.depth ≤ limit →
    (json.tokens rest).foldlM (advance limit) (.expectValue above) = rest.foldlM (advance limit) (deliver json above)
  | .null, _, _ | .bool _, _, _ | .int _, _, _ | .str _, _, _ => by
      rw [tokens]
      rfl
  | .arr [], _, fits => by
      have within : above.length < limit := by
        simp only [depth] at fits
        omega
      rw [tokens, ← closeArr_eq within]
      rfl
  | .arr (item :: items), whole, fits => by
      simp only [depth, itemsDepth] at fits
      have within : above.length < limit := by omega
      have inside : (Position.item [] :: above).length + item.depth ≤ limit := by
        rw [List.length_cons]
        omega
      -- the array is what its closing bracket makes of all items, the first of them already read
      rw [tokens, ← closeArr_eq within]
      change (item.tokens (itemsTokens items (.closeArr :: rest))).foldlM (advance limit) (.firstItem above) = _
      rw [first_item, parse_tokens item whole.1 inside, List.reverse_cons]
      exact parse_items items whole.2 (by omega)
  | .obj [], _, fits => by
      have within : above.length < limit := by
        simp only [depth] at fits
        omega
      rw [tokens, ← closeObj_eq within]
      rfl
  | .obj ((key, value) :: members), whole, fits => by
      simp only [depth, membersDepth] at fits
      obtain ⟨plain, whole, others⟩ := whole
      have within : above.length < limit := by omega
      have inside : (Position.member [] (some key) :: above).length + value.depth ≤ limit := by
        rw [List.length_cons]
        omega
      rw [tokens, ← closeObj_eq within, ← plain]
      change (value.tokens (membersTokens members (.closeObj :: rest))).foldlM (advance limit) (.expectValue (.member [] (some key) :: above)) = _
      rw [parse_tokens value whole inside, List.map_cons, List.reverse_cons]
      exact parse_members members others (by omega)

theorem parse_items {above : List Position} {read : List Json} {rest : List Token} : ∀ items : List Json, ItemsWhole items →
    above.length + 1 + itemsDepth items ≤ limit →
    (itemsTokens items (.closeArr :: rest)).foldlM (advance limit) (.items above read)
      = rest.foldlM (advance limit) (closeArr limit above (items.reverse ++ read))
  | [], _, _ => by
      rw [itemsTokens]
      rfl
  | item :: items, whole, fits => by
      simp only [itemsDepth] at fits
      have inside : (Position.item read :: above).length + item.depth ≤ limit := by
        rw [List.length_cons]
        omega
      rw [itemsTokens]
      change (item.tokens (itemsTokens items (.closeArr :: rest))).foldlM (advance limit) (.expectValue (.item read :: above)) = _
      rw [parse_tokens item whole.1 inside, List.reverse_cons, List.append_assoc]
      exact parse_items items whole.2 (by omega)

theorem parse_members {above : List Position} {read : List (Option Key × Json)} {rest : List Token} : ∀ members : List (Key × Json),
    MembersWhole members → above.length + 1 + membersDepth members ≤ limit →
    (membersTokens members (.closeObj :: rest)).foldlM (advance limit) (.members above read)
      = rest.foldlM (advance limit) (closeObj limit above ((members.map fun member => (some member.1, member.2)).reverse ++ read))
  | [], _, _ => by
      rw [membersTokens]
      rfl
  | (key, value) :: members, whole, fits => by
      simp only [membersDepth] at fits
      obtain ⟨plain, whole, others⟩ := whole
      have inside : (Position.member read (some key) :: above).length + value.depth ≤ limit := by
        rw [List.length_cons]
        omega
      rw [membersTokens, ← plain]
      change (value.tokens (membersTokens members (.closeObj :: rest))).foldlM (advance limit) (.expectValue (.member read (some key) :: above)) = _
      rw [parse_tokens value whole inside, List.map_cons, List.reverse_cons, List.append_assoc]
      exact parse_members members others (by omega)

end

/-- A printed value is read back. -/
theorem parseWithin?_text {limit : Nat} {json : Json} (whole : json.IsWhole) (fits : json.depth ≤ limit) :
    parseWithin? limit json.text = some json := by
  have parsed := @parse_tokens limit [] [] json whole (by simpa using fits)
  unfold parseWithin? text ofTokens?
  rw [String.toList_ofList, tokens?_print whole]
  change ((json.tokens []).foldlM (advance limit) (.expectValue [])).bind Parser.result? = _
  rw [parsed]
  rfl

end Json

end Reentry
