import Mathlib.Data.List.TakeWhile
import Mathlib.Tactic.IntervalCases
import Reentry.Json.Printer
import Reentry.Json.Token

/-!
The tokens of a printed value. Each string, word and numeral is read back as one token: a string because all that could
end it is escaped, the others because a comma or a closing bracket follows them. So the tokens of a printed value are
those that its shape prescribes, whatever stands before them and after them.
-/

namespace Reentry

namespace Json

/-- Whether some character of the text is written as an escape. -/
def escapes (text : String) : Bool := text.toList.any fun c => escapedChar c ≠ [c]

mutual

/-- The tokens of a value, put in front of others as its text is put in front of other text. -/
def tokens (json : Json) (rest : List Token) : List Token :=
  match json with
  | .null => .null :: rest
  | .bool value => .bool value :: rest
  | .int value => .int value :: rest
  | .real numeral => .real numeral :: rest
  | .str text => .str text (escapes text) :: rest
  | .unreadable => .garbled :: rest
  | .arr [] => .openArr :: .closeArr :: rest
  | .arr (item :: items) => .openArr :: item.tokens (itemsTokens items (.closeArr :: rest))
  | .obj [] => .openObj :: .closeObj :: rest
  | .obj ((key, value) :: members) =>
      .openObj :: .str key.text (escapes key.text) :: .colon :: value.tokens (membersTokens members (.closeObj :: rest))

def itemsTokens (items : List Json) (rest : List Token) : List Token :=
  match items with
  | [] => rest
  | item :: items => .comma :: item.tokens (itemsTokens items rest)

def membersTokens (members : List (Key × Json)) (rest : List Token) : List Token :=
  match members with
  | [] => rest
  | (key, value) :: members => .comma :: .str key.text (escapes key.text) :: .colon :: value.tokens (membersTokens members rest)

end

mutual

/-- Whether the text of the value is read back: its numbers have no fraction or exponent, nothing in it is unreadable, and its keys tell whether
they have escapes. -/
def IsWhole : Json → Prop
  | .real _ | .unreadable => False
  | .arr items => ItemsWhole items
  | .obj members => MembersWhole members
  | _ => True

def ItemsWhole : List Json → Prop
  | [] => True
  | item :: items => item.IsWhole ∧ ItemsWhole items

def MembersWhole : List (Key × Json) → Prop
  | [] => True
  | (key, value) :: members => key.isEscaped = escapes key.text ∧ value.IsWhole ∧ MembersWhole members

end

/-- The characters with a short escape. -/
def shortEscapes : List Char := ['"', '\\', '\n', '\r', '\t', '\x08', '\x0c']

theorem escapedChar_plain {c : Char} (long : c ∉ shortEscapes) (visible : ¬c.toNat < 0x20) : escapedChar c = [c] := by
  simp only [shortEscapes, List.mem_cons, List.not_mem_nil, or_false, not_or] at long
  simp [escapedChar, long, visible]

theorem escapes_natText (n : Nat) : escapes (Decimal.natText n) = false := by
  rw [escapes, Decimal.natText, String.toList_ofList, List.any_eq_false]
  intro c member
  have digit := Decimal.isDigit_of_mem_natDigits member
  have long : c ∉ shortEscapes := by
    intro short
    simp only [shortEscapes, List.mem_cons, List.not_mem_nil, or_false] at short
    rcases short with rfl | rfl | rfl | rfl | rfl | rfl | rfl <;> cases digit
  have visible : ¬c.toNat < 0x20 := by
    simp only [Decimal.isDigit, Bool.and_eq_true, decide_eq_true_eq, Char.le_def, UInt32.le_iff_toNat_le] at digit
    have lower : 48 ≤ c.toNat := digit.1
    omega
  simp [escapedChar_plain long visible]

end Json

namespace Decimal

/-- A numeral begins with a zero only if it is the zero alone. -/
theorem natDigits_leading (n : Nat) :
    ∃ first rest, natDigits n = Nat.digitChar first :: rest ∧ first < 10 ∧ (first = 0 → n = 0 ∧ rest = []) := by
  induction n using Nat.strongRecOn with
  | _ n ih =>
      by_cases small : n < 10
      · exact ⟨n, [], Nat.toDigits_of_lt_base small, small, fun zero => ⟨zero, rfl⟩⟩
      · obtain ⟨first, rest, digits, bound, leading⟩ := ih (n / 10) (by omega)
        refine ⟨first, rest ++ [Nat.digitChar (n % 10)], ?_, bound, fun zero => ?_⟩
        · unfold natDigits at digits ⊢
          rw [Nat.toDigits_of_base_le (by omega) (by omega), digits]
          rfl
        · have := (leading zero).1
          omega

end Decimal

namespace Json

namespace Lexer

section Numerals

theorem isWholePart_natDigits (n : Nat) : isWholePart (Decimal.natDigits n) = true := by
  have digits : (Decimal.natDigits n).all Decimal.isDigit = true := List.all_eq_true.mpr fun _ => Decimal.isDigit_of_mem_natDigits
  obtain ⟨first, rest, spelled, -, leading⟩ := Decimal.natDigits_leading n
  rw [spelled] at digits ⊢
  by_cases zero : first = 0
  · obtain ⟨-, rfl⟩ := leading zero
    rw [zero]
    rfl
  · have ahead : Nat.digitChar first ≠ '0' := by simpa using zero
    unfold isWholePart
    split
    next same => cases same
    next same => exact absurd (List.cons.inj same).1 ahead
    next first' rest' _ same =>
      obtain ⟨rfl, rfl⟩ := List.cons.inj same
      simp [ahead, digits]

theorem numberToken?_unsigned {digits : List Char} (whole : isWholePart digits = true) (all : ∀ c ∈ digits, Decimal.isDigit c) :
    numberToken? digits = some (.int (Nat.ofDigitChars 10 digits 0)) := by
  have unsigned (rest : List Char) : digits ≠ '-' :: rest := by
    rintro rfl
    cases all '-' List.mem_cons_self
  have plain : (digits.head? == some '-') = false := by
    cases digits with
    | nil => rfl
    | cons first rest => exact beq_false_of_ne fun same => unsigned rest (by rw [Option.some.inj same])
  unfold numberToken?
  split
  next rest => exact absurd rfl (unsigned rest)
  next => simp [List.takeWhile_eq_self_iff.mpr all, List.dropWhile_eq_nil_iff.mpr all, whole, isFractionExponent, isExponent, plain]

theorem numberToken?_signed {digits : List Char} (whole : isWholePart digits = true) (all : ∀ c ∈ digits, Decimal.isDigit c)
    (positive : Nat.ofDigitChars 10 digits 0 ≠ 0) : numberToken? ('-' :: digits) = some (.int (-Nat.ofDigitChars 10 digits 0)) := by
  simp [numberToken?, List.takeWhile_eq_self_iff.mpr all, List.dropWhile_eq_nil_iff.mpr all, whole, isFractionExponent, isExponent, positive]

theorem ofDigitChars_natDigits (n : Nat) : Nat.ofDigitChars 10 (Decimal.natDigits n) 0 = n :=
  Nat.ofDigitChars_toDigits (by decide) (by decide)

/-- A numeral is the token of the number it was written for. -/
theorem numberToken?_intDigits (value : Int) : numberToken? (Decimal.intDigits value) = some (.int value) := by
  cases value with
  | ofNat n =>
      have token := numberToken?_unsigned (isWholePart_natDigits n) fun _ => Decimal.isDigit_of_mem_natDigits
      rw [ofDigitChars_natDigits] at token
      exact token
  | negSucc n =>
      have token := numberToken?_signed (isWholePart_natDigits (n + 1)) (fun _ => Decimal.isDigit_of_mem_natDigits)
        (by rw [ofDigitChars_natDigits]; omega)
      rw [ofDigitChars_natDigits] at token
      exact token

end Numerals

/-- The text is read as the tokens, whatever has been read before. -/
def Reads (text : List Char) (tokens : List Token) : Prop :=
  ∀ before : List Token, (text.foldlM advance ⟨.between, before⟩).bind flush = some ⟨.between, tokens.reverse ++ before⟩

/-- What may follow a word or a numeral. -/
def Delimited (text : List Char) : Prop := ∀ c ∈ text.head?, c = ',' ∨ c = ']' ∨ c = '\x7d'

namespace Reads

variable {rest : List Char} {tokens : List Token}

theorem nil : Reads [] [] := fun _ => rfl

/-- A character that is a token of its own. -/
theorem single {c : Char} {token : Token} (begins : ∀ before, begin before c = some ⟨.between, token :: before⟩) (reads : Reads rest tokens) :
    Reads (c :: rest) (token :: tokens) := by
  intro before
  rw [List.foldlM_cons]
  change ((begin before c).bind fun next => rest.foldlM advance next).bind flush = _
  rw [begins, Option.bind_some, reads]
  simp

/-- A word or a numeral ends where a delimiter follows or nothing does. -/
theorem flushed {mode : LexMode} {before : List Token} {token : Token} (closes : flush ⟨mode, before⟩ = some ⟨.between, token :: before⟩)
    (breaks : ∀ c, c = ',' ∨ c = ']' ∨ c = '\x7d' → advance ⟨mode, before⟩ c = (flush ⟨mode, before⟩).bind (begin ·.tokens c))
    (delimited : Delimited rest) (reads : Reads rest tokens) :
    (rest.foldlM advance ⟨mode, before⟩).bind flush = some ⟨.between, (token :: tokens).reverse ++ before⟩ := by
  have settled := reads (token :: before)
  have same : (rest.foldlM advance ⟨mode, before⟩).bind flush = (rest.foldlM advance ⟨.between, token :: before⟩).bind flush := by
    cases rest with
    | nil => exact closes
    | cons c rest =>
        rw [List.foldlM_cons, List.foldlM_cons, breaks c (delimited c rfl), closes]
        rfl
  rw [same, settled]
  simp

theorem run_number {digits : List Char} (chars : ∀ c ∈ digits, isNumberChar c) (read rest : List Char) (before : List Token) :
    (digits ++ rest).foldlM advance ⟨.number read, before⟩ = rest.foldlM advance ⟨.number (digits.reverse ++ read), before⟩ := by
  induction digits generalizing read with
  | nil => rfl
  | cons c digits ih =>
      have keeps : advance ⟨.number read, before⟩ c = some ⟨.number (c :: read), before⟩ := by
        simp [advance, chars c List.mem_cons_self]
      rw [List.cons_append, List.foldlM_cons, keeps]
      change (digits ++ rest).foldlM advance _ = _
      rw [ih (fun c member => chars c (List.mem_cons_of_mem _ member)) (c :: read)]
      simp

theorem number {first : Char} {digits : List Char} {token : Token} (begins : ∀ before, begin before first = some ⟨.number [first], before⟩)
    (chars : ∀ c ∈ digits, isNumberChar c) (known : numberToken? (first :: digits) = some token) (delimited : Delimited rest)
    (reads : Reads rest tokens) : Reads (first :: (digits ++ rest)) (token :: tokens) := by
  intro before
  rw [List.foldlM_cons]
  change ((begin before first).bind fun next => (digits ++ rest).foldlM advance next).bind flush = _
  rw [begins, Option.bind_some, run_number chars]
  refine flushed ?_ ?_ delimited reads
  · simp [flush, known]
  · rintro c (rfl | rfl | rfl) <;> rfl

theorem int (value : Int) (delimited : Delimited rest) (reads : Reads rest tokens) : Reads (Decimal.intDigits value ++ rest) (.int value :: tokens) := by
  have token := numberToken?_intDigits value
  have numeric {n : Nat} {c : Char} (member : c ∈ Decimal.natDigits n) : isNumberChar c := by
    simp [isNumberChar, Decimal.isDigit_of_mem_natDigits member]
  cases value with
  | ofNat n =>
      obtain ⟨first, digits, spelled, bound, -⟩ := Decimal.natDigits_leading n
      rw [Decimal.intDigits, spelled] at token ⊢
      refine number ?_ (fun c member => numeric (spelled ▸ List.mem_cons_of_mem _ member)) token delimited reads
      intro before
      interval_cases first <;> rfl
  | negSucc n => exact number (fun _ => rfl) (fun _ => numeric) token delimited reads

theorem word (letters : List Char) {token : Token}
    (ran : ∀ before, (letters ++ rest).foldlM advance ⟨.between, before⟩ = rest.foldlM advance ⟨.word letters.reverse, before⟩)
    (known : wordToken? letters = some token) (delimited : Delimited rest) (reads : Reads rest tokens) : Reads (letters ++ rest) (token :: tokens) := by
  intro before
  rw [ran]
  refine flushed ?_ ?_ delimited reads
  · simp [flush, known]
  · rintro c (rfl | rfl | rfl) <;> rfl

theorem hexDigit?_digitChar {digit : Nat} (bound : digit < 16) : Decimal.hexDigit? (Nat.digitChar digit) = some digit := by
  interval_cases digit <;> rfl

/-- A character without a short escape is read from its number. -/
theorem unit (c : Char) (control : c.toNat < 0x20) (read rest : List Char) (isEscaped : Bool) (before : List Token) :
    ('\\' :: 'u' :: '0' :: '0' :: Nat.digitChar (c.toNat / 16) :: Nat.digitChar (c.toNat % 16) :: rest).foldlM advance
        ⟨.text ⟨read, none, false, isEscaped⟩, before⟩
      = rest.foldlM advance ⟨.text ⟨c :: read, none, false, true⟩, before⟩ := by
  have high : advance ⟨.unit ⟨read, none, false, true⟩ 2 0, before⟩ (Nat.digitChar (c.toNat / 16))
      = some ⟨.unit ⟨read, none, false, true⟩ 1 (c.toNat / 16), before⟩ := by
    simp [advance, hexDigit?_digitChar (show c.toNat / 16 < 16 by omega)]
  have low : advance ⟨.unit ⟨read, none, false, true⟩ 1 (c.toNat / 16), before⟩ (Nat.digitChar (c.toNat % 16))
      = some ⟨.text ⟨c :: read, none, false, true⟩, before⟩ := by
    have value : c.toNat / 16 * 16 + c.toNat % 16 = c.toNat := Nat.div_add_mod' ..
    simp [advance, hexDigit?_digitChar (Nat.mod_lt _ (by decide)), value, PartialText.addUnit, PartialText.addChar, show ¬55296 ≤ c.toNat by omega,
      show ¬56320 ≤ c.toNat by omega]
  have opened (chars : List Char) : ('\\' :: 'u' :: '0' :: '0' :: chars).foldlM advance ⟨.text ⟨read, none, false, isEscaped⟩, before⟩
      = chars.foldlM advance ⟨.unit ⟨read, none, false, true⟩ 2 0, before⟩ := rfl
  rw [opened, List.foldlM_cons, high]
  change (_ :: rest).foldlM advance _ = _
  rw [List.foldlM_cons, low]
  rfl

/-- A character comes back as it was, however it is written. -/
theorem escaped (c : Char) (read rest : List Char) (isEscaped : Bool) (before : List Token) :
    (escapedChar c ++ rest).foldlM advance ⟨.text ⟨read, none, false, isEscaped⟩, before⟩
      = rest.foldlM advance ⟨.text ⟨c :: read, none, false, isEscaped || decide (escapedChar c ≠ [c])⟩, before⟩ := by
  by_cases short : c ∈ shortEscapes
  · simp only [shortEscapes, List.mem_cons, List.not_mem_nil, or_false] at short
    have written : escapedChar c ≠ [c] := by
      rcases short with rfl | rfl | rfl | rfl | rfl | rfl | rfl <;> simp [escapedChar]
    rw [decide_eq_true written, Bool.or_true]
    rcases short with rfl | rfl | rfl | rfl | rfl | rfl | rfl <;> rfl
  · by_cases control : c.toNat < 0x20
    · have spelled : escapedChar c = ['\\', 'u', '0', '0', Nat.digitChar (c.toNat / 16), Nat.digitChar (c.toNat % 16)] := by
        simp only [shortEscapes, List.mem_cons, List.not_mem_nil, or_false, not_or] at short
        simp [escapedChar, short, control]
      have written : escapedChar c ≠ [c] := by simp [spelled]
      rw [decide_eq_true written, Bool.or_true, spelled]
      exact unit c control read rest isEscaped before
    · have spelled := escapedChar_plain short control
      rw [decide_eq_false (not_not.mpr spelled), Bool.or_false, spelled]
      change (c :: rest).foldlM advance _ = _
      simp only [shortEscapes, List.mem_cons, List.not_mem_nil, or_false, not_or] at short
      rw [List.foldlM_cons]
      simp [advance, short, control, PartialText.addChar]

theorem run_text (chars read rest : List Char) (isEscaped : Bool) (before : List Token) :
    (chars.foldr (fun c printed => escapedChar c ++ printed) ('"' :: rest)).foldlM advance ⟨.text ⟨read, none, false, isEscaped⟩, before⟩
      = rest.foldlM advance
          ⟨.between, .str (String.ofList (read.reverse ++ chars)) (isEscaped || chars.any fun c => escapedChar c ≠ [c]) :: before⟩ := by
  induction chars generalizing read isEscaped with
  | nil => simp; rfl
  | cons c chars ih =>
      rw [List.foldr_cons, escaped, ih]
      simp [Bool.or_assoc]

theorem string (text : String) (reads : Reads rest tokens) : Reads (printText text rest) (.str text (escapes text) :: tokens) := by
  intro before
  have opened : (printText text rest).foldlM advance ⟨.between, before⟩
      = (text.toList.foldr (fun c printed => escapedChar c ++ printed) ('"' :: rest)).foldlM advance ⟨.text .start, before⟩ := rfl
  rw [opened, PartialText.start, run_text, reads]
  simp [escapes]

theorem delimited_items (items : List Json) (rest : List Char) : Delimited (printItems items (']' :: rest)) := by
  cases items <;> simp [printItems, Delimited]

theorem delimited_members (members : List (Key × Json)) (rest : List Char) : Delimited (printMembers members ('\x7d' :: rest)) := by
  rcases members with _ | ⟨⟨key, value⟩, members⟩ <;> simp [printMembers, Delimited]

mutual

/-- The text of a value is read as its tokens. -/
theorem print {rest : List Char} {after : List Token} : ∀ json : Json, json.IsWhole → Delimited rest → Reads rest after →
    Reads (json.print rest) (json.tokens after)
  | .null, _, delimited, reads => by
      rw [Json.print, Json.tokens]
      exact word ['n', 'u', 'l', 'l'] (fun _ => rfl) rfl delimited reads
  | .bool true, _, delimited, reads => by
      rw [Json.print, Json.tokens]
      exact word ['t', 'r', 'u', 'e'] (fun _ => rfl) rfl delimited reads
  | .bool false, _, delimited, reads => by
      rw [Json.print, Json.tokens]
      exact word ['f', 'a', 'l', 's', 'e'] (fun _ => rfl) rfl delimited reads
  | .int value, _, delimited, reads => by
      rw [Json.print, Json.tokens]
      exact int value delimited reads
  | .str text, _, _, reads => by
      rw [Json.print, Json.tokens]
      exact string text reads
  | .arr [], _, _, reads => by
      rw [Json.print, Json.tokens]
      exact single (fun _ => rfl) (single (fun _ => rfl) reads)
  | .arr (item :: items), whole, _, reads => by
      rw [Json.print, Json.tokens]
      obtain ⟨whole, others⟩ := whole
      have closed : Reads (Json.printItems items (']' :: rest)) (itemsTokens items (.closeArr :: after)) :=
        printItems items others (single (fun _ => rfl) reads)
      exact single (fun _ => rfl) (print item whole (delimited_items items rest) closed)
  | .obj [], _, _, reads => by
      rw [Json.print, Json.tokens]
      exact single (fun _ => rfl) (single (fun _ => rfl) reads)
  | .obj ((key, value) :: members), whole, _, reads => by
      rw [Json.print, Json.tokens]
      obtain ⟨_, whole, others⟩ := whole
      have closed : Reads (Json.printMembers members ('\x7d' :: rest)) (membersTokens members (.closeObj :: after)) :=
        printMembers members others (single (fun _ => rfl) reads)
      exact single (fun _ => rfl) (string key.text (single (fun _ => rfl) (print value whole (delimited_members members rest) closed)))

theorem printItems {rest : List Char} {after : List Token} : ∀ items : List Json, ItemsWhole items → Reads (']' :: rest) after →
    Reads (Json.printItems items (']' :: rest)) (itemsTokens items after)
  | [], _, reads => reads
  | item :: items, whole, reads => by
      rw [Json.printItems, itemsTokens]
      exact single (fun _ => rfl) (print item whole.1 (delimited_items items rest) (printItems items whole.2 reads))

theorem printMembers {rest : List Char} {after : List Token} : ∀ members : List (Key × Json), MembersWhole members →
    Reads ('\x7d' :: rest) after → Reads (Json.printMembers members ('\x7d' :: rest)) (membersTokens members after)
  | [], _, reads => reads
  | (key, value) :: members, whole, reads => by
      rw [Json.printMembers, membersTokens]
      obtain ⟨_, whole, others⟩ := whole
      exact single (fun _ => rfl) (string key.text (single (fun _ => rfl)
        (print value whole (delimited_members members rest) (printMembers members others reads))))

end

end Reads

end Lexer

theorem tokens?_print {json : Json} (whole : json.IsWhole) : tokens? (json.print []) = some (json.tokens []) := by
  have read := Lexer.Reads.print json whole (by simp [Lexer.Delimited]) .nil []
  unfold tokens? Lexer.start
  cases ran : (json.print []).foldlM Lexer.advance ⟨.between, []⟩ with
  | none =>
      rw [ran] at read
      cases read
  | some lexer =>
      rw [ran, Option.bind_some] at read
      change (lexer.flush.bind fun last => some last.tokens.reverse) = _
      rw [read]
      simp

end Json

end Reentry
