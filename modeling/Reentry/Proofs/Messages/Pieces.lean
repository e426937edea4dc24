import Reentry.Text.Placeholder

/-!
What becomes of the format of a message. It falls into pieces, text and placeholders, which depend on the format and on
the number of arguments but not on what the arguments look like. The message keeps the text and has an argument for each
placeholder. Wherever a placeholder of an argument stands in the format, it is one of the pieces, whatever braces stand
around it.
-/

namespace Reentry

namespace Placeholder

/-- A piece of the format of a message with so many arguments. -/
inductive Piece (count : Nat) where
  | plain (text : List Char)
  /-- What stands between the braces names an argument. -/
  | slot (inside : List Char) (index : Fin count) (names : readIndex? inside = some index.val)

namespace Piece

variable {count : Nat}

/-- The piece as it stands in the format. -/
def spelled : Piece count → List Char
  | .plain text => text
  | .slot inside _ _ => '\x7b' :: (inside ++ '\x7d' :: [])

/-- The piece as it stands in the message, given what the arguments look like. -/
def filled (shown : Fin count → String) : Piece count → List Char
  | .plain text => text
  | .slot _ index _ => (shown index).toList

end Piece

variable {count : Nat}

/-- Each message of the format is made of the pieces, whatever its arguments are and look like. -/
def MadeOf (format : String) (pieces : List (Piece count)) : Prop :=
  ∀ {α : Type} (text : α → String) (args : List α) (known : args.length = count),
    formatMessage text format args = String.ofList (pieces.flatMap (Piece.filled fun index => text (args.get (index.cast known.symm))))

section Braces

variable {inside : List Char} {index : Nat}

theorem isDigit_of_readNat? (reads : Decimal.readNat? inside = some index) : ∀ c ∈ inside, Decimal.isDigit c := by
  unfold Decimal.readNat? at reads
  split at reads
  · cases reads
  · split at reads
    next digits => exact List.all_eq_true.mp digits
    next => cases reads

theorem ne_brace_of_isDigit {c : Char} (digit : Decimal.isDigit c) : c ≠ '\x7b' ∧ c ≠ '\x7d' := by
  constructor <;> rintro rfl <;> cases digit

theorem ne_brace_of_readIndex? (reads : readIndex? inside = some index) : ∀ c ∈ inside, c ≠ '\x7b' ∧ c ≠ '\x7d' := by
  intro c member
  unfold readIndex? at reads
  split at reads
  next digits =>
    rcases List.mem_cons.mp member with rfl | member
    · decide
    · exact ne_brace_of_isDigit (isDigit_of_readNat? reads c member)
  next => exact ne_brace_of_isDigit (isDigit_of_readNat? reads c member)

theorem unclosed_of_readIndex? (reads : readIndex? inside = some index) : '\x7d' ∉ inside :=
  fun member => (ne_brace_of_readIndex? reads _ member).2 rfl

/-- A sign aside, a number is read as its digits tell. -/
theorem readIndex?_digits (some_digit : inside ≠ []) (digits : ∀ c ∈ inside, Decimal.isDigit c) :
    readIndex? inside = some (Nat.ofDigitChars 10 inside 0) := by
  have unsigned (rest : List Char) : inside ≠ '+' :: rest := by
    rintro rfl
    cases digits '+' List.mem_cons_self
  unfold readIndex?
  split
  next digits' => exact absurd rfl (unsigned digits')
  next => simp [Decimal.readNat?, some_digit, List.all_eq_true.mpr digits]

/-- A placeholder ends at the first closing brace. -/
theorem takeWhile_closed (unclosed : '\x7d' ∉ inside) (after : List Char) :
    (inside ++ '\x7d' :: after).takeWhile (· ≠ '\x7d') = inside := by
  have kept : ∀ c ∈ inside, decide (c ≠ '\x7d') = true := by
    intro c member
    exact decide_eq_true fun brace => unclosed (brace ▸ member)
  rw [List.takeWhile_append_of_pos kept]
  simp

theorem closed_at_first {inside' after after' : List Char} (unclosed : '\x7d' ∉ inside) (unclosed' : '\x7d' ∉ inside')
    (same : inside ++ '\x7d' :: after = inside' ++ '\x7d' :: after') : inside = inside' ∧ after = after' := by
  obtain rfl : inside = inside' := by rw [← takeWhile_closed unclosed, same, takeWhile_closed unclosed']
  exact ⟨rfl, (List.cons.inj (List.append_cancel_left same)).2⟩

/-- What is found past text without it is found in what follows that text. -/
theorem found_behind {c : Char} {front back before after : List Char} (absent : c ∉ front) (same : front ++ back = before ++ c :: after) :
    ∃ between, before = front ++ between ∧ back = between ++ c :: after := by
  rcases List.append_eq_append_iff.mp same with ⟨between, first, second⟩ | ⟨between, first, second⟩
  · exact ⟨between, first, second⟩
  · cases between with
    | nil => exact ⟨[], by simpa using first.symm, second.symm⟩
    | cons other rest =>
        obtain ⟨rfl, -⟩ := List.cons.inj second
        exact absurd (by simp [first]) absent

end Braces

section Fill

variable {α : Type} {text : α → String} {args : List α} {inside : List Char}

theorem argument?_closed (unclosed : '\x7d' ∉ inside) (after : List Char) :
    argument? args (inside ++ '\x7d' :: after) = (readIndex? inside).bind (args[·]?) := by
  unfold argument?
  rw [if_pos (by simp), takeWhile_closed unclosed]
  rfl

theorem exists_of_argument?_eq_some {rest : List Char} {arg : α} (found : argument? args rest = some arg) :
    ∃ inside index after, rest = inside ++ '\x7d' :: after ∧ readIndex? inside = some index ∧ args[index]? = some arg := by
  by_cases closed : '\x7d' ∈ rest
  · obtain ⟨inside, after, rfl, unclosed⟩ := List.eq_append_cons_of_mem closed
    rw [argument?_closed unclosed] at found
    obtain ⟨index, names, known⟩ := Option.bind_eq_some_iff.mp found
    exact ⟨inside, index, after, rfl, names, known⟩
  · simp [argument?, closed] at found

theorem fill_inside (unclosed : '\x7d' ∉ inside) (after : List Char) :
    fill text args true (inside ++ '\x7d' :: after) = fill text args false after := by
  induction inside with
  | nil => simp [fill]
  | cons c rest ih =>
      simp only [List.mem_cons, not_or] at unclosed
      simpa [fill, Ne.symm unclosed.1] using ih unclosed.2

theorem fill_slot {index : Nat} {arg : α} (names : readIndex? inside = some index) (known : args[index]? = some arg)
    (after : List Char) : fill text args false ('\x7b' :: (inside ++ '\x7d' :: after)) = (text arg).toList ++ fill text args false after := by
  have unclosed := unclosed_of_readIndex? names
  simp [fill, argument?_closed unclosed, names, known, fill_inside unclosed]

theorem fill_plain {before : List Char} (plain : '\x7b' ∉ before) (after : List Char) :
    fill text args false (before ++ after) = before ++ fill text args false after := by
  induction before with
  | nil => rfl
  | cons c rest ih =>
      simp only [List.mem_cons, not_or] at plain
      simpa [fill, Ne.symm plain.1] using ih plain.2

/-- Without arguments nothing is filled in. -/
theorem fill_nil (rest : List Char) : fill text [] false rest = rest := by
  induction rest with
  | nil => rfl
  | cons c rest ih =>
      have none : argument? ([] : List α) rest = none := Option.eq_none_iff_forall_ne_some.mpr fun arg found => by
        obtain ⟨_, _, _, _, _, known⟩ := exists_of_argument?_eq_some found
        cases known
      simp [fill, none, ih]

/-- Pieces whose text has no opening brace are what the format falls into. -/
theorem fill_pieces {pieces : List (Piece args.length)} (plain : ∀ text, .plain text ∈ pieces → '\x7b' ∉ text) :
    fill text args false (pieces.flatMap Piece.spelled) = pieces.flatMap (Piece.filled fun index => text (args.get index)) := by
  induction pieces with
  | nil => rfl
  | cons piece pieces ih =>
      have rest := ih fun text member => plain text (List.mem_cons_of_mem _ member)
      cases piece with
      | plain kept => simp [Piece.spelled, Piece.filled, fill_plain (plain kept List.mem_cons_self), rest]
      | slot inside index names =>
          have known : args[index.val]? = some (args.get index) := by simp
          simp [Piece.spelled, Piece.filled, fill_slot names known, rest]

end Fill

/-- No placeholder of an argument begins here. -/
def Idle (count : Nat) (format : List Char) : Prop :=
  ∀ inside index after, format = '\x7b' :: (inside ++ '\x7d' :: after) → readIndex? inside = some index → count ≤ index

/-- How a format is cut: where a placeholder of an argument begins, it comes off as a whole, elsewhere one character does. -/
inductive Cut (count : Nat) : List Char → List (Piece count) → Prop
  | nil : Cut count [] []
  | slot {inside index names after pieces} (rest : Cut count after pieces) :
      Cut count ('\x7b' :: (inside ++ '\x7d' :: after)) (.slot inside index names :: pieces)
  | plain {c after pieces} (idle : Idle count (c :: after)) (rest : Cut count after pieces) : Cut count (c :: after) (.plain [c] :: pieces)

namespace Cut

variable {format : List Char} {pieces : List (Piece count)}

theorem exists_pieces (format : List Char) : ∃ pieces, Cut count format pieces := by
  induction length : format.length using Nat.strongRecOn generalizing format with
  | _ length ih =>
      subst length
      by_cases idle : Idle count format
      · cases format with
        | nil => exact ⟨[], .nil⟩
        | cons c after =>
            obtain ⟨pieces, cut⟩ := ih after.length (by simp) after rfl
            exact ⟨.plain [c] :: pieces, .plain idle cut⟩
      · simp only [Idle, Classical.not_forall, Nat.not_le] at idle
        obtain ⟨inside, index, after, rfl, names, known⟩ := idle
        obtain ⟨pieces, cut⟩ := ih after.length (by simp; omega) after rfl
        exact ⟨.slot inside ⟨index, known⟩ names :: pieces, .slot cut⟩

theorem spelled (cut : Cut count format pieces) : pieces.flatMap Piece.spelled = format := by
  induction cut with
  | nil => rfl
  | slot _ ih => simp [Piece.spelled, ih]
  | plain _ _ ih => simp [Piece.spelled, ih]

theorem fill_idle {α : Type} {text : α → String} {args : List α} {c : Char} {after : List Char} (idle : Idle args.length (c :: after)) :
    fill text args false (c :: after) = c :: fill text args false after := by
  by_cases brace : c = '\x7b'
  · have none : argument? args after = none := Option.eq_none_iff_forall_ne_some.mpr fun arg found => by
      obtain ⟨inside, index, later, rfl, names, there⟩ := exists_of_argument?_eq_some found
      have beyond := idle inside index later (by rw [brace]) names
      have within := (List.getElem?_eq_some_iff.mp there).1
      omega
    simp [fill, brace, none]
  · simp [fill, brace]

theorem fill_eq {α : Type} {text : α → String} {args : List α} {pieces : List (Piece args.length)} (cut : Cut args.length format pieces) :
    fill text args false format = pieces.flatMap (Piece.filled fun index => text (args.get index)) := by
  induction cut with
  | nil => rfl
  | @slot inside index names after pieces _ ih =>
      have known : args[index.val]? = some (args.get index) := by simp
      rw [fill_slot names known, ih]
      rfl
  | @plain c after pieces idle _ ih =>
      rw [fill_idle idle, ih]
      rfl

/-- Wherever a placeholder of an argument stands, it is cut off as a whole: the placeholders before it have closed. -/
theorem slot_of_names (cut : Cut count format pieces) {before inside after : List Char} {index : Nat} (known : index < count)
    (names : readIndex? inside = some index) (found : format = before ++ '\x7b' :: (inside ++ '\x7d' :: after)) :
    ∃ earlier later, pieces = earlier ++ .slot inside ⟨index, known⟩ names :: later ∧ earlier.flatMap Piece.spelled = before ∧
      later.flatMap Piece.spelled = after := by
  induction cut generalizing before with
  | nil => simp at found
  | @slot inside' index' names' after' pieces rest ih =>
      cases before with
      | nil =>
          obtain ⟨rfl, rfl⟩ := closed_at_first (unclosed_of_readIndex? names') (unclosed_of_readIndex? names) (List.cons.inj found).2
          obtain rfl : index' = ⟨index, known⟩ := Fin.ext (Option.some.inj (names'.symm.trans names))
          exact ⟨[], pieces, rfl, rfl, rest.spelled⟩
      | cons brace before =>
          obtain ⟨rfl, behind⟩ := List.cons.inj found
          have unopened : '\x7b' ∉ inside' ++ ['\x7d'] := fun member => by
            rcases List.mem_append.mp member with member | member
            · exact (ne_brace_of_readIndex? names' _ member).1 rfl
            · simp at member
          obtain ⟨between, rfl, beyond⟩ := found_behind unopened (by simpa using behind)
          obtain ⟨earlier, later, rfl, front, back⟩ := ih beyond
          exact ⟨.slot inside' index' names' :: earlier, later, rfl, by simp [Piece.spelled, front], back⟩
  | @plain c after' pieces idle rest ih =>
      cases before with
      | nil => exact absurd known (Nat.not_lt.mpr (idle inside index after found names))
      | cons first before =>
          obtain ⟨rfl, behind⟩ := List.cons.inj found
          obtain ⟨earlier, later, rfl, front, back⟩ := ih behind
          exact ⟨.plain [c] :: earlier, later, rfl, by simp [Piece.spelled, front], back⟩

end Cut

/-- A format falls into pieces of which its messages are made, and any placeholder of an argument that it has is one of them. If a format is
written as placeholders and text without opening braces, its messages are made of these; without arguments a message is its format. -/
theorem messages_are_made_of_pieces (format : String) (count : Nat) :
    (∀ inside ≠ [], (∀ c ∈ inside, Decimal.isDigit c) → readIndex? inside = some (Nat.ofDigitChars 10 inside 0)) ∧
    (∀ pieces : List (Piece count), (∀ text, .plain text ∈ pieces → '\x7b' ∉ text) → pieces.flatMap Piece.spelled = format.toList →
      MadeOf format pieces) ∧
    (∀ {α : Type} (text : α → String), formatMessage text format [] = format) ∧
    ∃ pieces : List (Piece count), pieces.flatMap Piece.spelled = format.toList ∧ MadeOf format pieces ∧
      ∀ before inside after index (known : index < count) (names : readIndex? inside = some index),
        format.toList = before ++ '\x7b' :: (inside ++ '\x7d' :: after) →
        ∃ earlier later, pieces = earlier ++ .slot inside ⟨index, known⟩ names :: later ∧ earlier.flatMap Piece.spelled = before ∧
          later.flatMap Piece.spelled = after := by
  refine ⟨fun inside => readIndex?_digits, fun pieces plain spelled => ?_, fun text => ?_, ?_⟩
  · intro α text args known
    subst known
    rw [formatMessage, ← spelled, fill_pieces plain]
    rfl
  · rw [formatMessage, fill_nil, String.ofList_toList]
  · obtain ⟨pieces, cut⟩ := @Cut.exists_pieces count format.toList
    refine ⟨pieces, cut.spelled, ?_, fun before inside after index known names found => cut.slot_of_names known names found⟩
    intro α text args known
    subst known
    rw [formatMessage, cut.fill_eq]
    rfl

/-- An argument that looks like a placeholder is left as it is, and so is a brace that closes nothing. -/
theorem shown_placeholder_stays :
    let pieces : List (Piece 2) := [.slot ['0'] 0 (by decide), .plain ['='], .slot ['1'] 1 (by decide), .plain ['\x7d']]
    (∀ text, .plain text ∈ pieces → '\x7b' ∉ text) ∧ pieces.flatMap Piece.spelled = "\x7b0\x7d=\x7b1\x7d\x7d".toList ∧
      formatMessage id "\x7b0\x7d=\x7b1\x7d\x7d" ["\x7b1\x7d", "b"] = "\x7b1\x7d=b\x7d" := by
  intro pieces
  have plain : ∀ text, .plain text ∈ pieces → '\x7b' ∉ text := by simp [pieces]
  have spelled : pieces.flatMap Piece.spelled = "\x7b0\x7d=\x7b1\x7d\x7d".toList := by decide
  exact ⟨plain, spelled, (messages_are_made_of_pieces _ 2).2.1 pieces plain spelled id ["\x7b1\x7d", "b"] rfl⟩

end Placeholder

end Reentry
