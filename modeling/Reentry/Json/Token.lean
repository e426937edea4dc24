import Reentry.Text.Decimal

/-!
Tokens of a JSON text. The lexer is a fold over the characters, so the tokens of a text are those of its
first part followed by those the rest adds. Text before the first and after the last token may only be
white space.
-/

namespace Reentry.Json

inductive Token where
  | openArr
  | closeArr
  | openObj
  | closeObj
  | comma
  | colon
  | null
  | bool (value : Bool)
  | int (value : Int)
  | real (numeral : String)
  | str (text : String) (isEscaped : Bool)
  /-- A string with an unpaired surrogate escape. -/
  | garbled
deriving DecidableEq, Repr

/-- What has been read of a string. Characters are kept last first. -/
structure PartialText where
  read : List Char
  /-- A leading surrogate that waits for its trailing one. -/
  lead : Option Nat
  /-- Whether some surrogate stayed alone. -/
  garbled : Bool
  /-- Whether there was an escape. -/
  escaped : Bool

namespace PartialText

def start : PartialText := ⟨[], none, false, false⟩

def addChar (text : PartialText) (c : Char) : PartialText :=
  { text with read := c :: text.read, lead := none, garbled := text.garbled || text.lead.isSome }

/-- Adds a UTF-16 unit; a leading surrogate joins the trailing one that directly follows it. -/
def addUnit (text : PartialText) (unit : Nat) : PartialText :=
  if 0xD800 ≤ unit ∧ unit < 0xDC00 then
    { text with lead := some unit, garbled := text.garbled || text.lead.isSome }
  else if 0xDC00 ≤ unit ∧ unit < 0xE000 then
    match text.lead with
    | some lead =>
        { text with
          read := Char.ofNat (0x10000 + (lead - 0xD800) * 0x400 + (unit - 0xDC00)) :: text.read
          lead := none }
    | none => { text with garbled := true }
  else text.addChar (Char.ofNat unit)

def token (text : PartialText) : Token :=
  if text.garbled || text.lead.isSome then .garbled
  else .str (String.ofList text.read.reverse) text.escaped

end PartialText

/-- Where the lexer stands. -/
inductive LexMode where
  | between
  | word (read : List Char)
  | number (read : List Char)
  | text (content : PartialText)
  | escape (content : PartialText)
  /-- Inside a four-digit escape; `missing` digits follow. -/
  | unit (content : PartialText) (missing value : Nat)

structure Lexer where
  mode : LexMode
  /-- Tokens read so far, last first. -/
  tokens : List Token

namespace Lexer

def start : Lexer := ⟨.between, []⟩

def isBlank (c : Char) : Bool := c == ' ' || c == '\t' || c == '\n' || c == '\r'

def isLetter (c : Char) : Bool := 'a' ≤ c && c ≤ 'z'

def isNumberChar (c : Char) : Bool :=
  Decimal.isDigit c || c == '-' || c == '+' || c == '.' || c == 'e' || c == 'E'

def wordToken? (word : List Char) : Option Token :=
  if word = ['n', 'u', 'l', 'l'] then some .null
  else if word = ['t', 'r', 'u', 'e'] then some (.bool true)
  else if word = ['f', 'a', 'l', 's', 'e'] then some (.bool false)
  else none

/-- Whether a run of digits is a whole part: not empty and without a needless leading zero. -/
def isWholePart : List Char → Bool
  | [] => false
  | ['0'] => true
  | first :: rest => first != '0' && (first :: rest).all Decimal.isDigit

/-- Whether the text is empty or an exponent: the mark, an optional sign, and digits. -/
def isExponent : List Char → Bool
  | [] => true
  | mark :: rest =>
      let digits := match rest with
        | '+' :: digits => digits
        | '-' :: digits => digits
        | digits => digits
      (mark == 'e' || mark == 'E') && !digits.isEmpty && digits.all Decimal.isDigit

/-- Whether the text is an optional fraction followed by an optional exponent. -/
def isFractionExponent : List Char → Bool
  | '.' :: rest =>
      !(rest.takeWhile Decimal.isDigit).isEmpty && isExponent (rest.dropWhile Decimal.isDigit)
  | rest => isExponent rest

/-- A numeral is an optional minus sign, a whole part, and maybe a fraction and an exponent. Minus
zero is no integer. -/
def numberToken? (numeral : List Char) : Option Token :=
  let unsigned := match numeral with
    | '-' :: rest => rest
    | rest => rest
  let negative := numeral.head? == some '-'
  let whole := unsigned.takeWhile Decimal.isDigit
  let rest := unsigned.dropWhile Decimal.isDigit
  if isWholePart whole && isFractionExponent rest then
    let value := Nat.ofDigitChars 10 whole 0
    if rest.isEmpty && !(negative && value == 0) then
      some (.int (if negative then -value else value))
    else some (.real (String.ofList numeral))
  else none

/-- Closes a word or numeral that ends here. -/
def flush (lexer : Lexer) : Option Lexer :=
  match lexer.mode with
  | .between => some lexer
  | .word read => (wordToken? read.reverse).map fun token => ⟨.between, token :: lexer.tokens⟩
  | .number read => (numberToken? read.reverse).map fun token => ⟨.between, token :: lexer.tokens⟩
  | _ => none

/-- Reads a character outside of words, numerals and strings. -/
def begin (tokens : List Token) (c : Char) : Option Lexer :=
  if isBlank c then some ⟨.between, tokens⟩
  else if c = '[' then some ⟨.between, .openArr :: tokens⟩
  else if c = ']' then some ⟨.between, .closeArr :: tokens⟩
  else if c = '\x7b' then some ⟨.between, .openObj :: tokens⟩
  else if c = '\x7d' then some ⟨.between, .closeObj :: tokens⟩
  else if c = ',' then some ⟨.between, .comma :: tokens⟩
  else if c = ':' then some ⟨.between, .colon :: tokens⟩
  else if c = '"' then some ⟨.text .start, tokens⟩
  else if isLetter c then some ⟨.word [c], tokens⟩
  else if isNumberChar c then some ⟨.number [c], tokens⟩
  else none

/-- The character that a one-letter escape stands for. -/
def escaped? (c : Char) : Option Char :=
  if c = '"' ∨ c = '\\' ∨ c = '/' then some c
  else if c = 'b' then some '\x08'
  else if c = 'f' then some '\x0c'
  else if c = 'n' then some '\n'
  else if c = 'r' then some '\r'
  else if c = 't' then some '\t'
  else none

def advance (lexer : Lexer) (c : Char) : Option Lexer :=
  match lexer.mode with
  | .between => begin lexer.tokens c
  | .word read =>
      if isLetter c then some { lexer with mode := .word (c :: read) }
      else do begin (← lexer.flush).tokens c
  | .number read =>
      if isNumberChar c then some { lexer with mode := .number (c :: read) }
      else do begin (← lexer.flush).tokens c
  | .text content =>
      if c = '"' then some ⟨.between, content.token :: lexer.tokens⟩
      else if c = '\\' then some { lexer with mode := .escape { content with escaped := true } }
      else if c.toNat < 0x20 then none
      else some { lexer with mode := .text (content.addChar c) }
  | .escape content =>
      if c = 'u' then some { lexer with mode := .unit content 4 0 }
      else (escaped? c).map fun plain => { lexer with mode := .text (content.addChar plain) }
  | .unit content missing value => do
      let digit ← Decimal.hexDigit? c
      let value := value * 16 + digit
      if missing ≤ 1 then some { lexer with mode := .text (content.addUnit value) }
      else some { lexer with mode := .unit content (missing - 1) value }

end Lexer

/-- Tokens of a text, or nothing if some part of it is no token. -/
def tokens? (text : List Char) : Option (List Token) := do
  let lexer ← text.foldlM Lexer.advance Lexer.start
  let lexer ← lexer.flush
  some lexer.tokens.reverse

end Reentry.Json
