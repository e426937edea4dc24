import Reentry.Text.Decimal

/-!
Quoted strings of TOML. Each reader starts behind the opening quotes and gives the string and what
follows its closing quotes.
-/

namespace Reentry.Toml

/-- Characters that may stand in comments and, some quotes and backslashes apart, in strings. -/
def isPlain (c : Char) : Bool := c == '\t' || (0x20 ≤ c.toNat && c.toNat ≠ 0x7F)

def isBlank (c : Char) : Bool := c == ' ' || c == '\t'

/-- What a one-letter escape stands for. -/
def escaped? : Char → Option Char
  | 'b' => some '\x08'
  | 't' => some '\t'
  | 'n' => some '\n'
  | 'f' => some '\x0c'
  | 'r' => some '\r'
  | '"' => some '"'
  | '\\' => some '\\'
  | _ => none

/-- The character with the code point that hexadecimal digits give. -/
def codePoint? (digits : List Char) : Option Char := do
  let values ← digits.mapM Decimal.hexDigit?
  let code := values.foldl (fun code digit => code * 16 + digit) 0
  if code.isValidChar then some (Char.ofNat code) else none

abbrev ReadText := Option (List Char × List Char)

/-- Puts a character in front of a string that has been read. -/
def consText (c : Char) (text : ReadText) : ReadText := text.map fun (read, rest) => (c :: read, rest)

/-- A string in double quotes on one line. -/
def readBasic? : List Char → ReadText
  | '"' :: rest => some ([], rest)
  | '\\' :: 'u' :: a :: b :: c :: d :: rest => do
      consText (← codePoint? [a, b, c, d]) (readBasic? rest)
  | '\\' :: 'U' :: a :: b :: c :: d :: e :: f :: g :: h :: rest => do
      consText (← codePoint? [a, b, c, d, e, f, g, h]) (readBasic? rest)
  | '\\' :: mark :: rest => do consText (← escaped? mark) (readBasic? rest)
  | c :: rest => if isPlain c && c != '\\' then consText c (readBasic? rest) else none
  | [] => none

/-- A string in single quotes on one line, without escapes. -/
def readLiteral? : List Char → ReadText
  | '\'' :: rest => some ([], rest)
  | c :: rest => if isPlain c then consText c (readLiteral? rest) else none
  | [] => none

/-- Where the reader of a string of several lines stands. -/
inductive LineMode where
  | text
  /-- Behind a backslash that ends its line; blanks follow, then the end of the line. -/
  | gapStart
  /-- In the layout that such a backslash removes. -/
  | gap
deriving DecidableEq

/-- A string in three double quotes. Up to two quotes may stand directly in front of the closing ones. -/
def readLongBasic? (mode : LineMode) : List Char → ReadText
  | '"' :: '"' :: '"' :: '"' :: '"' :: rest => if mode = .gapStart then none else some (['"', '"'], rest)
  | '"' :: '"' :: '"' :: '"' :: rest => if mode = .gapStart then none else some (['"'], rest)
  | '"' :: '"' :: '"' :: rest => if mode = .gapStart then none else some ([], rest)
  | '\r' :: '\n' :: rest =>
      if mode = .text then consText '\n' (readLongBasic? .text rest) else readLongBasic? .gap rest
  | '\n' :: rest =>
      if mode = .text then consText '\n' (readLongBasic? .text rest) else readLongBasic? .gap rest
  | '\\' :: 'u' :: a :: b :: c :: d :: rest =>
      if mode = .gapStart then none
      else do consText (← codePoint? [a, b, c, d]) (readLongBasic? .text rest)
  | '\\' :: 'U' :: a :: b :: c :: d :: e :: f :: g :: h :: rest =>
      if mode = .gapStart then none
      else do consText (← codePoint? [a, b, c, d, e, f, g, h]) (readLongBasic? .text rest)
  | '\\' :: rest =>
      if mode = .gapStart then none
      else match rest with
        | ' ' :: rest => readLongBasic? .gapStart rest
        | '\t' :: rest => readLongBasic? .gapStart rest
        | '\n' :: rest => readLongBasic? .gap rest
        | '\r' :: '\n' :: rest => readLongBasic? .gap rest
        | mark :: rest => do consText (← escaped? mark) (readLongBasic? .text rest)
        | [] => none
  | c :: rest =>
      if isBlank c && mode ≠ .text then readLongBasic? mode rest
      else if isPlain c && mode ≠ .gapStart then consText c (readLongBasic? .text rest)
      else none
  | [] => none

/-- A string in three single quotes, without escapes. -/
def readLongLiteral? : List Char → ReadText
  | '\'' :: '\'' :: '\'' :: '\'' :: '\'' :: rest => some (['\'', '\''], rest)
  | '\'' :: '\'' :: '\'' :: '\'' :: rest => some (['\''], rest)
  | '\'' :: '\'' :: '\'' :: rest => some ([], rest)
  | '\r' :: '\n' :: rest => consText '\n' (readLongLiteral? rest)
  | '\n' :: rest => consText '\n' (readLongLiteral? rest)
  | c :: rest => if isPlain c then consText c (readLongLiteral? rest) else none
  | [] => none

/-- A line end directly behind the opening quotes does not count. -/
def dropFirstLine : List Char → List Char
  | '\n' :: rest => rest
  | '\r' :: '\n' :: rest => rest
  | rest => rest

end Reentry.Toml
