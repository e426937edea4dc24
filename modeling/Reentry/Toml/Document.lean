import Reentry.Toml.Quoted
import Reentry.Toml.Scalar

/-!
From a TOML text to its root table. Lines are read one after another as headers and assignments, which
are then carried out in order on the root table.
-/

namespace Reentry.Toml

/-- Reading from the front of a text. -/
abbrev Reading := StateT (List Char) Option

namespace Reading

/-- Takes characters as long as they satisfy the test. -/
def takeWhile (test : Char → Bool) : Reading (List Char) :=
  modifyGet fun text => (text.takeWhile test, text.dropWhile test)

def skipBlanks : Reading Unit := discard (takeWhile isBlank)

/-- Takes the characters that stand for a piece of punctuation, if they come next. -/
def accept (mark : List Char) : Reading Bool :=
  modifyGet fun text => if mark.isPrefixOf text then (true, text.drop mark.length) else (false, text)

def expect (mark : List Char) : Reading Unit := do
  if !(← accept mark) then failure

def ofText (read : List Char → ReadText) : Reading String := fun text => do
  let (content, rest) ← read text
  some (String.ofList content, rest)

/-- Drops blanks, line ends and comments. -/
def dropLayout (inComment : Bool) : List Char → List Char
  | '\n' :: rest => dropLayout false rest
  | '\r' :: '\n' :: rest => dropLayout false rest
  | c :: rest =>
      if inComment then if isPlain c then dropLayout true rest else c :: rest
      else if isBlank c then dropLayout false rest
      else if c = '#' then dropLayout true rest
      else c :: rest
  | [] => []

def skipLayout : Reading Unit := modify (dropLayout false)

/-- The rest of a line: blanks, maybe a comment, and the end of the line or of the text. -/
def lineEnd : Reading Unit := do
  skipBlanks
  if ← accept ['#'] then discard (takeWhile isPlain)
  if (← get).isEmpty then return
  if ← accept ['\r', '\n'] then return
  expect ['\n']

def isKeyChar (c : Char) : Bool := c.isAlphanum || c == '_' || c == '-'

/-- One part of a dotted key. -/
def keyPart : Reading String := do
  if ← accept ['"'] then ofText readBasic?
  else if ← accept ['\''] then ofText readLiteral?
  else
    let part ← takeWhile isKeyChar
    if part.isEmpty then failure
    pure (String.ofList part)

/-- A key of at most so many parts. -/
def keyWithin : Nat → Reading (List String)
  | 0 => failure
  | parts + 1 => do
      let part ← keyPart
      skipBlanks
      if ← accept ['.'] then
        skipBlanks
        pure (part :: (← keyWithin parts))
      else pure [part]

/-- How many parts a key may have, and how many brackets and braces may be open around a value. -/
def nestingLimit : Nat := 79

/-- A key and the blanks behind it. -/
def key : Reading (List String) := keyWithin nestingLimit

def isScalarChar (c : Char) : Bool := isKeyChar c || c == '+' || c == '.' || c == ':'

/-- An unquoted value. The time of day that follows a date is part of the value. -/
def scalar : Reading Toml := do
  let word ← takeWhile isScalarChar
  match ← get with
  | ' ' :: digit :: _ =>
      if isDate word && Decimal.isDigit digit then
        expect [' ']
        readScalar? (word ++ ' ' :: (← takeWhile isScalarChar))
      else readScalar? word
  | _ => readScalar? word

/-- Items of a list, at most so many, and the bracket that closes it. -/
def listWithin (value : Reading Toml) : Nat → Reading (List Toml)
  | 0 => failure
  | items + 1 => do
      skipLayout
      if ← accept [']'] then return []
      let item ← value
      skipLayout
      if ← accept [','] then return item :: (← listWithin value items)
      expect [']']
      return [item]

/-- A key, the equals sign and the value. -/
def pair (value : Reading Toml) : Reading (List String × Toml) := do
  let path ← key
  expect ['=']
  skipBlanks
  pure (path, ← value)

/-- Keys and values of a table in braces, at most so many, and the brace that closes it. -/
def pairsWithin (value : Reading Toml) : Nat → Reading (List (List String × Toml))
  | 0 => failure
  | pairs + 1 => do
      skipBlanks
      let first ← pair value
      skipBlanks
      if ← accept [','] then return first :: (← pairsWithin value pairs)
      expect ['\x7d']
      return [first]

/-- A value without brackets and braces. -/
def simpleValue : Reading Toml := do
  if ← accept ['"', '"', '"'] then
    modify dropFirstLine
    .str <$> ofText (readLongBasic? .text)
  else if ← accept ['\'', '\'', '\''] then
    modify dropFirstLine
    .str <$> ofText readLongLiteral?
  else if ← accept ['"'] then .str <$> ofText readBasic?
  else if ← accept ['\''] then .str <$> ofText readLiteral?
  else scalar

/-- A value with at most so many levels of brackets and braces. -/
def valueWithin : Nat → Reading Toml
  | 0 => simpleValue
  | levels + 1 => do
      if ← accept ['['] then
        .arr <$> listWithin (valueWithin levels) ((← get).length + 1)
      else if ← accept ['\x7b'] then
        skipBlanks
        if ← accept ['\x7d'] then pure (.table .braces [])
        else ofPairs? (← pairsWithin (valueWithin levels) ((← get).length + 1))
      else simpleValue

def value : Reading Toml := valueWithin nestingLimit

end Reading

/-- What a line says. -/
inductive Line where
  | blank
  | header (path : List String)
  | repeatedHeader (path : List String)
  | assignment (path : List String) (value : Toml)

namespace Line

def read : Reading Line := do
  Reading.skipBlanks
  if ← Reading.accept ['[', '['] then
    Reading.skipBlanks
    let path ← Reading.key
    Reading.expect [']', ']']
    Reading.lineEnd
    return .repeatedHeader path
  if ← Reading.accept ['['] then
    Reading.skipBlanks
    let path ← Reading.key
    Reading.expect [']']
    Reading.lineEnd
    return .header path
  match (← get).head? with
  | none | some '#' | some '\n' | some '\r' =>
      Reading.lineEnd
      return .blank
  | some _ =>
      let (path, value) ← Reading.pair Reading.value
      Reading.lineEnd
      return .assignment path value

/-- All lines of a text that has at most so many. -/
def readAll? : Nat → List Char → Option (List Line)
  | _, [] => some []
  | 0, _ => none
  | lines + 1, text => do
      let (line, rest) ← read.run text
      some (line :: (← readAll? lines rest))

end Line

/-- The root table so far, and the path of the table that assignments go to. -/
structure Outline where
  root : Entries
  opened : List String

namespace Outline

def start : Outline := ⟨[], []⟩

/-- Opens the table that a header names. -/
def openWith (outline : Outline) (path : List String) (opening : String → Entries → Option Entries) :
    Option Outline := do
  let root ← modifyAt (opening (← path.getLast?)) path.dropLast outline.root
  some ⟨root, path⟩

def add (outline : Outline) : Line → Option Outline
  | .blank => some outline
  | .header path => outline.openWith path openTable
  | .repeatedHeader path => outline.openWith path openRepeated
  | .assignment path value => do
      some { outline with root := ← modifyAt (insertAt value path) outline.opened outline.root }

end Outline

/-- The root table of a text. A byte order mark in front of it is skipped. -/
def parse? (text : String) : Option Toml := do
  let chars := match text.toList with
    | '\ufeff' :: rest => rest
    | chars => chars
  let outline ← (← Line.readAll? (chars.length + 1) chars).foldlM Outline.add .start
  some (.table .header outline.root)

end Reentry.Toml
