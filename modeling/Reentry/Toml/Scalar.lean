import Reentry.Text.Decimal
import Reentry.Toml.Basic

/-!
Numbers, truth values and times of TOML, each written without blanks except for the one that may stand
between a date and a time of day.
-/

namespace Reentry.Toml

/-- Digits of a kind, with single underscores between them. -/
def ungrouped? (isDigit : Char → Bool) : List Char → Option (List Char)
  | [] => none
  | [digit] => if isDigit digit then some [digit] else none
  | digit :: '_' :: rest => if isDigit digit then (digit :: ·) <$> ungrouped? isDigit rest else none
  | digit :: rest => if isDigit digit then (digit :: ·) <$> ungrouped? isDigit rest else none

def inRange? (value : Int) : Option Toml :=
  if Int64.minValue.toInt ≤ value ∧ value ≤ Int64.maxValue.toInt then some (.int (.ofInt value)) else none

/-- Value of a number in base 2, 8 or 16. -/
def readRadix? (base : Nat) (numeral : List Char) : Option Toml := do
  let isDigit (c : Char) : Bool := match Decimal.hexDigit? c with
    | some digit => digit < base
    | none => false
  let digits ← ungrouped? isDigit numeral
  inRange? (digits.foldl (fun value c => value * base + (Decimal.hexDigit? c).getD 0) 0 : Nat)

/-- Digits of a whole number, which does not start with a needless zero. -/
def wholeDigits? (numeral : List Char) : Option (List Char) := do
  match ← ungrouped? Decimal.isDigit numeral with
  | '0' :: _ :: _ => none
  | digits => some digits

def afterSign : List Char → List Char
  | '+' :: rest => rest
  | '-' :: rest => rest
  | rest => rest

def readInt? (numeral : List Char) : Option Toml :=
  match numeral with
  | '0' :: 'x' :: digits => readRadix? 16 digits
  | '0' :: 'o' :: digits => readRadix? 8 digits
  | '0' :: 'b' :: digits => readRadix? 2 digits
  | _ => do
      let magnitude := Nat.ofDigitChars 10 (← wholeDigits? (afterSign numeral)) 0
      inRange? (if numeral.head? = some '-' then -magnitude else magnitude)

/-- Whether the text is an exponent, sign included but without its mark. -/
def isExponent (numeral : List Char) : Bool := (ungrouped? Decimal.isDigit (afterSign numeral)).isSome

def isMark (c : Char) : Bool := c == 'e' || c == 'E'

/-- Whether the text is a number with a fraction, an exponent or both, or one of the special ones. -/
def isReal (numeral : List Char) : Bool :=
  let unsigned := afterSign numeral
  if unsigned = ['i', 'n', 'f'] || unsigned = ['n', 'a', 'n'] then true
  else
    let whole := unsigned.takeWhile fun c => Decimal.isDigit c || c == '_'
    let rest := unsigned.dropWhile fun c => Decimal.isDigit c || c == '_'
    (wholeDigits? whole).isSome && match rest with
      | '.' :: fraction =>
          (ungrouped? Decimal.isDigit (fraction.takeWhile (!isMark ·))).isSome
            && match fraction.dropWhile (!isMark ·) with
              | [] => true
              | _ :: exponent => isExponent exponent
      | mark :: exponent => isMark mark && isExponent exponent
      | [] => false

/-- The least number that has no double-precision neighbour: it is rounded to infinity, and so is all
above it. It lies half a unit above the largest finite double. -/
def overflowBound : Nat := (1 <<< 54 - 1) <<< 970

/-- Whether digits, read as a whole number and shifted by so many decimal places, reach the bound. The
number of places in front of the point decides, except where it is that of the bound itself. -/
def reachesBound (digits : List Char) (shift : Int) : Bool :=
  let digits := digits.dropWhile (· == '0')
  let places := digits.length + shift
  !digits.isEmpty &&
    (309 < places || places == 309 &&
      overflowBound * Nat.pow 10 (-shift).toNat ≤ Nat.ofDigitChars 10 digits 0 * Nat.pow 10 shift.toNat)

/-- Whether a positive number with a fraction or an exponent is too large for double precision. -/
def overflows (numeral : List Char) : Bool :=
  let digitsOf (text : List Char) : List Char := text.filter Decimal.isDigit
  let mantissa := numeral.takeWhile (!isMark ·)
  let exponent := (numeral.dropWhile (!isMark ·)).drop 1
  let size : Int := Nat.ofDigitChars 10 (digitsOf exponent) 0
  let places := (digitsOf (mantissa.dropWhile (· != '.'))).length
  numeral.head? != some '-' &&
    reachesBound (digitsOf mantissa) ((if exponent.head? = some '-' then -size else size) - places)

/-- Value of a run of so many digits. -/
def digits? (count : Nat) (text : List Char) : Option Nat :=
  if text.length = count then Decimal.readNat? text else none

def daysIn (year month : Nat) : Nat :=
  if month = 2 then if year % 4 = 0 ∧ (year % 100 ≠ 0 ∨ year % 400 = 0) then 29 else 28
  else if month = 4 ∨ month = 6 ∨ month = 9 ∨ month = 11 then 30
  else 31

def isDate : List Char → Bool
  | [y1, y2, y3, y4, '-', m1, m2, '-', d1, d2] =>
      match digits? 4 [y1, y2, y3, y4], digits? 2 [m1, m2], digits? 2 [d1, d2] with
      | some year, some month, some day =>
          1 ≤ month && month ≤ 12 && 1 ≤ day && day ≤ daysIn year month
      | _, _, _ => false
  | _ => false

def isHourMinute : List Char → Bool
  | [h1, h2, ':', m1, m2] =>
      match digits? 2 [h1, h2], digits? 2 [m1, m2] with
      | some hour, some minute => hour ≤ 23 && minute ≤ 59
      | _, _ => false
  | _ => false

def isTimeOfDay (text : List Char) : Bool :=
  isHourMinute (text.take 5) && match text.drop 5 with
    | ':' :: s1 :: s2 :: rest =>
        (match digits? 2 [s1, s2] with
          | some second => second ≤ 60
          | none => false) && match rest with
          | [] => true
          | '.' :: fraction => (Decimal.readNat? fraction).isSome
          | _ => false
    | _ => false

def isOffset : List Char → Bool
  | ['Z'] | ['z'] => true
  | '+' :: rest => isHourMinute rest
  | '-' :: rest => isHourMinute rest
  | _ => false

/-- Whether the text is a date, a time of day, or both, then maybe with an offset. -/
def isTime (text : List Char) : Bool :=
  isDate text || isTimeOfDay text ||
    match text.drop 10 with
    | mark :: rest =>
        let isClock (c : Char) : Bool := Decimal.isDigit c || c == ':' || c == '.'
        let offset := rest.dropWhile isClock
        (mark == 'T' || mark == 't' || mark == ' ') && isDate (text.take 10)
          && isTimeOfDay (rest.takeWhile isClock) && (offset.isEmpty || isOffset offset)
    | [] => false

/-- The value that an unquoted text denotes. -/
def readScalar? (text : List Char) : Option Toml :=
  if text = ['t', 'r', 'u', 'e'] then some (.bool true)
  else if text = ['f', 'a', 'l', 's', 'e'] then some (.bool false)
  else if isReal text then if overflows text then none else some (.real (String.ofList text))
  else if isTime text then some (.time (String.ofList text))
  else readInt? text

end Reentry.Toml
