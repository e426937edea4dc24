/-!
Decimal numerals. Main statement: a numeral that was written is read back as the number it was
written for.
-/

namespace Reentry.Decimal

def isDigit (c : Char) : Bool := '0' ≤ c && c ≤ '9'

/-- Numeral of a natural number, without leading zeros. -/
def natDigits (n : Nat) : List Char := Nat.toDigits 10 n

/-- Reads a non-empty run of digits; leading zeros are allowed. -/
def readNat? (numeral : List Char) : Option Nat :=
  if numeral.isEmpty then none
  else if numeral.all isDigit then some (Nat.ofDigitChars 10 numeral 0)
  else none

/-- Numeral of an integer; a minus sign stands in front of the negative ones. -/
def intDigits : Int → List Char
  | .ofNat n => natDigits n
  | .negSucc n => '-' :: natDigits (n + 1)

def natText (n : Nat) : String := String.ofList (natDigits n)

def intText (i : Int) : String := String.ofList (intDigits i)

/-- Lower-case hexadecimal numeral, as character escapes show it. -/
def hexText (n : Nat) : String := String.ofList (Nat.toDigits 16 n)

/-- Value of a hexadecimal digit of either case. -/
def hexDigit? (c : Char) : Option Nat :=
  if isDigit c then some (c.toNat - '0'.toNat)
  else if 'a' ≤ c && c ≤ 'f' then some (c.toNat - 'a'.toNat + 10)
  else if 'A' ≤ c && c ≤ 'F' then some (c.toNat - 'A'.toNat + 10)
  else none

theorem isDigit_of_mem_natDigits {n : Nat} {c : Char} (member : c ∈ natDigits n) : isDigit c = true := by
  have digit := Nat.isDigit_of_mem_toDigits (by omega) (by omega) member
  simp only [Char.isDigit, Bool.and_eq_true, decide_eq_true_eq] at digit
  simp only [isDigit, Bool.and_eq_true, decide_eq_true_eq]
  exact digit

theorem readNat?_natDigits (n : Nat) : readNat? (natDigits n) = some n := by
  have digits : (natDigits n).all isDigit = true :=
    List.all_eq_true.2 fun _ member => isDigit_of_mem_natDigits member
  have nonempty : (natDigits n).isEmpty = false := by
    simp [natDigits, List.isEmpty_eq_false_iff]
  simp only [readNat?, digits, nonempty]
  simp [natDigits, Nat.ofDigitChars_toDigits]

end Reentry.Decimal
