import Reentry.Text.Decimal
import Reentry.Text.GraphemeExtend
import Reentry.Text.Unprintable

/-!
Quoted text, as code dumps show it. Characters that cannot be seen, or that would attach to another one,
are written by their code points in hexadecimal.
-/

namespace Reentry.Quoted

def codePoint (c : Char) : String :=
  "\\u\x7b" ++ Decimal.hexText c.toNat ++ "\x7d"

/-- Form of one character between quotes. A single quote stands for itself. -/
def char (c : Char) : String :=
  if c = '\x00' then "\\0"
  else if c = '\t' then "\\t"
  else if c = '\r' then "\\r"
  else if c = '\n' then "\\n"
  else if c = '\\' then "\\\\"
  else if c = '"' then "\\\""
  else if isGraphemeExtend c || isUnprintable c then codePoint c
  else String.singleton c

def text (content : String) : String :=
  "\"" ++ String.join (content.toList.map char) ++ "\""

end Reentry.Quoted
