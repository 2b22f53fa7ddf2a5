import PullLexer.Text.Basic
import PullLexer.Text.CharClass

/-!
# Quoted texts

A text between quotation marks. The apostrophe is the usual mark; a text that
holds an apostrophe and no double mark stands between double marks, so that a
mark is escaped only in a text that holds both. Characters that cannot be
printed are written as hexadecimal escapes of two, four or eight digits.
-/

namespace PullLexer.Text

def hexDigit (n : Nat) : Char :=
  if n < 10 then Char.ofNat (0x30 + n) else Char.ofNat (0x57 + n)

/-- The last `width` hexadecimal digits of a number, in small letters. -/
def hex : (width : Nat) → Nat → Text
  | 0, _ => []
  | width + 1, n => hex width (n / 16) ++ [hexDigit (n % 16)]

def quoteMark (t : Text) : Char := if t.contains '\'' && !t.contains '"' then '"' else '\''

/-- How a character stands in a text quoted with `mark`; `printable` tells which ones stand for
themselves. -/
def escapeIn (printable : Nat → Bool) (mark c : Char) : Text :=
  if c == mark || c == '\\' then ['\\', c]
  else if c == '\n' then ['\\', 'n']
  else if c == '\r' then ['\\', 'r']
  else if c == '\t' then ['\\', 't']
  else if printable c.toNat then [c]
  else if c.toNat < 0x100 then '\\' :: 'x' :: hex 2 c.toNat
  else if c.toNat < 0x10000 then '\\' :: 'u' :: hex 4 c.toNat
  else '\\' :: 'U' :: hex 8 c.toNat

def quotedWith (printable : Nat → Bool) (t : Text) : Text :=
  quoteMark t :: t.flatMap (escapeIn printable (quoteMark t)) ++ [quoteMark t]

def quoted (t : Text) : Text := quotedWith CharClass.isPrintable t

/-- A byte text, in which only ASCII characters stand for themselves. -/
def quotedBytes (t : Text) : Text :=
  'b' :: quotedWith (fun code => 0x20 ≤ code && code < 0x7F) t

end PullLexer.Text
