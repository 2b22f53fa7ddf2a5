import PullLexer.Text.Basic
import PullLexer.Text.CharClass

/-!
# Numerals

The exact value of a number written with a point or an exponent, as a fraction,
so that it can be compared with integers. `nan` compares with nothing, not even
with itself.
-/

namespace PullLexer

inductive Numeral where
  | fraction (numerator : Int) (denominator : Nat)
  | infinite (negative : Bool)
  | notANumber
deriving DecidableEq, Repr

namespace Numeral

def ofInt (i : Int) : Numeral := .fraction i 1

def ofBool (b : Bool) : Numeral := .fraction (if b then 1 else 0) 1

def digits (t : Text) : Nat := t.foldl (fun n c => n * 10 + (c.toNat - 0x30)) 0

/-- An exponent with its sign. -/
def exponent (t : Text) : Int :=
  match t with
  | '-' :: rest => -(digits rest : Int)
  | '+' :: rest => digits rest
  | _ => digits t

/-- The value of a text without a sign. -/
def unsigned (t : Text) : Numeral :=
  let mantissa := t.takeWhile (· != 'e')
  let whole := mantissa.takeWhile (· != '.')
  let part := (mantissa.dropWhile (· != '.')).drop 1
  let power := exponent ((t.dropWhile (· != 'e')).drop 1) - part.length
  let value := digits (whole ++ part)
  if 0 ≤ power then .fraction (value * Nat.pow 10 power.toNat : Nat) 1
  else .fraction value (Nat.pow 10 (-power).toNat)

def negate : Numeral → Numeral
  | .fraction n d => .fraction (-n) d
  | .infinite negative => .infinite (!negative)
  | .notANumber => .notANumber

def magnitude (t : Text) : Numeral :=
  if t = ['n', 'a', 'n'] then .notANumber
  else if t = ['i', 'n', 'f'] then .infinite false
  else unsigned t

def ofText : Text → Numeral
  | '-' :: rest => (magnitude rest).negate
  | t => magnitude t

def less : Numeral → Numeral → Bool
  | .fraction a b, .fraction c d => a * d < c * b
  | .infinite negative, .fraction _ _ => negative
  | .fraction _ _, .infinite negative => !negative
  | .infinite a, .infinite b => a && !b
  | _, _ => false

def same : Numeral → Numeral → Bool
  | .fraction a b, .fraction c d => a * d == c * b
  | .infinite a, .infinite b => a == b
  | _, _ => false

def lessOrSame (a b : Numeral) : Bool := less a b || same a b

theorem less_ofInt (i j : Int) : less (ofInt i) (ofInt j) = decide (i < j) := by
  simp [less, ofInt]

theorem same_ofInt (i j : Int) : same (ofInt i) (ofInt j) = (i == j) := by
  simp [same, ofInt]

end Numeral

end PullLexer
