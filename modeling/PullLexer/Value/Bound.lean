import PullLexer.Failure

/-!
# Bounds and counts as callers give them

A count has to be an integer that is not negative. The bound of an excerpt and
the width of a shortened text are any values: what cannot be compared with an
integer is refused, and so is a floating number where a cut is really made.
-/

namespace PullLexer

namespace Value

/-- An integer that is not negative; a truth value is no integer here. -/
def count? : Value → Option Nat
  | .int (.ofNat n) => some n
  | _ => none

def count (v : Value) : Except Failure Nat :=
  match v.count? with
  | some n => .ok n
  | none => .error (.ofComplaint (.badCount v))

def int? : Value → Option Int
  | .bool b => some (if b then 1 else 0)
  | .int i => some i
  | _ => none

end Value

namespace Text

def excerptBy (bound : Value) (t : Text) : Except Failure Text :=
  match bound.int?, bound.numeral? with
  | some n, _ => .ok (t.excerpt n)
  | none, some n => if n.lessOrSame (.ofInt 0) then .ok [] else .error .notABound
  | none, none => .error (.unordered "<=".toList bound.qualifiedName "int".toList)

def abbreviateBy (width : Value) (t : Text) : Except Failure Text :=
  match width.int?, width.numeral? with
  | some n, _ => .ok (t.abbreviate n)
  | none, some n =>
    if (Numeral.ofInt t.length).lessOrSame n then .ok t
    else if n.less (.ofInt 3) then .ok ellipsis
    else .error .notABound
  | none, none => .error (.unordered "<=".toList "int".toList width.qualifiedName)

@[simp]
theorem excerptBy_int (bound : Int) (t : Text) :
    excerptBy (.int bound) t = .ok (t.excerpt bound) := rfl

@[simp]
theorem abbreviateBy_int (width : Int) (t : Text) :
    abbreviateBy (.int width) t = .ok (t.abbreviate width) := rfl

end Text

end PullLexer
