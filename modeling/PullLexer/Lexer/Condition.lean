import PullLexer.Lexer.Scan

/-!
# Conditions on tokens

Ready-made decisions on the next token, by what it is or by how many were asked
for before it.
-/

namespace PullLexer

inductive Condition where
  /-- As the value counts as true or false. -/
  | constant (v : Value)
  | kindIn (kinds : List Value)
  | kindNotIn (kinds : List Value)
  /-- The first so many times. -/
  | firstCalls (n : Int)
  /-- Always, but raises an error at one call. -/
  | raisingAt (n : Int)

namespace Condition

def kindOf : Value → Value
  | .token t => .text t.kind
  | _ => .null

def isAmong (kinds : List Value) (v : Value) : Bool := kinds.any fun kind => (kindOf v).same kind

def decide (call : Nat) (next : Option Value) : Condition → Except Failure Bool
  | .constant v => .ok v.truthy
  | .kindIn kinds => .ok (next.any (isAmong kinds))
  | .kindNotIn kinds => .ok (next.any fun v => !isAmong kinds v)
  | .firstCalls n => .ok ((call : Int) ≤ n)
  | .raisingAt n =>
    if (call : Int) = n then .error (.raised "predicate failed".toList) else .ok true

/-- How many calls a condition may accept of its own accord. -/
def calls : Condition → Nat
  | .firstCalls n | .raisingAt n => n.toNat
  | _ => 0

end Condition

end PullLexer
