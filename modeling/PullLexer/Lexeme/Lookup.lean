import PullLexer.Failure

/-!
# Looking up groups

A group of a lexeme by whatever the caller names it with: a text is a group
name, zero of any kind is the whole text, and an integer counts groups.
-/

namespace PullLexer.Lexeme

def fitsIndex (n : Int) : Bool := -9223372036854775808 ≤ n && n ≤ 9223372036854775807

def groupByNumber (l : Lexeme) (n : Int) : Except Failure (Option Text) :=
  match l.group? n with
  | some captured => .ok captured
  | none => .error (if fitsIndex (n - 1) then .noSuchIndex else .indexTooLarge)

def group (l : Lexeme) (n : Value) : Except Failure (Option Text) :=
  match n with
  | .text name =>
    match l.named? name with
    | some captured => .ok captured
    | none => .error (.noSuchKey name)
  | .int i => l.groupByNumber i
  | .bool b => l.groupByNumber (if b then 1 else 0)
  | .float t => if (Numeral.ofText t).same (.ofInt 0) then .ok (some l.text) else .error .notAnIndex
  | v => .error (.noDifference v.qualifiedName)

end PullLexer.Lexeme
