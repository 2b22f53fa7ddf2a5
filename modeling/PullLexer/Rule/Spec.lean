import PullLexer.Pattern.Anchor
import PullLexer.Rule.Table
import PullLexer.Value.Order

/-!
# Rules as callers write them

A rule may be written as a rule value, a dictionary with a name and patterns
under either of two pairs of keys, or a pair. Patterns may be written as one
source, one pattern, or anything that can be gone through and holds these.
-/

namespace PullLexer

def Rule.toValue (r : Rule) : Value := .rule (.text r.name) (.tuple (r.patterns.map .pattern))

namespace Rule

def complaint (rule : Option Value) (complaint : Complaint) : Failure :=
  .ofDiagnostic { complaint, rule }

/-- A source that is read without flags beside it. -/
def compileSource (rule : Option Value) (source : Text) : Except Failure Pattern :=
  match Pattern.compile source .none with
  | .ok p => .ok p
  | .error ⟨.tooManyRounds, _⟩ => .error .tooManyRounds
  | .error ⟨.charsetsCombined, _⟩ => .error .charsetsCombined
  | .error fault => .error (complaint rule (.unreadable source fault))

def compilePattern (rule : Option Value) : Value → Except Failure Pattern
  | .pattern p => .ok p
  | .bytesPattern _ => .error (complaint rule .bytesPattern)
  | .text source => compileSource rule source
  | v => .error (complaint rule (.notPattern v.typeName))

/-- Patterns one after the other, up to the first that is refused. -/
def compileEach (rule : Option Value) : List Value → Except Failure (List Pattern)
  | [] => .ok []
  | v :: rest =>
    match compilePattern rule v with
    | .error f => .error f
    | .ok p =>
      match compileEach rule rest with
      | .error f => .error f
      | .ok ps => .ok (p :: ps)

def compilePatterns (rule : Option Value) (v : Value) : Except Failure (List Pattern) :=
  match v with
  | .text _ => compileEach rule [v]
  | _ =>
    match v.items? with
    | some items => compileEach rule items
    | none => compileEach rule [v]

def ofMapping (entries : List (Value × Value)) : Except Failure (Value × Value) :=
  let pair? (name patterns : String) :=
    match Value.entry? entries name.toList, Value.entry? entries patterns.toList with
    | some n, some ps => some (n, ps)
    | _, _ => none
  match pair? "type" "regex" with
  | some found => .ok found
  | none =>
    match pair? "name" "pattern" with
    | some found => .ok found
    | none =>
      match Value.sorted (entries.map (·.1)) with
      | .error f => .error f
      | .ok keys => .error (.ofComplaint (.missingKeys keys))

def ofSpec : Value → Except Failure (Value × Value)
  | .rule name patterns => .ok (name, patterns)
  | .dict entries => ofMapping entries
  | .tuple [name, patterns] => .ok (name, patterns)
  | v => .error (.ofComplaint (.unknownShape v))

def ofValues (name patterns : Value) : Except Failure Rule :=
  match name with
  | .text n =>
    match compilePatterns (some name) patterns with
    | .error f => .error f
    | .ok ps => .ok ⟨n, ps⟩
  | v => .error (.ofComplaint (.nameNotText v.typeName))

end Rule

namespace RuleTable

/-- Adds a rule as written; the table is unchanged when the rule is refused. -/
def add (table : RuleTable) (name patterns : Value) : Except Failure (Rule × RuleTable) :=
  match Rule.ofValues name patterns with
  | .error f => .error f
  | .ok r => .ok (r, table.insert r)

/-- The rule under a name of any kind that can be a key. -/
def lookup (table : RuleTable) (name : Value) : Except Failure (Option Rule) :=
  match name.checkKey with
  | .error f => .error f
  | .ok _ =>
    match name with
    | .text n => .ok (table.get? n)
    | _ => .ok none

def literal (table : RuleTable) : Text :=
  "RuleTable(".toList ++ (Value.list (table.names.map .text)).literal ++ [')']

end RuleTable

namespace Pattern

def isAnchoredValue : Value → Except Failure Bool
  | .pattern p => .ok p.isAnchored
  | .bytesPattern _ => .error .bytesSubject
  | v => .error (.noMember v.qualifiedName "pattern".toList)

end Pattern

end PullLexer
