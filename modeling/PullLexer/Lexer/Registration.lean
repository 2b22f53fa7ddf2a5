import PullLexer.Lexer.State
import PullLexer.Rule.Spec

/-!
# Registering rules

Rules are added as callers write them, one by one or several at a time, and
each one added is written down. Of several rules those before the first refused
one stay added.
-/

namespace PullLexer.Lexer

variable {ω τ : Type}

def register (name patterns : Value) (s : Lexer ω τ) : Outcome ω τ Unit :=
  match s.rules.add name patterns with
  | .ok (r, rules) => (.ok (), { s with rules }.record (.registered r.name r.patterns.length))
  | .error f => (.error f, s)

/-- Adds a rule written in one value, or a name with its patterns. -/
def addRule (rule patterns : Value) (s : Lexer ω τ) : Outcome ω τ Unit :=
  match rule, patterns with
  | .text _, _ => s.register rule patterns
  | _, .null =>
    match Rule.ofSpec rule with
    | .ok (name, patterns) => s.register name patterns
    | .error f => (.error f, s)
  | _, _ => s.register rule patterns

def addEach : List (Value × Value) → Lexer ω τ → Outcome ω τ Unit
  | [], s => (.ok (), s)
  | (rule, patterns) :: rest, s =>
    match s.addRule rule patterns with
    | (.ok _, s) => addEach rest s
    | (.error f, s) => (.error f, s)

/-- The rules in a value that is gone through, each with its patterns if they stand apart. A
lexeme is gone through as the texts of its groups. -/
def ruleEntries : Value → Except Failure (List (Value × Value))
  | .dict entries => .ok entries
  | .lexeme l => .ok ((.text l.text :: l.groups.map .ofText?).map (·, .null))
  | v =>
    match v.items? with
    | some items => .ok (items.map (·, .null))
    | none => .error (.notIterable v.qualifiedName)

/-- Adds the rules of a dictionary from names to patterns, or of a row of rules. -/
def addRules (rules : Value) (s : Lexer ω τ) : Outcome ω τ Unit :=
  match ruleEntries rules with
  | .ok entries => s.addEach entries
  | .error f => (.error f, s)

/-- A lexer on an input, with the rules given. The builder is the one chosen, or else the one
the settings choose. The journal tells what was registered even where a rule is refused. -/
def create [TokenLike τ] (input rules : Value) (choice : Builder.Choice ω τ)
    (settings : Settings ω τ) (memory : ω) : Except Failure (Lexer ω τ) × Journal :=
  match input with
  | .text t =>
    match (choice.orElse settings.builder).resolve with
    | .error f => (.error f, [])
    | .ok builder =>
      let fresh := start t .empty builder settings memory
      if rules.truthy then
        match fresh.addRules rules with
        | (.ok _, s) => (.ok s, s.journal)
        | (.error f, s) => (.error f, s.journal)
      else (.ok fresh, [])
  | v => (.error (.ofComplaint (.inputNotText v.typeName)), [])

end PullLexer.Lexer
