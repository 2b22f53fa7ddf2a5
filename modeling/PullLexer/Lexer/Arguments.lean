import PullLexer.Lexer.Registration
import PullLexer.Lexer.Scan

/-!
# Operations with unchecked arguments

The operations as callers reach them: an argument may be any value, and one
that an operation cannot use is refused before anything happens, except that a
text to consume is only looked at when it is taken.
-/

namespace PullLexer.Lexer

variable {ω τ : Type}

def lookaheadBy (n : Value) (s : Lexer ω τ) : Outcome ω τ (Option (Item τ)) :=
  match n.count with
  | .ok n => s.lookahead n
  | .error f => (.error f, s)

theorem lookaheadBy_int (n : Nat) (s : Lexer ω τ) : s.lookaheadBy (.int n) = s.lookahead n := rfl

def consumeBy (length given : Value) (s : Lexer ω τ) : Outcome ω τ Text :=
  match length.count with
  | .error f => (.error f, s)
  | .ok n =>
    match given with
    | .null =>
      match s.consume n none with
      | (t, s) => (.ok t, s)
    | .text t =>
      match s.consume n (some t) with
      | (t, s) => (.ok t, s)
    | v => (.error (.notJoinable v.qualifiedName), { s.discardQueue with advanced := none })

/-- Matches a pattern at the cursor. The absent value passes for checked and cannot match. -/
def matchBy (pattern : Value) (s : Lexer ω τ) : Outcome ω τ (Option Lexeme) :=
  if s.remaining.isEmpty then (.ok none, s)
  else
    match pattern with
    | .pattern p => s.matchHere p
    | .null => (.error (.noMember Value.null.qualifiedName "match".toList), s)
    | .bytesPattern _ => (.error .bytesSubject, s)
    | v => (.error (.ofComplaint (.notPattern v.typeName)), s)

def enqueueIfAny [TokenLike τ] (item : Option (Item τ)) (given : Option Lexeme) (s : Lexer ω τ) :
    Outcome ω τ (Option (Item τ)) :=
  match item with
  | none => (.ok none, s)
  | some item =>
    match s.enqueue item given with
    | (.ok item, s) => (.ok (some item), s)
    | (.error f, s) => (.error f, s)

/-- What the builder makes of a lexeme for a rule, apart from any scanning. -/
def buildToken (rule : Text) (l : Lexeme) (s : Lexer ω τ) : Outcome ω τ (Option τ) :=
  match s.builder.build rule l s.memory with
  | (made, memory) => (made, { s with memory })

/-- Adds a rule to the table without writing it down. -/
def addToTable (name patterns : Value) (s : Lexer ω τ) : Outcome ω τ Rule :=
  match s.rules.add name patterns with
  | .ok (r, rules) => (.ok r, { s with rules })
  | .error f => (.error f, s)

end PullLexer.Lexer
