import PullLexer.Lexer.Arguments

/-!
# Operations

The operations of a lexer as data, with what each answers, so that a run is a
list of them. A run goes on after a failure, from the state that it left.
-/

namespace PullLexer

inductive Operation (ω τ : Type) where
  | scan
  | scanAll
  | scanAvailable
  /-- Scans while a decision says so that leaves the lexer alone. -/
  | scanWhile (decision : Lexer.Decision ω τ)
  /-- Scans while a guard says so that may work on the lexer, within a bound. -/
  | scanGuarded (accepts : Lexer.Guard ω τ) (bound : Nat)
  | iterate (it : Lexer.Iteration)
  | peek
  | lookahead (n : Value)
  | advance
  | nextToken
  | dequeue
  | enqueue (item : Option (Item τ)) (given : Option Lexeme)
  | consume (length given : Value)
  | matchBy (pattern : Value)
  | buildToken (rule : Text) (l : Lexeme)
  | addRule (rule patterns : Value)
  | addRules (rules : Value)
  /-- Adds a rule without writing it down. -/
  | addToTable (name patterns : Value)

inductive Answer (τ : Type) where
  | token (t : Option (Item τ))
  | tokens (ts : List (Item τ))
  | text (t : Text)
  | lexeme (l : Option Lexeme)
  | built (t : Option τ)
  | rule (r : Rule)
  | done

namespace Lexer.Outcome

variable {ω τ α β : Type}

def map (f : α → β) : Outcome ω τ α → Outcome ω τ β
  | (.ok a, s) => (.ok (f a), s)
  | (.error failure, s) => (.error failure, s)

@[simp]
theorem snd_map (f : α → β) (outcome : Outcome ω τ α) : (map f outcome).2 = outcome.2 := by
  obtain ⟨_ | _, _⟩ := outcome <;> rfl

theorem fst_map_of_ok (f : α → β) {outcome : Outcome ω τ α} {a : α} (h : outcome.1 = .ok a) :
    (map f outcome).1 = .ok (f a) := by
  obtain ⟨_, s⟩ := outcome
  obtain rfl := h
  rfl

end Lexer.Outcome

namespace Operation

variable {ω τ : Type} [TokenLike τ]

open Lexer.Outcome in
def perform (s : Lexer ω τ) : Operation ω τ → Lexer.Outcome ω τ (Answer τ)
  | .scan => map .token s.scan
  | .scanAll => map .tokens s.scanAll
  | .scanAvailable => map .tokens s.scanAvailable
  | .scanWhile decision => map .tokens (s.scanWhile decision)
  | .scanGuarded accepts bound => map .tokens (s.scanGuarded accepts bound).answer
  | .iterate it => map .token (s.iterate it).1
  | .peek => map .token s.peek
  | .lookahead n => map .token (s.lookaheadBy n)
  | .advance => map .token s.advance
  | .nextToken => map .token s.nextToken
  | .dequeue => (.ok (.token s.dequeue.1), s.dequeue.2)
  | .enqueue item given => map .token (s.enqueueIfAny item given)
  | .consume length given => map .text (s.consumeBy length given)
  | .matchBy pattern => map .lexeme (s.matchBy pattern)
  | .buildToken rule l => map .built (s.buildToken rule l)
  | .addRule rule patterns => map (fun _ => .done) (s.addRule rule patterns)
  | .addRules rules => map (fun _ => .done) (s.addRules rules)
  | .addToTable name patterns => map .rule (s.addToTable name patterns)

/-- The state after an operation, whether it failed or not. -/
def step (s : Lexer ω τ) (operation : Operation ω τ) : Lexer ω τ := (operation.perform s).2

def run (s : Lexer ω τ) (operations : List (Operation ω τ)) : Lexer ω τ := operations.foldl step s

end Operation

end PullLexer
