import PullLexer.Lexeme

/-!
# Tokens

A token says which rule matched, gives a value, and keeps the lexeme it stands
for. The value of a plain token is what the first group captured, or the whole
text when that group captured nothing.
-/

namespace PullLexer

structure Token (α : Type) where
  kind : Text
  value : α
  lexeme : Lexeme
  start : Int
  stop : Int
  /-- The named groups that took part, with what they captured. -/
  extras : List (Text × Text) := []
deriving DecidableEq, Inhabited

namespace Token

/-- The value that a plain token has for a lexeme. -/
def plainValue (l : Lexeme) : Text :=
  match l.groups with
  | some captured :: _ => if captured.isEmpty then l.text else captured
  | _ => l.text

/-- The token that a rule makes of a lexeme when nothing else is asked for. -/
def plain (rule : Text) (l : Lexeme) : Token Text :=
  ⟨rule, plainValue l, l, l.index, l.stop,
    l.named.filterMap fun entry => entry.2.map (entry.1, ·)⟩

def text {α : Type} (t : Token α) : Text := t.lexeme.text

def map {α β : Type} (f : α → β) (t : Token α) : Token β :=
  ⟨t.kind, f t.value, t.lexeme, t.start, t.stop, t.extras⟩

theorem plainValue_ne_nil {l : Lexeme} (h : l.text ≠ []) : plainValue l ≠ [] := by
  unfold plainValue
  split
  · split
    · exact h
    · rename_i captured _ _ hc
      simpa using hc
  · exact h

end Token

/-- What a lexer asks of the things it hands out: how a plain token becomes one, which lexeme one
carries, what its kind is called in messages, and whether it equals the absent value. -/
class TokenLike (τ : Type) where
  ofToken : Token Text → τ
  lexeme? : τ → Option Lexeme
  typeName : τ → Text
  passesForAbsent : τ → Bool
  lexeme_ofToken : ∀ t, lexeme? (ofToken t) = some t.lexeme
  passesForAbsent_ofToken : ∀ t, passesForAbsent (ofToken t) = false

instance : TokenLike (Token Text) where
  ofToken t := t
  lexeme? t := some t.lexeme
  typeName _ := "Token".toList
  passesForAbsent _ := false
  lexeme_ofToken _ := rfl
  passesForAbsent_ofToken _ := rfl

end PullLexer
