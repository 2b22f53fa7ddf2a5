import PullLexer.Builder.Basic
import PullLexer.Journal
import PullLexer.Rule.Table
import PullLexer.Settings.Basic

/-!
# The state of a lexer

A cursor into one input, a table of rules, and a queue of tokens that were
matched ahead of the cursor and are not consumed yet. The head is the place
where the next token is looked for: just past the last queued token, or at the
cursor when nothing is queued. A queued token may come from a caller with a
lexeme of any place, so the head may lie anywhere, even before the cursor.
-/

namespace PullLexer

/-- A token handed out, with the number of the build that gave it; one that a caller made has
none. A thing that is given out more than once has a name besides. -/
structure Item (τ : Type) where
  value : τ
  serial : Option Nat := none
  shared : Option Text := none

namespace Item

variable {τ : Type}

/-- Whether two items are one and the same thing: a thing with a name is known by it, and any other
by the build that made it. -/
def isSame (a b : Item τ) : Bool :=
  match a.shared, b.shared with
  | some m, some n => m == n
  | none, none =>
    match a.serial, b.serial with
    | some m, some n => m == n
    | _, _ => false
  | _, _ => false

def passesForAbsent [TokenLike τ] (a : Item τ) : Bool := TokenLike.passesForAbsent a.value

theorem isSame_self {a : Item τ} (h : a.serial.isSome) : a.isSame a := by
  obtain ⟨n, hn⟩ := Option.isSome_iff_exists.mp h
  cases hshared : a.shared <;> simp [isSame, hshared, hn]

end Item

structure Entry (τ : Type) where
  item : Item τ
  lexeme : Lexeme

/-- The patterns found to be anchored, under their fingerprints. -/
abbrev Verified := List (Nat × Pattern)

structure Lexer (ω τ : Type) where
  input : Text
  remaining : Text
  position : Nat
  consumed : Text
  /-- Tokens matched ahead, the next one first. -/
  queue : List (Entry τ)
  rules : RuleTable
  verified : Verified
  builder : Builder ω τ
  settings : Settings ω τ
  /-- The token that the last advance made, while the head has not moved since. -/
  advanced : Option (Entry τ)
  issued : Nat
  journal : Journal
  /-- What the builder and other client code remember. -/
  memory : ω

namespace Lexer

variable {ω τ : Type}

/-- What an operation answers or why it fails, and the state it leaves. -/
abbrev Outcome (ω τ α : Type) := Except Failure α × Lexer ω τ

def start (input : Text) (rules : RuleTable) (builder : Builder ω τ) (settings : Settings ω τ)
    (memory : ω) : Lexer ω τ where
  input := input
  remaining := input
  position := 0
  consumed := []
  queue := []
  rules := rules
  verified := []
  builder := builder
  settings := settings
  advanced := none
  issued := 0
  journal := []
  memory := memory

/-- The head, counted from the cursor. -/
def headOffset (s : Lexer ω τ) : Int :=
  match s.queue.getLast? with
  | some last => last.lexeme.stop - s.position
  | none => 0

/-- The head, counted from the start of the input. -/
def head (s : Lexer ω τ) : Int := s.position + s.headOffset

/-- The text from the head on. -/
def ahead (s : Lexer ω τ) : Text := s.remaining.after s.headOffset

def exhausted (s : Lexer ω τ) : Prop := (s.remaining.length : Int) ≤ s.headOffset

instance (s : Lexer ω τ) : Decidable s.exhausted := inferInstanceAs (Decidable (_ ≤ _))

def atStart (s : Lexer ω τ) : Bool := s.consumed.isEmpty

def atEnd (s : Lexer ω τ) : Bool := s.remaining.isEmpty && s.queue.isEmpty

def record (r : Record) (s : Lexer ω τ) : Lexer ω τ := { s with journal := s.journal ++ [r] }

def display (s : Lexer ω τ) : Text :=
  "<Scanner ".toList ++ Text.ofInt s.position ++
    ' ' :: (s.remaining.abbreviate Text.usualWidth).quoted ++ " queued=".toList ++
    Text.ofInt s.queue.length ++ ['>']

theorem headOffset_of_queue_nil {s : Lexer ω τ} (h : s.queue = []) : s.headOffset = 0 := by
  simp [headOffset, h]

theorem ahead_of_queue_nil {s : Lexer ω τ} (h : s.queue = []) : s.ahead = s.remaining := by
  simp [ahead, headOffset_of_queue_nil h]

theorem headOffset_append (s : Lexer ω τ) (e : Entry τ) :
    { s with queue := s.queue ++ [e] }.headOffset = e.lexeme.stop - s.position := by
  simp [headOffset]

end Lexer

end PullLexer
