import PullLexer.Lexer.Production

/-!
# The lookahead queue

Tokens made ahead of the cursor wait in the queue in the order in which they
will be handed out. Whatever moves the head forgets the token that the last
advance made. Looking ahead fills the queue up to the token asked for; it makes
no token that it does not queue.
-/

namespace PullLexer.Lexer

variable {ω τ : Type}

def push (e : Entry τ) (s : Lexer ω τ) : Lexer ω τ :=
  { s with queue := s.queue ++ [e], advanced := none }

def pop (s : Lexer ω τ) : Option (Entry τ) × Lexer ω τ :=
  match s.queue with
  | [] => (none, s)
  | e :: rest => (some e, { s with queue := rest, advanced := none })

/-- Takes the front of the queue and leaves its text where it is. -/
def dequeue (s : Lexer ω τ) : Option (Item τ) × Lexer ω τ :=
  match s.pop with
  | (e, s) => (e.map (·.item), s)

/-- The lexeme a token covers that comes without one: that of the token just made by an advance,
or the lexeme that the token carries. -/
def lexemeFor [TokenLike τ] (item : Item τ) (s : Lexer ω τ) : Except Failure Lexeme :=
  let carried :=
    match TokenLike.lexeme? item.value with
    | some l => .ok l
    | none => .error (.ofComplaint (.uncovered (TokenLike.typeName item.value)))
  match s.advanced with
  | some e => if e.item.isSame item then .ok e.lexeme else carried
  | none => carried

/-- The lexeme a token is queued under: the one given, or else the one found for it. -/
def lexemeUnder [TokenLike τ] (item : Item τ) (given : Option Lexeme) (s : Lexer ω τ) :
    Except Failure Lexeme :=
  match given with
  | some l => .ok l
  | none => s.lexemeFor item

/-- Puts a token at the end of the queue, under a lexeme given or found for it. -/
def enqueue [TokenLike τ] (item : Item τ) (given : Option Lexeme) (s : Lexer ω τ) :
    Outcome ω τ (Item τ) :=
  match s.lexemeUnder item given with
  | .ok l => (.ok item, s.push ⟨item, l⟩)
  | .error f => (.error f, s)

def fill : (missing : Nat) → Lexer ω τ → Outcome ω τ Unit
  | 0, s => (.ok (), s)
  | missing + 1, s =>
    match s.produce with
    | (.ok (some e), s) => fill missing (s.push e)
    | (.ok none, s) => (.ok (), s)
    | (.error f, s) => (.error f, s)

/-- The token that comes as number `n`, counted from one, without consuming any. -/
def lookahead (n : Nat) (s : Lexer ω τ) : Outcome ω τ (Option (Item τ)) :=
  match s.fill (n - s.queue.length) with
  | (.ok _, s) => (.ok (if n = 0 then none else (s.queue[n - 1]?).map (·.item)), s)
  | (.error f, s) => (.error f, s)

def peek (s : Lexer ω τ) : Outcome ω τ (Option (Item τ)) := s.lookahead 1

/-- The front of the queue, or a new token where nothing is queued. -/
def nextEntry (s : Lexer ω τ) : Outcome ω τ (Option (Entry τ)) :=
  match s.pop with
  | (some e, s) => (.ok (some e), s)
  | (none, s) => s.produce

/-- The next token, taken from the queue if it was queued, but not consumed. -/
def nextToken (s : Lexer ω τ) : Outcome ω τ (Option (Item τ)) :=
  match s.nextEntry with
  | (.ok e, s) => (.ok (e.map (·.item)), s)
  | (.error f, s) => (.error f, s)

def retract (kept : Nat) (s : Lexer ω τ) : Lexer ω τ := { s with queue := s.queue.take kept }

end PullLexer.Lexer
