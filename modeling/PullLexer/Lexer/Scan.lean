import PullLexer.Lexer.Consumption

/-!
# Scanning

Scanning hands out the next token and moves the cursor past it. Whatever text
lies between the cursor and the token goes with it, and a token that ends
before the cursor moves nothing. A scan takes a token off the queue or
characters off the remaining text, so that repeated scanning ends after as many
scans as both have together; the loops run on this bound.

An iteration scans on demand. It is over when there is no token, when there is
one that equals the absent value, and when client code says that there is no
more; to scan for all tokens is to collect those of an iteration.
-/

namespace PullLexer.Lexer

variable {ω τ : Type}

def reach (e : Entry τ) (s : Lexer ω τ) : Nat := (e.lexeme.stop - s.position).toNat

def pass (e : Entry τ) (s : Lexer ω τ) : Lexer ω τ :=
  let length := s.reach e
  (s.cut length (if length = e.lexeme.text.length then some e.lexeme.text else none)).2

def scan (s : Lexer ω τ) : Outcome ω τ (Option (Item τ)) :=
  match s.nextEntry with
  | (.ok (some e), s) => (.ok (some e.item), s.pass e)
  | (.ok none, s) => (.ok none, s)
  | (.error f, s) => (.error f, s)

def scansLeft (s : Lexer ω τ) : Nat := s.queue.length + s.remaining.length

/-- How a loop of scans went: the tokens it scanned, whether it came to its end or failed, and the
state it left. A loop that fails has still scanned the tokens before the failure. -/
structure Progress (ω τ : Type) where
  handed : List (Item τ)
  ending : Except Failure Unit
  state : Lexer ω τ

namespace Progress

/-- What the loop answers, which is no token at all if it fails. -/
def answer (p : Progress ω τ) : Outcome ω τ (List (Item τ)) :=
  match p.ending with
  | .ok _ => (.ok p.handed, p.state)
  | .error f => (.error f, p.state)

/-- The progress of a loop that handed out a token before. -/
def after (item : Item τ) (p : Progress ω τ) : Progress ω τ := { p with handed := item :: p.handed }

/-- The progress without a token that equals the absent value. -/
def present [TokenLike τ] (p : Progress ω τ) : Progress ω τ :=
  { p with handed := p.handed.filter fun item => !item.passesForAbsent }

end Progress

/-- Decides on each token before it is consumed, or on the absence of one; it may work on the
lexer. -/
abbrev Guard (ω τ : Type) := Option (Item τ) → Lexer ω τ → Outcome ω τ Bool

/-- Scans while a guard accepts, at most `bound` times. What was queued for the guard to look at
and is refused is not kept. -/
def scanGuarded (accepts : Guard ω τ) : (bound : Nat) → Lexer ω τ → Progress ω τ
  | 0, s => ⟨[], .error .unfinished, s⟩
  | bound + 1, s =>
    let kept := s.queue.length
    match s.peek with
    | (.error f, s) => ⟨[], .error f, s⟩
    | (.ok next, s) =>
      match accepts next s with
      | (.error f, s) => ⟨[], .error f, s⟩
      | (.ok false, s) => ⟨[], .ok (), s.retract kept⟩
      | (.ok true, s) =>
        match s.scan with
        | (.error f, s) => ⟨[], .error f, s⟩
        | (.ok none, s) => ⟨[], .ok (), s⟩
        | (.ok (some item), s) => (scanGuarded accepts bound s).after item

/-- What a guard that leaves the lexer alone decides on a token, and what it remembers. -/
abbrev Decision (ω τ : Type) := Option (Item τ) → ω → Except Failure Bool × ω

def Guard.quiet (decision : Decision ω τ) : Guard ω τ := fun next s =>
  match decision next s.memory with
  | (accepted, memory) => (accepted, { s with memory })

def Decision.available : Decision ω τ := fun next memory => (.ok next.isSome, memory)

def drainWhile (decision : Decision ω τ) (s : Lexer ω τ) : Progress ω τ :=
  s.scanGuarded (.quiet decision) (s.scansLeft + 1)

def scanWhile (decision : Decision ω τ) (s : Lexer ω τ) : Outcome ω τ (List (Item τ)) :=
  (s.drainWhile decision).answer

def scanAvailable (s : Lexer ω τ) : Outcome ω τ (List (Item τ)) := s.scanWhile .available

-- ---------------------------------------------------------------------------
-- Iterations
-- ---------------------------------------------------------------------------

/-- What an iteration takes the outcome of a scan for. A token that equals the absent value is lost
to it. -/
inductive Draw (τ : Type) where
  | next (item : Item τ)
  | ended (lost : Option (Item τ))
  | failed (f : Failure)

variable [TokenLike τ]

def draw (s : Lexer ω τ) : Draw τ × Lexer ω τ :=
  match s.scan with
  | (.ok (some item), s) => (if item.passesForAbsent then .ended (some item) else .next item, s)
  | (.ok none, s) => (.ended none, s)
  | (.error f, s) => (if f.endsIteration then .ended none else .failed f, s)

/-- One token after the other; an iteration that is over stays so, even if the lexer could go on. -/
structure Iteration where
  ended : Bool := false

def iterate (it : Iteration) (s : Lexer ω τ) : Outcome ω τ (Option (Item τ)) × Iteration :=
  if it.ended then ((.ok none, s), it)
  else
    match s.draw with
    | (.next item, s) => ((.ok (some item), s), it)
    | (.ended _, s) => ((.ok none, s), ⟨true⟩)
    | (.failed f, s) => ((.error f, s), it)

/-- Scans as an iteration does, at most `bound` times. A token lost in the end is among those
scanned. -/
def collectUpTo : (bound : Nat) → Lexer ω τ → Progress ω τ
  | 0, s => ⟨[], .error .unfinished, s⟩
  | bound + 1, s =>
    match s.draw with
    | (.next item, s) => (collectUpTo bound s).after item
    | (.ended lost, s) => ⟨lost.toList, .ok (), s⟩
    | (.failed f, s) => ⟨[], .error f, s⟩

def collect (s : Lexer ω τ) : Progress ω τ := s.collectUpTo (s.scansLeft + 1)

def scanAll (s : Lexer ω τ) : Outcome ω τ (List (Item τ)) := s.collect.present.answer

end PullLexer.Lexer
