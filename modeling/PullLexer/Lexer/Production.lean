import PullLexer.Lexer.Trial
import PullLexer.Value.Bound

/-!
# Producing a token

The next token is made at the head: the first candidate that matches there
gives the lexeme, and the builder makes the token. Nothing is queued and the
cursor stays. Where the text is exhausted or no candidate matches there is no
token, which is no failure. A refused pattern and a builder that makes nothing
are failures that name the rule and excerpt the text.
-/

namespace PullLexer.Lexer

variable {ω τ : Type}

/-- The beginning of the text at the head, as long as the settings say. -/
def excerpt (s : Lexer ω τ) : Except Failure Text := s.ahead.excerptBy s.settings.excerptLength

def failureAt (s : Lexer ω τ) (rule : Text) (complaint : Complaint) : Failure :=
  match s.excerpt with
  | .ok t => .diagnostic { complaint, rule := some (.text rule), excerpt := some (.text t) }
  | .error f => f

def buildAt (s : Lexer ω τ) (rule : Text) (m : Pattern.Match) : Outcome ω τ (Option (Entry τ)) :=
  let l := Lexeme.ofMatch m s.head
  match s.builder.build rule l s.memory with
  | (.error f, memory) => (.error f, { s with memory })
  | (.ok none, memory) => (.error (s.failureAt rule .nothingBuilt), { s with memory })
  | (.ok (some value), memory) =>
    let built := { s with memory, issued := s.issued + 1 }
    (.ok (some ⟨⟨value, some s.issued, s.builder.shared value⟩, l⟩),
      if s.settings.trace.truthy then built.record (.matched rule l.index l.text) else built)

def produce (s : Lexer ω τ) : Outcome ω τ (Option (Entry τ)) :=
  if s.exhausted then (.ok none, s)
  else
    match s.verified.firstFinding s.ahead s.rules.candidates with
    | (.nothing, verified) =>
      let s := { s with verified }
      match s.excerpt with
      | .ok t => (.ok none, s.record (.nothingMatched s.head t))
      | .error f => (.error f, s)
    | (.refused rule complaint, verified) =>
      let s := { s with verified }
      (.error (s.failureAt rule complaint), s)
    | (.found rule m, verified) => { s with verified }.buildAt rule m

/-- Makes the next token at the head and remembers it for `enqueue`. -/
def advance (s : Lexer ω τ) : Outcome ω τ (Option (Item τ)) :=
  match s.produce with
  | (.ok made, s) => (.ok (made.map (·.item)), { s with advanced := made })
  | (.error f, s) => (.error f, s)

def matchHere (p : Pattern) (s : Lexer ω τ) : Outcome ω τ (Option Lexeme) :=
  if s.remaining.isEmpty then (.ok none, s)
  else
    match s.verified.attempt p s.remaining with
    | (.missed, verified) => (.ok none, { s with verified })
    | (.refused complaint, verified) => (.error (.ofComplaint complaint), { s with verified })
    | (.matched m, verified) => (.ok (some (.ofMatch m s.position)), { s with verified })

end PullLexer.Lexer
