import PullLexer.Lexer.State
import PullLexer.Pattern.Anchor

/-!
# Trying patterns

A pattern is tried at the start of a text. It has to be anchored, which is
checked the first time it is tried and remembered under its fingerprint; since
the pattern itself is remembered too, another pattern with the same fingerprint
is checked on its own. It must not match the empty text.

Candidates are tried in order up to the first that matches or is refused.
-/

namespace PullLexer

namespace Verified

/-- Whether this very pattern is known to be anchored. -/
def knows (verified : Verified) (p : Pattern) : Bool :=
  match verified.find? (·.1 == p.fingerprint) with
  | some entry => entry.2 == p
  | none => false

def check (verified : Verified) (p : Pattern) : Bool × Verified :=
  if verified.knows p then (true, verified)
  else if p.isAnchored then (true, (p.fingerprint, p) :: verified)
  else (false, verified)

end Verified

inductive Trial where
  | missed
  | refused (complaint : Complaint)
  | matched (m : Pattern.Match)

def Pattern.take (p : Pattern) (t : Text) : Trial :=
  match p.matchStart? t with
  | none => .missed
  | some m => if m.text.isEmpty then .refused (.emptyMatch p.source) else .matched m

namespace Verified

def attempt (verified : Verified) (p : Pattern) (t : Text) : Trial × Verified :=
  match verified.check p with
  | (true, verified) => (p.take t, verified)
  | (false, verified) => (.refused (.notAnchored p.source), verified)

end Verified

/-- What trying all candidates comes to, with the name of the rule that decided it. -/
inductive Finding where
  | nothing
  | refused (rule : Text) (complaint : Complaint)
  | found (rule : Text) (m : Pattern.Match)

namespace Verified

def firstFinding (verified : Verified) (t : Text) : List (Text × Pattern) → Finding × Verified
  | [] => (.nothing, verified)
  | (rule, p) :: rest =>
    match verified.attempt p t with
    | (.missed, verified) => firstFinding verified t rest
    | (.refused complaint, verified) => (.refused rule complaint, verified)
    | (.matched m, verified) => (.found rule m, verified)

end Verified

theorem Pattern.text_take {p : Pattern} {t : Text} {m : Match} (h : p.take t = .matched m) :
    m.text = t.take m.text.length ∧ m.text ≠ [] ∧ m.start = 0 := by
  unfold Pattern.take at h
  split at h
  · cases h
  · rename_i found hm
    split at h
    · cases h
    · rename_i hne
      cases h
      exact ⟨text_matchStart hm, by simpa using hne, start_matchStart hm⟩

end PullLexer
