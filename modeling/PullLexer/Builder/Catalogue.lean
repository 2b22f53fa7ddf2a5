import PullLexer.Builder.Basic
import PullLexer.Lexeme.Lookup

/-!
# A catalogue of builds

Ready-made builds of values. All but the numbering one remember nothing; it
counts its calls under a number of its own, so that two of them can share a
memory.
-/

namespace PullLexer.Builder.Catalogue

variable {ω : Type}

abbrev Tally := List (Nat × Nat)

namespace Tally

def count (tally : Tally) (id : Nat) : Nat :=
  ((tally.find? (·.1 == id)).map (·.2)).getD 0

def increase (tally : Tally) (id : Nat) : Tally := (id, tally.count id + 1) :: tally

theorem count_increase (tally : Tally) (id : Nat) :
    (tally.increase id).count id = tally.count id + 1 := by
  simp [increase, count]

end Tally

/-- A build that depends on rule and lexeme alone. The absent value counts as nothing made. -/
def pureBuild (f : Text → Lexeme → Except Failure Value) : Build ω Value :=
  fun rule l memory =>
    match f rule l with
    | .error failure => (.error failure, memory)
    | .ok .null => (.ok none, memory)
    | .ok v => (.ok (some v), memory)

def ofLexeme (f : Text → Lexeme → Value) : Build ω Value := pureBuild fun rule l => .ok (f rule l)

def uppercase : Build ω Value := ofLexeme fun _ l => .text (CharClass.capitals l.text)

def nothing : Build ω Value := ofLexeme fun _ _ => .null

def texts : Build ω Value := ofLexeme fun _ l => .text l.text

def rules : Build ω Value := ofLexeme fun rule _ => .text rule

/-- A text that is handed on is the same thing every time. -/
def handedOn : Value → Option Text
  | .text t => some t
  | _ => none

def triples : Build ω Value := ofLexeme fun rule l =>
  .tuple [.text rule, .text l.text, .int l.index]

def records : Build ω Value := ofLexeme fun rule l =>
  .dict [(.text "type".toList, .text rule), (.text "value".toList, .text l.text)]

def singletons : Build ω Value := ofLexeme fun rule _ => .list [.text rule]

def constant (v : Value) : Build ω Value := ofLexeme fun _ _ => v

def labelled (rule : Text) (l : Lexeme) : Value := .list [.text rule, .text l.text]

def nothingFor (refused : Text) : Build ω Value :=
  ofLexeme fun rule l => if rule = refused then .null else labelled rule l

def raisingFor (refused : Text) : Build ω Value := pureBuild fun rule l =>
  if rule = refused then .error (.raised ("factory failed on ".toList ++ rule))
  else .ok (labelled rule l)

def refusing : Build ω Value := pureBuild fun _ _ =>
  .error (.ofComplaint (.stated .invalidArgument "factory says no".toList))

def captured (n : Value) : Build ω Value := pureBuild fun _ l =>
  match l.group n with
  | .ok t => .ok (.ofText? t)
  | .error f => .error f

def holders : Build ω Value := ofLexeme fun rule l => .holder rule (.lexeme l)

/-- Holders that keep the text where the lexeme should be. -/
def textHolders : Build ω Value := ofLexeme fun rule l => .holder rule (.text l.text)

def numbered (id : Nat) : Build Tally Value := fun _ l tally =>
  let tally := tally.increase id
  (.ok (some (.list [.int (tally.count id), .text l.text])), tally)

end PullLexer.Builder.Catalogue
