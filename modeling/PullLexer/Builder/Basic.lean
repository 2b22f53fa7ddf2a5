import PullLexer.Failure

/-!
# Token builders

A builder makes a token from the name of a rule and the lexeme it matched. It
may fail, it may make nothing, and it may keep a memory between its calls. The
lexer never looks into what a builder makes.
-/

namespace PullLexer

/-- Makes a token, or nothing, and says what it remembers afterwards. -/
abbrev Build (ω τ : Type) := Text → Lexeme → ω → Except Failure (Option τ) × ω

structure Builder (ω τ : Type) where
  typeName : Text
  build : Build ω τ
  /-- The name of the thing that a value is, where every build that makes this value gives out one
  and the same thing. -/
  shared : τ → Option Text := fun _ => none

namespace Builder

variable {ω τ : Type}

def standard [TokenLike τ] : Builder ω τ where
  typeName := "DefaultTokenFactory".toList
  build rule l memory := (.ok (some (TokenLike.ofToken (Token.plain rule l))), memory)

/-- What a caller may choose to build tokens with. -/
inductive Choice (ω τ : Type) where
  | nothing
  | builder (b : Builder ω τ)
  | function (name : Text) (f : Build ω τ) (shared : τ → Option Text)
  /-- A value that is no builder; the absent value chooses nothing. -/
  | value (v : Value)

namespace Choice

/-- The first of two choices, or the second if the first chooses nothing. -/
def orElse (first second : Choice ω τ) : Choice ω τ :=
  match first with
  | .nothing | .value .null => second
  | _ => first

/-- The builder that a choice stands for: a function is wrapped, and where nothing is chosen the
standard builder serves. -/
def resolve [TokenLike τ] : Choice ω τ → Except Failure (Builder ω τ)
  | .nothing | .value .null => .ok standard
  | .builder b => .ok b
  | .function _ f shared => .ok ⟨"CallableTokenFactory".toList, f, shared⟩
  | .value v => .error (.notABuilder v.typeName)

/-- What a choice is called where settings are shown. -/
def name? : Choice ω τ → Option Text
  | .nothing | .value .null => none
  | .builder b => some b.typeName
  | .function name _ _ => some name
  | .value v => some v.typeName

end Choice

/-- A build that works on a part of the memory. -/
def onPart {σ : Type} (get : ω → σ) (put : σ → ω → ω) (build : Build σ τ) : Build ω τ :=
  fun rule l memory =>
    match build rule l (get memory) with
    | (made, part) => (made, put part memory)

end Builder

end PullLexer
