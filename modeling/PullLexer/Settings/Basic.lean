import PullLexer.Builder.Basic
import PullLexer.Value.Order

/-!
# Settings

How much text is excerpted in errors and records, which builder serves where a
lexer is not given one, and whether every token is written down. Settings never
change once made, and their fields are not checked: what a field cannot be used
for shows when it is used.
-/

namespace PullLexer

structure Settings (ω τ : Type) where
  excerptLength : Value := .int 20
  builder : Builder.Choice ω τ := .nothing
  trace : Value := .bool false

namespace Settings

variable {ω τ : Type}

def default : Settings ω τ := {}

instance : Inhabited (Settings ω τ) := ⟨default⟩

def set (settings : Settings ω τ) (name value : Value) : Settings ω τ :=
  match name with
  | .text t =>
    if t = "snippet_length".toList then { settings with excerptLength := value }
    else if t = "token_factory".toList then { settings with builder := .value value }
    else if t = "trace_tokens".toList then { settings with trace := value }
    else settings
  | _ => settings

def ofDict : Value → Except Failure (Settings ω τ)
  | .dict entries => .ok (entries.foldl (fun settings e => settings.set e.1 e.2) default)
  | v => .error (.noMember v.qualifiedName "items".toList)

def same (a b : Settings ω τ) : Bool :=
  a.excerptLength.same b.excerptLength && a.trace.same b.trace

def assign (_ : Settings ω τ) (field : Text) : Failure := .frozenField field

end Settings

end PullLexer
