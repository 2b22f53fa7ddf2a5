import PullLexer.Settings.Basic

/-!
# Scopes of settings

The settings active in a run, and blocks that change them for a while. However
a block ends, the settings active before it are active again after it. A run of
its own starts from the default settings and leaves those outside as they are.
-/

namespace PullLexer

/-- The active settings, and what the builders in use remember. -/
structure Scope (ω τ : Type) where
  active : Settings ω τ
  memory : ω

namespace Scope

variable {ω τ α : Type}

abbrev Action (ω τ α : Type) := Scope ω τ → Except Failure α × Scope ω τ

def use (settings : Settings ω τ) (scope : Scope ω τ) : Scope ω τ :=
  { scope with active := settings }

def reset (scope : Scope ω τ) : Scope ω τ := scope.use .default

def within (settings : Settings ω τ) (block : Action ω τ α) : Action ω τ α := fun scope =>
  match block (scope.use settings) with
  | (outcome, after) => (outcome, after.use scope.active)

/-- Runs a block apart from the settings outside. -/
def apart (block : Action ω τ α) : Action ω τ α := within .default block

@[simp]
theorem active_within (settings : Settings ω τ) (block : Action ω τ α) (scope : Scope ω τ) :
    (within settings block scope).2.active = scope.active := rfl

end Scope

end PullLexer
