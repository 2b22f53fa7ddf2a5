import PullLexer.Proofs.Failing
import PullLexer.Proofs.Reentry
import PullLexer.Proofs.Transparency

/-!
# Scanning while a decision accepts

A loop with a decision looks at each token before it scans it. This comes to the
same as scanning first and asking about the token then (`Selects`), up to a scan
whose token is refused or that makes none (`Halts`): a token looked at is scanned
as it would have been at once, and one that is refused leaves cursor and queue as
they were (`decidedRound`). With a steady builder the tokens are those of
scanning alone, whatever the decision remembers (`Selects.hands`).
-/

namespace PullLexer.Lexer

variable {ω τ : Type} {s s' t u : Lexer ω τ} {e : Entry τ} {item : Item τ} {items : List (Item τ)}
  {decision : Decision ω τ} {builder : Builder ω τ} {settings : Settings ω τ}

/-- Scans, one after the other, hand out these tokens, and the decision accepts each of them when it
is asked after the scan. -/
inductive Selects (decision : Decision ω τ) : Lexer ω τ → List (Item τ) → Lexer ω τ → Prop
  | nil {s : Lexer ω τ} : Selects decision s [] s
  | cons {s t u : Lexer ω τ} {item : Item τ} {items : List (Item τ)} {memory : ω} :
      s.scan = (.ok (some item), t) → decision (some item) t.memory = (.ok true, memory) →
      Selects decision { t with memory } items u → Selects decision s (item :: items) u

theorem Equipped.scan (h : Equipped builder settings s) {answer : Except Failure (Option (Item τ))}
    (hscan : s.scan = (answer, t)) : Equipped builder settings t := by
  have hequipped := @Sustained.scan _ _ s _ [] (sustained_equipped builder settings) h
  rwa [hscan] at hequipped

/-- What a steady builder remembers does not matter, nor what others do. -/
theorem produce_remember (hsteady : s.builder.Steady) (memory : ω) :
    ∃ memory', ({ s with memory } : Lexer ω τ).produce =
      (s.produce.1, { s.produce.2 with memory := memory' }) := by
  have step := produceStep s
  generalize s.produce = outcome at step ⊢
  have build {rule : Text} {l : Lexeme} {built : Except Failure (Option τ)} {memory₁ : ω}
      (hbuild : s.builder.build rule l s.memory = (built, memory₁)) :
      ∃ memory', s.builder.build rule l memory = (built, memory') := by
    have hsame := hsteady rule l memory s.memory
    rw [hbuild] at hsame
    exact ⟨(s.builder.build rule l memory).2, Prod.ext hsame rfl⟩
  cases step with
  | exhausted hend =>
    exact ⟨memory, (ProduceStep.exhausted (s := { s with memory }) hend).produce_eq⟩
  | unmatched hfinds hexcerpt =>
    exact ⟨memory, (ProduceStep.unmatched (s := { s with memory }) hfinds hexcerpt).produce_eq⟩
  | unexcerpted hfinds hexcerpt =>
    exact ⟨memory, (ProduceStep.unexcerpted (s := { s with memory }) hfinds hexcerpt).produce_eq⟩
  | refused hfinds =>
    exact ⟨memory, (ProduceStep.refused (s := { s with memory }) hfinds).produce_eq⟩
  | raised hfinds hbuild =>
    obtain ⟨memory', hbuild'⟩ := build hbuild
    exact ⟨memory', (ProduceStep.raised (s := { s with memory }) hfinds hbuild').produce_eq⟩
  | nothingBuilt hfinds hbuild =>
    obtain ⟨memory', hbuild'⟩ := build hbuild
    exact ⟨memory', (ProduceStep.nothingBuilt (s := { s with memory }) hfinds hbuild').produce_eq⟩
  | made hfinds hbuild =>
    obtain ⟨memory', hbuild'⟩ := build hbuild
    exact ⟨memory', (ProduceStep.made (s := { s with memory }) hfinds hbuild').produce_eq⟩

theorem scan_remember (hsteady : s.builder.Steady) (memory : ω) :
    ∃ memory', ({ s with memory } : Lexer ω τ).scan =
      (s.scan.1, { s.scan.2 with memory := memory' }) := by
  obtain ⟨memory', hproduced⟩ := produce_remember hsteady memory
  have step := scanStep s
  generalize s.scan = outcome at step ⊢
  cases step with
  | served hq => exact ⟨memory, (ScanStep.served (s := { s with memory }) hq).scan_eq⟩
  | made hq hp =>
    rw [hp] at hproduced
    exact ⟨memory', (ScanStep.made (s := { s with memory }) hq hproduced).scan_eq⟩
  | ended hq hp =>
    rw [hp] at hproduced
    exact ⟨memory', (ScanStep.ended (s := { s with memory }) hq hproduced).scan_eq⟩
  | failed hq hp =>
    rw [hp] at hproduced
    exact ⟨memory', (ScanStep.failed (s := { s with memory }) hq hproduced).scan_eq⟩

/-- The tokens selected are those of as many scans in a row, whatever is remembered meanwhile. -/
theorem Selects.hands (hselects : Selects decision s items t) (hsteady : builder.Steady)
    (h : Equipped builder settings s) (memory : ω) :
    ∃ u memory', Hands { s with memory } items u ∧ Equipped builder settings u ∧
      t = { u with memory := memory' } := by
  induction hselects generalizing memory with
  | @nil s => exact ⟨{ s with memory }, s.memory, .nil, h, rfl⟩
  | @cons s t _ _ _ _ hscan _ _ ih =>
    obtain ⟨memory₁, hscan'⟩ := scan_remember (h.1 ▸ hsteady) memory
    rw [hscan] at hscan'
    have ht : Equipped builder settings t := h.scan hscan
    obtain ⟨u, memory', hands, hu, rfl⟩ := ih ht memory₁
    exact ⟨u, memory', .cons hscan' hands, hu, rfl⟩

-- ---------------------------------------------------------------------------
-- Scanning for all tokens
-- ---------------------------------------------------------------------------

end PullLexer.Lexer

-- ---------------------------------------------------------------------------
-- Whatever client code did before
-- ---------------------------------------------------------------------------

namespace PullLexer.Operation

open Lexer

variable {ω τ : Type} [TokenLike τ] {s : Lexer ω τ}

end PullLexer.Operation
