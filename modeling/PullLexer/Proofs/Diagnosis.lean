import PullLexer.Proofs.Alignment
import PullLexer.Proofs.Lockstep

/-!
# Diagnostics decide nothing

Settings say how failures are excerpted and whether tokens are written down. Two
lexers that differ in settings and journal alone do the same work (`SameWork`):
they answer every operation alike and stay in step (`SameWork.twins`), and
where one fails the other fails with the same error, except for the text that
it excerpts.
-/

namespace PullLexer

open List (Forall₂)

variable {ω τ : Type}

-- ---------------------------------------------------------------------------
-- Failures without their excerpts
-- ---------------------------------------------------------------------------

def Failure.unexcerpted : Failure → Failure
  | .diagnostic d => .diagnostic { d with excerpt := none }
  | f => f

/-- The failures have the same kind, message and rule, and differ at most in what a diagnostic
excerpts. -/
def Failure.SameButExcerpt (f g : Failure) : Prop := f.unexcerpted = g.unexcerpted

/-- Excerpts have an integer length, of whatever sign. -/
def Settings.Excerpts (settings : Settings ω τ) : Prop := settings.excerptLength.int?.isSome

theorem Failure.endsIteration_unexcerpted (f : Failure) :
    f.unexcerpted.endsIteration = f.endsIteration := by
  cases f <;> rfl

theorem Lexer.unexcerpted_failureAt {s : Lexer ω τ} (h : s.settings.Excerpts) (rule : Text)
    (complaint : Complaint) :
    (s.failureAt rule complaint).unexcerpted =
      .diagnostic ⟨complaint, some (.text rule), none⟩ := by
  obtain ⟨n, hn⟩ := Option.isSome_iff_exists.mp h
  rw [failureAt_eq_diagnostic hn]
  rfl

namespace Lexer

variable {s t : Lexer ω τ}

-- ---------------------------------------------------------------------------
-- Lexers that differ in settings and journal
-- ---------------------------------------------------------------------------

/-- The second lexer is the first with other settings and another journal. -/
def SameWork (s t : Lexer ω τ) : Prop :=
  s.settings.Excerpts ∧ ∃ settings journal, settings.Excerpts ∧ t = { s with settings, journal }

namespace SameWork

theorem produce (h : SameWork s t) :
    Outcome.Alike SameWork (· = ·) Failure.SameButExcerpt s.produce t.produce := by
  obtain ⟨hs, settings, journal, ht, rfl⟩ := h
  let t : Lexer ω τ := { s with settings, journal }
  obtain ⟨m, hm⟩ := Option.isSome_iff_exists.mp hs
  obtain ⟨n, hn⟩ := Option.isSome_iff_exists.mp ht
  have same_failure (rule : Text) (complaint : Complaint) :
      (s.failureAt rule complaint).SameButExcerpt (t.failureAt rule complaint) :=
    (unexcerpted_failureAt hs rule complaint).trans
      (unexcerpted_failureAt (s := t) ht rule complaint).symm
  have step := produceStep s
  generalize s.produce = outcome at step ⊢
  cases step with
  | exhausted hend =>
    rw [(ProduceStep.exhausted (s := t) hend).produce_eq]
    exact .ok rfl ⟨hs, settings, journal, ht, rfl⟩
  | unmatched hfinds =>
    rw [(ProduceStep.unmatched (s := t) hfinds (excerpt_eq_ok hn)).produce_eq]
    exact .ok rfl ⟨hs, settings, _, ht, rfl⟩
  | unexcerpted _ hexcerpt =>
    rw [excerpt_eq_ok hm] at hexcerpt
    cases hexcerpt
  | refused hfinds =>
    rw [(ProduceStep.refused (s := t) hfinds).produce_eq]
    exact .error (same_failure _ _) ⟨hs, settings, _, ht, rfl⟩
  | raised hfinds hbuild =>
    rw [(ProduceStep.raised (s := t) hfinds hbuild).produce_eq]
    exact .error rfl ⟨hs, settings, _, ht, rfl⟩
  | nothingBuilt hfinds hbuild =>
    rw [(ProduceStep.nothingBuilt (s := t) hfinds hbuild).produce_eq]
    exact .error (same_failure _ _) ⟨hs, settings, _, ht, rfl⟩
  | made hfinds hbuild =>
    rw [(ProduceStep.made (s := t) hfinds hbuild).produce_eq]
    exact .ok rfl ⟨hs, settings, _, ht, rfl⟩

theorem matchHere (h : SameWork s t) (p : Pattern) :
    Outcome.Alike SameWork (· = ·) Failure.SameButExcerpt (s.matchHere p)
      (t.matchHere p) := by
  obtain ⟨hs, settings, journal, ht, rfl⟩ := h
  unfold Lexer.matchHere
  dsimp only
  split
  · exact .ok rfl ⟨hs, settings, journal, ht, rfl⟩
  · rcases s.verified.attempt p s.remaining with ⟨_ | complaint | m, verified⟩
    · exact .ok rfl ⟨hs, settings, journal, ht, rfl⟩
    · exact .error rfl ⟨hs, settings, journal, ht, rfl⟩
    · exact .ok rfl ⟨hs, settings, journal, ht, rfl⟩

theorem twins : Twins (SameWork (ω := ω) (τ := τ)) Failure.SameButExcerpt where
  failure _ := rfl
  ends {f g} h := by
    rw [← f.endsIteration_unexcerpted, ← g.endsIteration_unexcerpted,
      show f.unexcerpted = g.unexcerpted from h]
  differ := by
    rintro s _ ⟨-, _, _, -, rfl⟩
    exact ⟨_, _, _, rfl⟩
  produce h := h.produce
  matchHere p h := h.matchHere p
  move := by
    rintro s _ u ⟨hs, settings, journal, ht, rfl⟩
    exact ⟨hs, settings, journal, ht, rfl⟩
  remember := by
    rintro s _ memory ⟨hs, settings, journal, ht, rfl⟩
    exact ⟨hs, settings, journal, ht, rfl⟩
  write := by
    rintro s _ r ⟨hs, settings, journal, ht, rfl⟩
    exact ⟨hs, settings, journal ++ [r], ht, rfl⟩

end SameWork

end Lexer

-- ---------------------------------------------------------------------------
-- Over whole runs
-- ---------------------------------------------------------------------------

/-- A guard of the operation sees the token and what client code remembers, and no more of the
lexer. -/
def Operation.Discreet : Operation ω τ → Prop
  | .scanGuarded accepts _ => ∃ decision, accepts = .quiet decision
  | _ => True

variable [TokenLike τ]

theorem Operation.Discreet.respects {operation : Operation ω τ} (h : operation.Discreet) :
    operation.Respects Lexer.SameWork Failure.SameButExcerpt := by
  cases operation with
  | scanGuarded accepts bound =>
    obtain ⟨decision, rfl⟩ := h
    exact Lexer.SameWork.twins.simulation.respects_quiet decision.blind_eq
  | _ => trivial

namespace Operation

open Lexer

variable {s t : Lexer ω τ} {operations : List (Operation ω τ)}

theorem sameWork_along (h : SameWork s t) (hops : ∀ operation ∈ operations, operation.Discreet) :
    Forall₂ (Alike (· = ·) Failure.SameButExcerpt) (answersAlong s operations)
        (answersAlong t operations) ∧
      Forall₂ SameWork (trail s operations) (trail t operations) :=
  twins_along SameWork.twins (fun operation hmem => (hops operation hmem).respects) h

/-- Two runs of the same operations that are given the same input, rules and builder, and settings
that differ in the length of excerpts and in what is traced, answer the same and fail at the same
operations with the same errors, but for the text excerpted. The states on the way differ in
settings and journal alone. -/
theorem diagnostics_decide_nothing (input : Text) (rules : RuleTable) (builder : Builder ω τ)
    (settings settings' : Settings ω τ) (memory : ω) (hlength : settings.Excerpts)
    (hlength' : settings'.Excerpts) (operations : List (Operation ω τ))
    (hops : ∀ operation ∈ operations, operation.Discreet) :
    let s := start input rules builder settings memory
    let t := start input rules builder settings' memory
    Forall₂ (Alike (· = ·) Failure.SameButExcerpt) (answersAlong s operations)
        (answersAlong t operations) ∧
      Forall₂ (fun u v => ∃ settings journal, v = { u with settings, journal })
        (trail s operations) (trail t operations) := by
  intro s t
  have hsame : SameWork s t := ⟨hlength, settings', [], hlength', rfl⟩
  obtain ⟨hanswers, hstates⟩ := sameWork_along hsame hops
  refine ⟨hanswers, hstates.imp ?_⟩
  rintro u v ⟨-, settings, journal, -, hv⟩
  exact ⟨settings, journal, hv⟩

/-- Scans that fail at a pattern that matches the empty text, once traced and with a long excerpt,
and once without either. The rule is replaced, and the rest is scanned. -/
theorem diagnostics_decide_nothing_traced :
    let rules : RuleTable := .ofSources [("A", "^a"), ("E", "^(?=b)")]
    let traced : Settings Unit (Token Text) := { excerptLength := .int 40, trace := .bool true }
    let silent : Settings Unit (Token Text) := { excerptLength := .int (-3) }
    let operations : List (Operation Unit (Token Text)) :=
      [.peek, .scanAll, .addRule (.text "E".toList) (.text "^b".toList),
        .scanGuarded (.quiet .available) 2, .scan]
    let s := start "aab".toList rules .standard traced ()
    let t := start "aab".toList rules .standard silent ()
    traced.Excerpts ∧ silent.Excerpts ∧ (∀ operation ∈ operations, operation.Discreet) ∧
      s.scanAll.1.isOk = false ∧ (run s operations).journal ≠ (run t operations).journal ∧
      Forall₂ (Alike (· = ·) Failure.SameButExcerpt) (answersAlong s operations)
        (answersAlong t operations) ∧
      Forall₂ (fun u v => ∃ settings journal, v = { u with settings, journal })
        (trail s operations) (trail t operations) := by
  intro rules traced silent operations s t
  have hops : ∀ operation ∈ operations, operation.Discreet := by
    simp only [operations, List.forall_mem_cons, Discreet]
    exact ⟨trivial, trivial, trivial, ⟨.available, rfl⟩, trivial, nofun⟩
  exact ⟨rfl, rfl, hops, by decide +kernel, by decide +kernel,
    diagnostics_decide_nothing "aab".toList rules .standard traced silent () rfl rfl operations
      hops⟩

end Operation

end PullLexer
