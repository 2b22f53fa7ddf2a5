import PullLexer.Proofs.Alignment
import PullLexer.Proofs.Succession

/-!
# Scanning without seams

As long as the queue is served by scans alone, it starts at the cursor, and the
tokens handed out before cover the input up to there, one right after the other
(`Seamless`). What is true of every token that a production makes is true of
all of them.
-/

namespace PullLexer.Lexer

variable {ω τ : Type} {s s' s₀ : Lexer ω τ} {P : Entry τ → Prop} {e : Entry τ}
  {handed : List (Item τ)} {p q : Nat}

/-- Whatever a lexer of this kind makes satisfies `P`. -/
def Yields (s₀ : Lexer ω τ) (P : Entry τ → Prop) : Prop :=
  ∀ ⦃s p q e s'⦄, Kindred s₀ s → Lined s₀.input P p q s → s.produce = (.ok (some e), s') → P e

theorem Lined.produce_cursor {made : Except Failure (Option (Entry τ))}
    (h : Lined s₀.input P s.position q s) (hp : s.produce = (made, s')) :
    Lined s₀.input P s'.position q s' := by
  rw [position_produce hp]
  exact h.produce hp

/-- The tokens handed out cover the input up to the cursor, and the queue goes on from there. -/
structure Seamless (s₀ : Lexer ω τ) (P : Entry τ → Prop) (handed : List (Item τ))
    (s : Lexer ω τ) : Prop where
  kindred : Kindred s₀ s
  lined : ∃ q, Lined s₀.input P s.position q s
  handed_eq : ∃ es, handed = es.map (·.item) ∧ Tiled s₀.input P 0 es s.position

namespace Seamless

theorem start (P : Entry τ → Prop) (input : Text) (rules : RuleTable) (builder : Builder ω τ)
    (settings : Settings ω τ) (memory : ω) :
    Seamless (start input rules builder settings memory) P []
      (start input rules builder settings memory) :=
  ⟨⟨rfl, rfl, rfl, Verified.sound_nil⟩, ⟨0, .start P input rules builder settings memory⟩,
    ⟨[], rfl, .nil⟩⟩

theorem produce {made : Except Failure (Option (Entry τ))} (h : Seamless s₀ P handed s)
    (hp : s.produce = (made, s')) : Seamless s₀ P handed s' := by
  obtain ⟨q, hlined⟩ := h.lined
  exact ⟨h.kindred.produce hp, ⟨q, hlined.produce_cursor hp⟩, position_produce hp ▸ h.handed_eq⟩

theorem push (h : Seamless s₀ P handed s) (hlined : Lined s₀.input P s.position q s)
    (he : e.LiesAt s₀.input q) (hP : P e) : Seamless s₀ P handed (s.push e) :=
  ⟨h.kindred, ⟨_, hlined.push he hP⟩, h.handed_eq⟩

theorem extend (h : Seamless s₀ P handed s) (he : e.LiesAt s₀.input s.position) (hP : P e) :
    ∃ es, handed ++ [e.item] = es.map (·.item) ∧
      Tiled s₀.input P 0 es (s.position + e.lexeme.text.length) := by
  obtain ⟨es, rfl, htiled⟩ := h.handed_eq
  exact ⟨es ++ [e], by simp, htiled.snoc he hP⟩

theorem serve {rest : List (Entry τ)} (h : Seamless s₀ P handed s) (hq : s.queue = e :: rest) :
    Seamless s₀ P (handed ++ [e.item])
      (({ s with queue := rest, advanced := none } : Lexer ω τ).pass e) := by
  obtain ⟨q, hlined⟩ := h.lined
  obtain ⟨he, hP⟩ := hlined.front hq
  obtain ⟨hposition, hserved⟩ := hlined.serve hq
  exact ⟨h.kindred, ⟨q, hserved⟩, hposition ▸ h.extend he hP⟩

theorem pass (h : Seamless s₀ P handed s) (hyields : Yields s₀ P) (hq : s.queue = [])
    (hp : s.produce = (.ok (some e), s')) : Seamless s₀ P (handed ++ [e.item]) (s'.pass e) := by
  obtain ⟨q, hlined⟩ := h.lined
  have hP := hyields h.kindred hlined hp
  have he := hlined.liesAt_produce hp
  obtain ⟨hposition, hpassed⟩ := (hlined.produce hp).pass (queue_produce hp ▸ hq) he
  have hkindred := h.kindred.produce hp
  rw [hlined.idle hq] at he hposition
  exact ⟨hkindred, ⟨_, hpassed⟩, hposition ▸ h.extend he hP⟩

theorem sustained (hyields : Yields s₀ P) : Sustained (Seamless s₀ P) where
  remember memory h :=
    ⟨h.kindred, h.lined.imp fun _ hlined => hlined.frame _ _ _ _ memory, h.handed_eq⟩
  forget h := ⟨h.kindred, h.lined.imp fun _ hlined => hlined.forget, h.handed_eq⟩
  produce h hp := h.produce hp
  push h hp := by
    obtain ⟨q, hlined⟩ := h.lined
    exact (h.produce hp).push (hlined.produce_cursor hp) (hlined.liesAt_produce hp)
      (hyields h.kindred hlined hp)
  pass h hq hp := h.pass hyields hq hp
  serve h hq := h.serve hq

theorem advance (h : Seamless s₀ P handed s) (hyields : Yields s₀ P) :
    Seamless s₀ P handed s.advance.2 := by
  rcases advance_cases s with ⟨made, t, hp, hadvance⟩ | ⟨f, t, hp, hadvance⟩ <;> rw [hadvance]
  · obtain ⟨q, hlined⟩ := h.lined
    obtain ⟨hkindred, -, hhanded⟩ := h.produce hp
    refine ⟨hkindred, ⟨q, (hlined.produce_cursor hp).advance fun e he => ?_⟩, hhanded⟩
    subst he
    refine ⟨hlined.liesAt_produce hp, hyields h.kindred hlined hp, ?_⟩
    rw [(produce_some hp).2.1, Option.isSome_some]
  · exact h.produce hp

theorem matchBy (h : Seamless s₀ P handed s) (pattern : Value) :
    Seamless s₀ P handed (s.matchBy pattern).2 := by
  obtain ⟨verified, hmatch, hgrows⟩ := matchBy_frame s pattern
  obtain ⟨⟨hrules, hbuilder, hsettings, hverified⟩, ⟨q, hlined⟩, hhanded⟩ := h
  rw [hmatch]
  exact ⟨⟨hrules, hbuilder, hsettings, hgrows.sound hverified⟩,
    ⟨q, hlined.frame _ verified _ _ _⟩, hhanded⟩

theorem stuck (h : Seamless s₀ P handed s) (hscan : s.scan = (.ok none, s')) :
    Seamless s₀ P handed s' ∧ s'.queue = [] ∧ (s'.remaining = [] ∨
      ∀ r ∈ s₀.rules.rules, ∀ p ∈ r.patterns, p.matchStart? s'.remaining = none) := by
  obtain ⟨hq, hp⟩ := @produce_of_scan _ _ s s' (.ok ()) hscan
  refine ⟨h.produce hp, queue_produce hp ▸ hq, ?_⟩
  obtain ⟨hrules, -, -, hsound⟩ := h.kindred
  have hremaining : s'.remaining = s.remaining := by
    obtain ⟨_, _, _, _, rfl, -⟩ := produce_frame hp
    rfl
  rw [hremaining]
  rcases produce_none hp with hend | hnothing
  · refine .inl ?_
    rw [exhausted, headOffset_of_queue_nil hq] at hend
    exact List.length_eq_zero_iff.mp (by omega)
  · rw [(hsound.firstFinding _ _).1, ahead_of_queue_nil hq, hrules] at hnothing
    exact .inr (RuleTable.matchStart_of_first hnothing)

end Seamless

end PullLexer.Lexer

-- ---------------------------------------------------------------------------
-- Over whole runs
-- ---------------------------------------------------------------------------

namespace PullLexer.Operation

open Lexer

variable {ω τ : Type} [TokenLike τ] {s s₀ : Lexer ω τ} {P : Entry τ → Prop}
  {handed : List (Item τ)} {operation : Operation ω τ}

/-- Scanning, looking ahead, matching, advancing, and queueing the token that an advance just made,
with guards that leave the lexer alone. -/
def Reads (s : Lexer ω τ) : Operation ω τ → Prop
  | .advance | .matchBy _ | .enqueue none _ => True
  | .enqueue (some item) given => given = none ∧ ∃ e, s.advanced = some e ∧ item = e.item
  | operation => operation.Scans

theorem seamless_enqueue (h : Seamless s₀ P handed s) {item : Option (Item τ)}
    {given : Option Lexeme} (hop : (Operation.enqueue item given).Reads s) :
    Seamless s₀ P handed (s.enqueueIfAny item given).2 := by
  rcases enqueueIfAny_cases s item given with hsame | ⟨i, l, rfl, hl, hpush⟩
  · rwa [hsame]
  · obtain ⟨rfl, e, ha, rfl⟩ := hop
    obtain ⟨q, hlined⟩ := h.lined
    obtain ⟨he, hP, -⟩ := hlined.remembered e ha
    rw [hlined.lexemeUnder_eq ha] at hl
    cases hl
    rw [hpush]
    exact h.push hlined he hP

theorem seamless_step (hyields : Yields s₀ P) (h : Seamless s₀ P handed s)
    (hop : operation.Reads s) :
    Seamless s₀ P (handed ++ operation.handed s) (operation.step s) := by
  have scans : operation.Scans →
      Seamless s₀ P (handed ++ operation.handed s) (operation.step s) :=
    (Seamless.sustained hyields).step h
  cases operation with
  | advance =>
    simpa only [step, perform, Outcome.snd_map, Operation.handed, List.append_nil] using
      h.advance hyields
  | enqueue item given =>
    simpa only [step, perform, Outcome.snd_map, Operation.handed, List.append_nil] using
      seamless_enqueue h hop
  | matchBy pattern =>
    simpa only [step, perform, Outcome.snd_map, Operation.handed, List.append_nil] using
      h.matchBy pattern
  | _ => exact scans hop

theorem seamless_along_run (hyields : Yields s₀ P) (h : Seamless s₀ P [] s)
    {operations : List (Operation ω τ)} (hrun : Along Reads s operations) :
    Seamless s₀ P (handedAlong s operations) (run s operations) :=
  run_induction (fun _ _ _ hop h => seamless_step hyields h hop) h hrun

end PullLexer.Operation
