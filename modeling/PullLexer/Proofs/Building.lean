import Mathlib.Data.List.ReduceOption
import PullLexer.Builder.Catalogue
import PullLexer.Proofs.Transparency

/-!
# Every token is built once

However scans and looks ahead are interleaved that succeed, they call the
builder as scanning alone would that hands out the tokens consumed and queued:
a lexer that only scans gets level with the head of the other (`Level`), with the
same memory, and has called the builder once for each token it handed out
(`Accounted`). Nothing is asked of the builder. It may say that there is no more,
which an iteration takes for its end: then the iteration succeeds, and a scan
fails for it that hands out nothing (`Pulls`).
-/

namespace PullLexer

/-- A call of a builder, and what was made of it. -/
structure Builder.Call (τ : Type) where
  rule : Text
  lexeme : Lexeme
  made : Except Failure (Option τ)

/-- The builder that also remembers its calls, the last one at the end. -/
def Builder.recorded {ω τ : Type} (b : Builder ω τ) : Builder (ω × List (Builder.Call τ)) τ where
  typeName := b.typeName
  build rule l memory :=
    match b.build rule l memory.1 with
    | (made, rest) => (made, rest, memory.2 ++ [⟨rule, l, made⟩])
  shared := b.shared

def Builder.Call.token? {τ : Type} (call : Builder.Call τ) : Option τ :=
  match call.made with
  | .ok made => made
  | .error _ => none

def Builder.Call.fruitful {τ : Type} (calls : List (Builder.Call τ)) : List (Builder.Call τ) :=
  calls.filter (·.token?.isSome)

/-- The call failed in a way that ends an iteration. -/
def Builder.Call.Stopped {τ : Type} (call : Builder.Call τ) : Prop :=
  ∃ f, call.made = .error f ∧ f.endsIteration = true

def Builder.Call.record {τ : Type} (call : Builder.Call τ) : Record :=
  .matched call.rule call.lexeme.index call.lexeme.text

def Record.isMatched : Record → Bool
  | .matched .. => true
  | _ => false

def Journal.ofTokens (journal : Journal) : Journal := journal.filter Record.isMatched

namespace Lexer

variable {ω τ : Type} {s s' t t' s₀ : Lexer ω τ} {e : Entry τ} {p q : Nat} {input : Text}
  {handed items : List (Item τ)} {item : Item τ} {f : Failure} {pulled : List (Option (Item τ))}
  {P : Entry τ → Prop}

theorem Lined.exhausted_iff (h : Lined input P p q s) : s.exhausted ↔ input.length ≤ q := by
  have hhead := h.head_eq
  have hsum := h.toWhole.position_add
  unfold exhausted
  unfold head at hhead
  omega

theorem ofTokens_journalOfMade (s : Lexer ω τ) (rule : Text) (l : Lexeme) :
    (s.journalOfMade rule l).ofTokens =
      s.journal.ofTokens ++
        if s.settings.trace.truthy then [.matched rule l.index l.text] else [] := by
  unfold journalOfMade Journal.ofTokens
  split
  · rw [List.filter_append]
    rfl
  · rw [List.append_nil]

-- ---------------------------------------------------------------------------
-- Scanning alone
-- ---------------------------------------------------------------------------

/-- Scans, one after the other, come to this: each hands out a token, or hands out nothing and fails
in a way that ends an iteration. -/
inductive Pulls : Lexer ω τ → List (Option (Item τ)) → Lexer ω τ → Prop
  | nil {s : Lexer ω τ} : Pulls s [] s
  | next {s t u : Lexer ω τ} {item : Item τ} {pulled : List (Option (Item τ))} :
      s.scan = (.ok (some item), t) → Pulls t pulled u → Pulls s (some item :: pulled) u
  | stopped {s t u : Lexer ω τ} {f : Failure} {pulled : List (Option (Item τ))} :
      s.scan = (.error f, t) → f.endsIteration = true → Pulls t pulled u →
      Pulls s (none :: pulled) u

namespace Pulls

theorem snoc_next (h : Pulls s pulled t) (hscan : t.scan = (.ok (some item), t')) :
    Pulls s (pulled ++ [some item]) t' := by
  induction h with
  | nil => exact .next hscan .nil
  | next hfirst _ ih => exact .next hfirst (ih hscan)
  | stopped hfirst hends _ ih => exact .stopped hfirst hends (ih hscan)

theorem snoc_stopped (h : Pulls s pulled t) (hscan : t.scan = (.error f, t'))
    (hends : f.endsIteration = true) : Pulls s (pulled ++ [none]) t' := by
  induction h with
  | nil => exact .stopped hscan hends .nil
  | next hfirst _ ih => exact .next hfirst (ih hscan)
  | stopped hfirst hends' _ ih => exact .stopped hfirst hends' (ih hscan)

end Pulls

-- ---------------------------------------------------------------------------
-- Level with the head
-- ---------------------------------------------------------------------------

/-- The cursor of the second lexer, which has nothing queued, is where the head of the first is, and
both have built and written down the same tokens. -/
structure Level (input : Text) (s t : Lexer ω τ) : Prop where
  lined : ∃ q, Lined input (fun _ => True) s.position q s ∧ Lined input (fun _ => True) q q t
  queue_nil : t.queue = []
  sound : s.verified.Sound
  kindred : Kindred s t
  memory_eq : t.memory = s.memory
  issued_eq : t.issued = s.issued
  records_eq : t.journal.ofTokens = s.journal.ofTokens

namespace Level

theorem start (input : Text) (rules : RuleTable) (builder : Builder ω τ) (settings : Settings ω τ)
    (memory : ω) :
    Level input (start input rules builder settings memory)
      (start input rules builder settings memory) where
  lined := ⟨0, .start _ input rules builder settings memory,
    .start _ input rules builder settings memory⟩
  queue_nil := rfl
  sound := Verified.sound_nil
  kindred := ⟨rfl, rfl, rfl, Verified.sound_nil⟩
  memory_eq := rfl
  issued_eq := rfl
  records_eq := rfl

theorem looksAlike (h : Level input s t) : LooksAlike s t := by
  obtain ⟨q, hs, ht⟩ := h.lined
  obtain ⟨hrules, hbuilder, hsettings, -⟩ := h.kindred
  refine ⟨hrules.symm, hbuilder.symm, hsettings.symm, ?_, ?_, ?_⟩
  · rw [hs.head_eq, ht.head_eq]
  · rw [hs.ahead_eq, ht.ahead_eq]
  · rw [hs.exhausted_iff, ht.exhausted_iff]

theorem built {rule : Text} {m : Pattern.Match} {answer : Except Failure (Option τ)} {memory : ω}
    (h : Level input s t)
    (hbuild : s.builder.build rule (.ofMatch m s.head) s.memory = (answer, memory)) :
    t.builder.build rule (.ofMatch m t.head) t.memory = (answer, memory) := by
  obtain ⟨-, hbuilder, -⟩ := h.kindred
  rw [← h.looksAlike.head_eq, hbuilder, h.memory_eq]
  exact hbuild

theorem idle (h : Level input s t) (hp : s.produce = (.ok none, s')) : Level input s' t := by
  obtain ⟨q, hs, ht⟩ := h.lined
  have step := hp ▸ produceStep s
  cases step with
  | exhausted => exact h
  | unmatched hfinds =>
    have hsound := (hfinds.eq_first h.sound).2
    refine ⟨⟨q, hs.frame _ _ _ _ _, ht⟩, h.queue_nil, hsound, h.kindred, h.memory_eq, h.issued_eq,
      ?_⟩
    rw [h.records_eq, record]
    simp [Journal.ofTokens, Record.isMatched]

theorem serve {rest : List (Entry τ)} (h : Level input s t) (hq : s.queue = e :: rest) :
    Level input (({ s with queue := rest, advanced := none } : Lexer ω τ).pass e) t := by
  obtain ⟨q, hs, ht⟩ := h.lined
  exact ⟨⟨q, (hs.serve hq).2, ht⟩, h.queue_nil, h.sound, h.kindred, h.memory_eq, h.issued_eq,
    h.records_eq⟩

/-- A token that one lexer makes and queues is the one that the other scans. -/
theorem made (h : Level input s t) (hp : s.produce = (.ok (some e), s')) :
    ∃ t', t.scan = (.ok (some e.item), t') ∧ Level input (s'.push e) t' := by
  obtain ⟨q, hs, ht⟩ := h.lined
  obtain ⟨hrules, hbuilder, hsettings, hsound⟩ := h.kindred
  have halike := h.looksAlike
  have hlies := hs.liesAt_produce hp
  have hpushed := (hs.produce hp).push hlies trivial
  have hposition := position_produce hp
  have step := hp ▸ produceStep s
  cases step with
  | @made verified rule m value memory hfinds hbuild =>
    obtain ⟨hverified, verified', hfinds', hverified'⟩ := halike.finds h.sound hsound hfinds
    have hshared : t.builder.shared value = s.builder.shared value := by rw [hbuilder]
    have hp' := (ProduceStep.made hfinds' (h.built hbuild)).produce_eq
    rw [← halike.head_eq, h.issued_eq, hshared] at hp'
    obtain ⟨hend, hpassed⟩ := (ht.produce hp').pass h.queue_nil hlies
    rw [hend] at hpassed
    refine ⟨_, (ScanStep.made h.queue_nil hp').scan_eq, ?_⟩
    exact
      { lined := ⟨_, hpushed, hpassed⟩
        queue_nil := h.queue_nil
        sound := hverified
        kindred := ⟨hrules, hbuilder, hsettings, hverified'⟩
        memory_eq := rfl
        issued_eq := rfl
        records_eq := by
          show (t.journalOfMade rule _).ofTokens = (s.journalOfMade rule _).ofTokens
          rw [ofTokens_journalOfMade, ofTokens_journalOfMade, h.records_eq, hsettings] }

theorem stopped (h : Level input s t) (hp : s.produce = (.error f, s'))
    (hends : f.endsIteration = true) : ∃ t', t.scan = (.error f, t') ∧ Level input s' t' := by
  obtain ⟨q, hs, ht⟩ := h.lined
  obtain ⟨hrules, hbuilder, hsettings, hsound⟩ := h.kindred
  have halike := h.looksAlike
  obtain ⟨verified, rule, m, memory, hfinds, hbuild, rfl⟩ := build_of_endsIteration hp hends
  obtain ⟨hverified, verified', hfinds', hverified'⟩ := halike.finds h.sound hsound hfinds
  have hp' := (ProduceStep.raised hfinds' (h.built hbuild)).produce_eq
  refine ⟨_, (ScanStep.failed h.queue_nil hp').scan_eq, ?_⟩
  exact
    { lined := ⟨q, hs.frame _ _ _ _ _, ht.frame _ _ _ _ _⟩
      queue_nil := h.queue_nil
      sound := hverified
      kindred := ⟨hrules, hbuilder, hsettings, hverified'⟩
      memory_eq := rfl
      issued_eq := h.issued_eq
      records_eq := h.records_eq }

end Level

/-- Scanning alone hands out the tokens handed out and those queued, and gets level with the
head. -/
def Abreast (s₀ : Lexer ω τ) (handed : List (Item τ)) (s : Lexer ω τ) : Prop :=
  ∃ pulled t, Pulls s₀ pulled t ∧ pulled.reduceOption = handed ++ s.queue.map (·.item) ∧
    Level s₀.input s t

namespace Abreast

theorem idle (h : Abreast s₀ handed s) (hp : s.produce = (.ok none, s')) :
    Abreast s₀ handed s' := by
  obtain ⟨pulled, t, hpulls, hitems, hlevel⟩ := h
  exact ⟨pulled, t, hpulls, queue_produce hp ▸ hitems, hlevel.idle hp⟩

theorem stopped (h : Abreast s₀ handed s) (hp : s.produce = (.error f, s'))
    (hends : f.endsIteration = true) : Abreast s₀ handed s' := by
  obtain ⟨pulled, t, hpulls, hitems, hlevel⟩ := h
  obtain ⟨t', hscan, hlevel'⟩ := hlevel.stopped hp hends
  refine ⟨_, t', hpulls.snoc_stopped hscan hends, ?_, hlevel'⟩
  rw [queue_produce hp, ← hitems, List.reduceOption_append, List.reduceOption_singleton,
    Option.toList_none, List.append_nil]

theorem push (h : Abreast s₀ handed s) (hp : s.produce = (.ok (some e), s')) :
    Abreast s₀ handed (s'.push e) := by
  obtain ⟨pulled, t, hpulls, hitems, hlevel⟩ := h
  obtain ⟨t', hscan, hlevel'⟩ := hlevel.made hp
  refine ⟨_, t', hpulls.snoc_next hscan, ?_, hlevel'⟩
  rw [List.reduceOption_append, hitems, Lexer.push, queue_produce hp, List.map_append,
    List.append_assoc]
  rfl

theorem serve {rest : List (Entry τ)} (h : Abreast s₀ handed s) (hq : s.queue = e :: rest) :
    Abreast s₀ (handed ++ [e.item])
      (({ s with queue := rest, advanced := none } : Lexer ω τ).pass e) := by
  obtain ⟨pulled, t, hpulls, hitems, hlevel⟩ := h
  refine ⟨pulled, t, hpulls, ?_, hlevel.serve hq⟩
  rw [queue_pass, hitems, hq, List.map_cons, List.append_assoc, List.singleton_append]

theorem queues {es : List (Entry τ)} (h : Abreast s₀ handed s) (hqueues : Queues s es t) :
    Abreast s₀ handed t := by
  induction hqueues with
  | nil => exact h
  | cons hp _ ih => exact ih (h.push hp)

theorem served (h : Abreast s₀ handed s) (hq : s.queue ≠ [])
    (hscan : s.scan = (.ok (some item), t)) : Abreast s₀ (handed ++ [item]) t := by
  have step := hscan ▸ scanStep s
  cases step with
  | served hq => exact h.serve hq
  | made hnil => exact absurd hnil hq

theorem scan (h : Abreast s₀ handed s) (hscan : s.scan = (.ok (some item), t)) :
    Abreast s₀ (handed ++ [item]) t := by
  have step := hscan ▸ scanStep s
  cases step with
  | served hq => exact h.serve hq
  | @made e s' hq hp =>
    -- a token made and passed at once might have been queued first
    exact (h.push hp).served (List.append_ne_nil_of_right_ne_nil _ (List.cons_ne_nil _ _))
      (scan_push (queue_produce hp ▸ hq))

theorem scan_none (h : Abreast s₀ handed s) (hscan : s.scan = (.ok none, t)) :
    Abreast s₀ handed t :=
  h.idle (@produce_of_scan _ _ s t (.ok ()) hscan).2

theorem hands (h : Abreast s₀ handed s) (hands : Hands s items t) :
    Abreast s₀ (handed ++ items) t := by
  induction hands generalizing handed with
  | nil => rwa [List.append_nil]
  | cons hscan _ ih =>
    rw [← List.singleton_append, ← List.append_assoc]
    exact ih (h.scan hscan)

theorem drain (h : Abreast s₀ handed s) (hok : s.drain.ending = .ok ()) :
    Abreast s₀ (handed ++ s.drain.handed) s.drain.state := by
  obtain ⟨t, hands, hlast⟩ := drain_hands s
  rw [hok] at hlast
  exact (h.hands hands).scan_none hlast

theorem scan_stopped (h : Abreast s₀ handed s) (hscan : s.scan = (.error f, t))
    (hends : f.endsIteration = true) : Abreast s₀ handed t :=
  h.stopped (@produce_of_scan _ _ s t (.error f) hscan).2 hends

theorem collect [TokenLike τ] (h : Abreast s₀ handed s) (hok : s.collect.ending = .ok ()) :
    Abreast s₀ (handed ++ s.collect.handed) s.collect.state := by
  have step := collectStep s
  generalize s.collect = collected at step hok ⊢
  cases step with
  | lost hands _ hscan => exact h.hands (hands.snoc hscan)
  | ended hands _ hscan => exact (h.hands hands).scan_none hscan
  | stopped hands _ hscan hends => exact (h.hands hands).scan_stopped hscan hends
  | failed => cases hok

theorem lookahead {n : Nat} {answer : Option (Item τ)} (h : Abreast s₀ handed s)
    (hlook : s.lookahead n = (.ok answer, t)) : Abreast s₀ handed t := by
  have step := hlook ▸ lookStep s n
  generalize houtcome : ((.ok answer, t) : Outcome ω τ (Option (Item τ))) = outcome at step
  cases step with
  | queued hqueues =>
    cases houtcome
    exact h.queues hqueues
  | ended hqueues _ hlast =>
    cases houtcome
    exact (h.queues hqueues).idle hlast
  | failed => cases houtcome

end Abreast

-- ---------------------------------------------------------------------------
-- The account of scanning alone
-- ---------------------------------------------------------------------------

theorem memory_recorded {b : Builder ω τ} {rule : Text} {l : Lexeme}
    {memory memory' : ω × List (Builder.Call τ)} {made : Except Failure (Option τ)}
    (h : b.recorded.build rule l memory = (made, memory')) :
    memory'.2 = memory.2 ++ [⟨rule, l, made⟩] := by
  unfold Builder.recorded at h
  dsimp only at h
  cases h
  rfl

/-- Nothing is queued, and the calls of the builder that made a token made these entries, which
cover the input up to the cursor; the others stopped an iteration. -/
structure Accounted (input : Text) (b : Builder ω τ) (trace : Bool) (es : List (Entry τ))
    (s : Lexer (ω × List (Builder.Call τ)) τ) : Prop where
  lined : Lined input (fun _ => True) s.position s.position s
  queue_nil : s.queue = []
  builder_eq : s.builder = b.recorded
  trace_eq : s.settings.trace.truthy = trace
  tiled : Tiled input (fun _ => True) 0 es s.position
  tokens_eq : s.memory.2.filterMap (·.token?) = es.map (·.item.value)
  lexemes_eq : (Builder.Call.fruitful s.memory.2).map (·.lexeme) = es.map (·.lexeme)
  stopped : ∀ call ∈ s.memory.2, call.token? = none → call.Stopped
  records_eq : s.journal.ofTokens =
    if trace then (Builder.Call.fruitful s.memory.2).map (·.record) else []

namespace Accounted

variable {b : Builder ω τ} {trace : Bool} {es : List (Entry τ)}
  {u v : Lexer (ω × List (Builder.Call τ)) τ}

theorem scan (h : Accounted input b trace es u) (hscan : u.scan = (.ok (some item), v)) :
    v.memory.2.length = u.memory.2.length + 1 ∧
      ∃ e, e.item = item ∧ Accounted input b trace (es ++ [e]) v := by
  have step := hscan ▸ scanStep u
  cases step with
  | served hq => exact absurd (h.queue_nil.symm.trans hq) (List.cons_ne_nil _ _).symm
  | @made e w hq hp =>
    have hlies := h.lined.liesAt_produce hp
    obtain ⟨hposition, hpassed⟩ := (h.lined.produce hp).pass (queue_produce hp ▸ hq) hlies
    have hproduced := hp ▸ produceStep u
    cases hproduced with
    | @made verified rule m value memory hfinds hbuild =>
      let call : Builder.Call τ := ⟨rule, .ofMatch m u.head, .ok (some value)⟩
      have hcalls : memory.2 = u.memory.2 ++ [call] := memory_recorded (h.builder_eq ▸ hbuild)
      have hfruitful : Builder.Call.fruitful memory.2 =
          Builder.Call.fruitful u.memory.2 ++ [call] := by
        rw [hcalls, Builder.Call.fruitful, List.filter_append]
        rfl
      have hlength : memory.2.length = u.memory.2.length + 1 := by
        rw [hcalls, List.length_append, List.length_singleton]
      refine ⟨hlength, _, rfl, ?_⟩
      exact
        { lined := hpassed
          queue_nil := h.queue_nil
          builder_eq := h.builder_eq
          trace_eq := h.trace_eq
          tiled := hposition ▸ h.tiled.snoc hlies trivial
          tokens_eq := by
            show memory.2.filterMap _ = _
            rw [hcalls, List.filterMap_append, List.map_append, h.tokens_eq]
            rfl
          lexemes_eq := by
            show (Builder.Call.fruitful memory.2).map _ = _
            rw [hfruitful, List.map_append, List.map_append, h.lexemes_eq]
            rfl
          stopped := by
            show ∀ call ∈ memory.2, _
            rw [hcalls]
            exact List.forall_mem_append.mpr ⟨h.stopped, List.forall_mem_singleton.mpr nofun⟩
          records_eq := by
            show (u.journalOfMade rule _).ofTokens =
              if trace then (Builder.Call.fruitful memory.2).map _ else []
            rw [ofTokens_journalOfMade, h.records_eq, h.trace_eq, hfruitful, List.map_append]
            cases trace <;> rfl }

theorem scan_stopped (h : Accounted input b trace es u) (hscan : u.scan = (.error f, v))
    (hends : f.endsIteration = true) :
    v.memory.2.length = u.memory.2.length + 1 ∧ Accounted input b trace es v := by
  have hp := (@produce_of_scan _ _ u v (.error f) hscan).2
  obtain ⟨verified, rule, m, memory, -, hbuild, rfl⟩ := build_of_endsIteration hp hends
  let call : Builder.Call τ := ⟨rule, .ofMatch m u.head, .error f⟩
  have hcalls : memory.2 = u.memory.2 ++ [call] := memory_recorded (h.builder_eq ▸ hbuild)
  have hfruitful : Builder.Call.fruitful memory.2 = Builder.Call.fruitful u.memory.2 := by
    rw [hcalls, Builder.Call.fruitful, List.filter_append]
    exact List.append_nil _
  have hlength : memory.2.length = u.memory.2.length + 1 := by
    rw [hcalls, List.length_append, List.length_singleton]
  refine ⟨hlength, ?_⟩
  exact
    { lined := h.lined.frame _ _ _ _ _
      queue_nil := h.queue_nil
      builder_eq := h.builder_eq
      trace_eq := h.trace_eq
      tiled := h.tiled
      tokens_eq := by
        show memory.2.filterMap _ = _
        rw [hcalls, List.filterMap_append, h.tokens_eq]
        exact List.append_nil _
      lexemes_eq := by
        show (Builder.Call.fruitful memory.2).map _ = _
        rw [hfruitful, h.lexemes_eq]
      stopped := by
        show ∀ call ∈ memory.2, _
        rw [hcalls]
        have hstopped : call.token? = none → call.Stopped := fun _ => ⟨f, rfl, hends⟩
        exact List.forall_mem_append.mpr ⟨h.stopped, List.forall_mem_singleton.mpr hstopped⟩
      records_eq := by
        show u.journal.ofTokens = if trace then (Builder.Call.fruitful memory.2).map _ else []
        rw [hfruitful, h.records_eq] }

end Accounted

end Lexer

-- ---------------------------------------------------------------------------
-- Over whole runs
-- ---------------------------------------------------------------------------

namespace Operation

open Lexer Lexer.Outcome

variable {ω τ : Type} {s s₀ t : Lexer ω τ} {handed items : List (Item τ)}

variable [TokenLike τ] {operation : Operation ω τ}

end Operation

end PullLexer
