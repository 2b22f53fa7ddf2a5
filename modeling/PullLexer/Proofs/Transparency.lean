import PullLexer.Proofs.Seamless

/-!
# Looking ahead changes nothing

With a builder that depends on rule and lexeme alone, what a production makes
is decided by the place of the head (`LooksAlike.made_eq`), so that an input has
one stream of values (`Stream`). However scans and looks ahead are interleaved, what
was handed out and what a scan would still hand out make up that stream.
-/

namespace PullLexer

/-- What it makes, or why it fails, depends on rule and lexeme alone. -/
def Builder.Steady {ω τ : Type} (b : Builder ω τ) : Prop :=
  ∀ rule l memory memory', (b.build rule l memory).1 = (b.build rule l memory').1

namespace Lexer

variable {ω τ : Type} {s t s₀ s' : Lexer ω τ} {e : Entry τ} {p q : Nat}

-- ---------------------------------------------------------------------------
-- What decides a production
-- ---------------------------------------------------------------------------

/-- The value that a production makes, with its lexeme, and without what tells tokens apart. -/
def made (s : Lexer ω τ) : Except Failure (Option (τ × Lexeme)) :=
  s.produce.1.map (Option.map fun e => (e.item.value, e.lexeme))

/-- Two lexers that have the same rules and settings and look for the next token at the same place
of the same text. -/
structure LooksAlike (s t : Lexer ω τ) : Prop where
  rules_eq : s.rules = t.rules
  builder_eq : s.builder = t.builder
  settings_eq : s.settings = t.settings
  head_eq : s.head = t.head
  ahead_eq : s.ahead = t.ahead
  exhausted_iff : s.exhausted ↔ t.exhausted

namespace LooksAlike

theorem excerpt_eq (h : LooksAlike s t) : s.excerpt = t.excerpt := by
  simp only [excerpt, h.ahead_eq, h.settings_eq]

theorem failureAt_eq (h : LooksAlike s t) (rule : Text) (complaint : Complaint) :
    s.failureAt rule complaint = t.failureAt rule complaint := by
  simp only [failureAt, h.excerpt_eq]

theorem finds {finding : Finding} {verified : Verified} (h : LooksAlike s t)
    (hs : s.verified.Sound) (ht : t.verified.Sound) (hfinds : s.Finds finding verified) :
    verified.Sound ∧ ∃ verified', t.Finds finding verified' ∧ verified'.Sound :=
  hfinds.transfer hs ht h.exhausted_iff.mpr (by rw [h.ahead_eq, h.rules_eq])

theorem build {rule : Text} {m : Pattern.Match} {built : Except Failure (Option τ)} {memory : ω}
    (h : LooksAlike s t) (hsteady : s.builder.Steady)
    (hbuild : s.builder.build rule (.ofMatch m s.head) s.memory = (built, memory)) :
    ∃ memory', t.builder.build rule (.ofMatch m t.head) t.memory = (built, memory') := by
  have hsame := hsteady rule (.ofMatch m s.head) t.memory s.memory
  rw [hbuild, h.builder_eq, h.head_eq] at hsame
  exact ⟨(t.builder.build rule (.ofMatch m t.head) t.memory).2, Prod.ext hsame rfl⟩

theorem made_eq (h : LooksAlike s t) (hsteady : s.builder.Steady) (hs : s.verified.Sound)
    (ht : t.verified.Sound) : s.made = t.made := by
  have step := produceStep s
  unfold made
  generalize s.produce = outcome at step ⊢
  cases step with
  | exhausted hend => rw [(ProduceStep.exhausted (h.exhausted_iff.mp hend)).produce_eq]
  | unmatched hfinds hexcerpt =>
    obtain ⟨-, _, hfinds', -⟩ := h.finds hs ht hfinds
    rw [(ProduceStep.unmatched hfinds' (h.excerpt_eq.symm.trans hexcerpt)).produce_eq]
  | unexcerpted hfinds hexcerpt =>
    obtain ⟨-, _, hfinds', -⟩ := h.finds hs ht hfinds
    rw [(ProduceStep.unexcerpted hfinds' (h.excerpt_eq.symm.trans hexcerpt)).produce_eq]
  | refused hfinds =>
    obtain ⟨-, _, hfinds', -⟩ := h.finds hs ht hfinds
    rw [(ProduceStep.refused hfinds').produce_eq, h.failureAt_eq]
  | raised hfinds hbuild =>
    obtain ⟨-, _, hfinds', -⟩ := h.finds hs ht hfinds
    obtain ⟨_, hbuild'⟩ := h.build hsteady hbuild
    rw [(ProduceStep.raised hfinds' hbuild').produce_eq]
  | nothingBuilt hfinds hbuild =>
    obtain ⟨-, _, hfinds', -⟩ := h.finds hs ht hfinds
    obtain ⟨_, hbuild'⟩ := h.build hsteady hbuild
    rw [(ProduceStep.nothingBuilt hfinds' hbuild').produce_eq, h.failureAt_eq]
  | made hfinds hbuild =>
    obtain ⟨-, _, hfinds', -⟩ := h.finds hs ht hfinds
    obtain ⟨_, hbuild'⟩ := h.build hsteady hbuild
    rw [(ProduceStep.made hfinds' hbuild').produce_eq, h.head_eq]
    rfl

end LooksAlike

-- ---------------------------------------------------------------------------
-- The stream of an input
-- ---------------------------------------------------------------------------

/-- The lexer with its cursor put at a place and nothing queued or remembered. -/
def resumeAt (place : Nat) (s : Lexer ω τ) : Lexer ω τ :=
  { s with
    remaining := s.input.drop place
    position := place
    consumed := s.input.take place
    queue := []
    verified := []
    advanced := none }

/-- The values made from a place on, one right after the other, and how that ends. -/
inductive Stream (s₀ : Lexer ω τ) : Nat → List τ → Except Failure Unit → Prop
  | token {place : Nat} {value : τ} {l : Lexeme} {values : List τ} {ending : Except Failure Unit} :
      (s₀.resumeAt place).made = .ok (some (value, l)) →
      Stream s₀ (place + l.text.length) values ending → Stream s₀ place (value :: values) ending
  | ended {place : Nat} : (s₀.resumeAt place).made = .ok none → Stream s₀ place [] (.ok ())
  | failed {place : Nat} {f : Failure} : (s₀.resumeAt place).made = .error f →
      Stream s₀ place [] (.error f)

theorem Stream.deterministic {place : Nat} {values values' : List τ}
    {ending ending' : Except Failure Unit} (h : Stream s₀ place values ending)
    (h' : Stream s₀ place values' ending') : values = values' ∧ ending = ending' := by
  induction h generalizing values' with
  | token hmade _ ih =>
    cases h' with
    | token hmade' hrest =>
      rw [hmade] at hmade'
      cases hmade'
      obtain ⟨rfl, rfl⟩ := ih hrest
      exact ⟨rfl, rfl⟩
    | ended hmade' => rw [hmade] at hmade'; cases hmade'
    | failed hmade' => rw [hmade] at hmade'; cases hmade'
  | ended hmade =>
    cases h' with
    | token hmade' _ => rw [hmade] at hmade'; cases hmade'
    | ended _ => exact ⟨rfl, rfl⟩
    | failed hmade' => rw [hmade] at hmade'; cases hmade'
  | failed hmade =>
    cases h' with
    | token hmade' _ => rw [hmade] at hmade'; cases hmade'
    | ended hmade' => rw [hmade] at hmade'; cases hmade'
    | failed hmade' =>
      rw [hmade] at hmade'
      cases hmade'
      exact ⟨rfl, rfl⟩

-- ---------------------------------------------------------------------------
-- The invariant
-- ---------------------------------------------------------------------------

/-- The entry is what the lexer makes at the place where its lexeme starts. -/
def Foresees (s₀ : Lexer ω τ) (e : Entry τ) : Prop :=
  (s₀.resumeAt e.lexeme.index.toNat).made = .ok (some (e.item.value, e.lexeme))

theorem Lined.made_eq {P : Entry τ → Prop} (h : Lined s₀.input P p q s) (hs : Kindred s₀ s)
    (hsteady : s₀.builder.Steady) : s.made = (s₀.resumeAt q).made := by
  obtain ⟨hrules, hbuilder, hsettings, hsound⟩ := hs
  have hhead := h.head_eq
  have hsum := h.toWhole.position_add
  refine LooksAlike.made_eq ⟨hrules, hbuilder, hsettings, ?_, ?_, ?_⟩ (hbuilder ▸ hsteady) hsound
    Verified.sound_nil
  · rw [hhead]
    exact (Int.add_zero _).symm
  · rw [h.ahead_eq]
    exact (Text.after_zero _).symm
  · show _ ↔ ((s₀.input.drop q).length : Int) ≤ 0
    unfold exhausted
    unfold head at hhead
    rw [List.length_drop]
    omega

theorem yields_foreseen (hsteady : s₀.builder.Steady) : Yields s₀ s₀.Foresees := by
  intro s p q e s' hkindred hlined hp
  have hmade := hlined.made_eq hkindred hsteady
  unfold Foresees
  rw [(hlined.liesAt_produce hp).index_eq, Int.toNat_natCast, ← hmade, made, hp]
  rfl

/-- Entries that are foreseen begin the stream that goes on after them. -/
theorem Stream.of_tiled {es : List (Entry τ)} {values : List τ} {ending : Except Failure Unit}
    (h : Tiled s₀.input s₀.Foresees p es q) (hrest : Stream s₀ q values ending) :
    Stream s₀ p (es.map (·.item.value) ++ values) ending := by
  induction h with
  | nil => exact hrest
  | cons he hforesees _ ih =>
    rw [Foresees, he.index_eq, Int.toNat_natCast] at hforesees
    exact .token hforesees (ih hrest)

namespace Seamless

variable {handed : List (Item τ)}

theorem stream_of_scan (h : Seamless s₀ s₀.Foresees handed s) (hsteady : s₀.builder.Steady)
    {ending : Except Failure Unit} (hscan : s.scan = (ending.map fun _ => none, s')) :
    Stream s₀ s.position [] ending := by
  obtain ⟨hq, hp⟩ := produce_of_scan hscan
  obtain ⟨q, hlined⟩ := h.lined
  have hmade := hlined.made_eq h.kindred hsteady
  rw [hlined.idle hq, made, hp] at hmade
  cases ending with
  | error f => exact .failed hmade.symm
  | ok _ => exact .ended hmade.symm

/-- What was handed out and what is left make up the stream of the input. -/
theorem stream (h : Seamless s₀ s₀.Foresees handed s) (hsteady : s₀.builder.Steady) :
    Stream s₀ 0 ((handed ++ s.drain.handed).map (·.value)) s.drain.ending := by
  obtain ⟨t, ht, hscan⟩ := (sustained (yields_foreseen hsteady)).drain_last h
  obtain ⟨es, hes, htiled⟩ := ht.handed_eq
  have hstream := Stream.of_tiled htiled (ht.stream_of_scan hsteady hscan)
  rw [List.append_nil] at hstream
  rw [hes, List.map_map]
  exact hstream

end Seamless

end Lexer

-- ---------------------------------------------------------------------------
-- Over whole runs
-- ---------------------------------------------------------------------------

namespace Operation

open Lexer

variable {ω τ : Type} [TokenLike τ]

/-- However scans and looks ahead are interleaved, the tokens consumed and queued begin the stream
of tokens that scanning alone would hand out; a scan comes to an end or fails only where that
stream does, and the tokens that are left complete it. -/
theorem lookahead_transparent (input : Text) (rules : RuleTable) (builder : Builder ω τ)
    (settings : Settings ω τ) (memory : ω) (hsteady : builder.Steady)
    (operations : List (Operation ω τ))
    (hrun : Along Reads (start input rules builder settings memory) operations) :
    let s₀ := start input rules builder settings memory
    let plain := s₀.drain.handed.map (·.value)
    let consumed := (handedAlong s₀ operations).map (·.value)
    let s := run s₀ operations
    consumed ++ s.queue.map (·.item.value) <+: plain ∧
      (∀ s', s.scan = (.ok none, s') → consumed = plain ∧ s₀.drain.ending = .ok ()) ∧
      (∀ f s', s.scan = (.error f, s') → consumed = plain ∧ s₀.drain.ending = .error f) ∧
      consumed ++ s.drain.handed.map (·.value) = plain ∧ s.drain.ending = s₀.drain.ending := by
  intro s₀ plain consumed s
  have hstart := Seamless.start s₀.Foresees input rules builder settings memory
  have hend := seamless_along_run (yields_foreseen hsteady) hstart hrun
  obtain ⟨hboth, hending⟩ := (hend.stream hsteady).deterministic (hstart.stream hsteady)
  have hvalues : consumed ++ s.drain.handed.map (·.value) = plain := by
    simpa [consumed] using hboth
  refine ⟨?_, fun s' hscan => ?_, fun f s' hscan => ?_, hvalues, hending⟩
  · obtain ⟨later, hlater⟩ := queue_prefix_drain s
    refine ⟨later.map (·.value), ?_⟩
    rw [← hvalues, ← hlater]
    simp [consumed]
  · rw [drain_of_none hscan] at hvalues hending
    exact ⟨by simpa using hvalues, hending.symm⟩
  · rw [drain_of_error hscan] at hvalues hending
    exact ⟨by simpa using hvalues, hending.symm⟩

/-- A run that refuses a token it looked at, and stops where no rule matches. -/
theorem lookahead_transparent_refusing :
    let token : Item (Token Text) := ⟨.plain "A".toList ⟨"a".toList, 1, [], []⟩, some 1, none⟩
    let operations : List (Operation Unit (Token Text)) :=
      [.peek, .advance, .enqueue (some token) none, .scan,
        .scanWhile fun _ memory => (.ok false, memory), .iterate {}, .scanAll]
    let s₀ : Lexer Unit (Token Text) :=
      start "aaab".toList (.ofSources [("A", "^a")]) .standard .default ()
    let plain := s₀.drain.handed.map (·.value)
    let consumed := (handedAlong s₀ operations).map (·.value)
    let s := run s₀ operations
    Builder.Steady s₀.builder ∧ Along Reads s₀ operations ∧
      consumed ++ s.queue.map (·.item.value) <+: plain ∧
      (∀ s', s.scan = (.ok none, s') → consumed = plain ∧ s₀.drain.ending = .ok ()) ∧
      (∀ f s', s.scan = (.error f, s') → consumed = plain ∧ s₀.drain.ending = .error f) ∧
      consumed ++ s.drain.handed.map (·.value) = plain ∧ s.drain.ending = s₀.drain.ending := by
  intro token operations s₀ plain consumed s
  have hsteady : Builder.Steady s₀.builder := fun _ _ _ _ => rfl
  have hrun : Along Reads s₀ operations :=
    ⟨trivial, trivial, ⟨rfl, ⟨token, ⟨"a".toList, 1, [], []⟩⟩, rfl, rfl⟩, trivial, trivial, trivial,
      trivial, trivial⟩
  exact ⟨hsteady, hrun, lookahead_transparent "aaab".toList _ .standard .default () hsteady
    operations hrun⟩

end Operation

end PullLexer
