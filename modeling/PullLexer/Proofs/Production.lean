import PullLexer.Lexer.Production
import PullLexer.Proofs.Trial

/-!
# What a production does

A production ends in one of a few ways (`ProduceStep`), and what is known of it
is read off these. Making a token touches neither the cursor nor the queue nor
the rules, whatever comes of it (`produce_frame`). A token made has a lexeme at
the head whose text begins the text ahead and is not empty (`produce_some`).
-/

namespace PullLexer.Lexer

variable {ω τ : Type} {s s' s₀ : Lexer ω τ} {e : Entry τ}

-- ---------------------------------------------------------------------------
-- Single productions
-- ---------------------------------------------------------------------------

/-- There is text ahead, and trying the candidates on it comes to this. -/
def Finds (s : Lexer ω τ) (finding : Finding) (verified : Verified) : Prop :=
  ¬ s.exhausted ∧ s.verified.firstFinding s.ahead s.rules.candidates = (finding, verified)

theorem Finds.eq_first {finding : Finding} {verified : Verified} (h : s.Finds finding verified)
    (hs : s.verified.Sound) :
    finding = Finding.first s.ahead s.rules.candidates ∧ verified.Sound := by
  have hfirst := hs.firstFinding s.ahead s.rules.candidates
  rw [h.2] at hfirst
  exact hfirst

theorem Finds.grows {finding : Finding} {verified : Verified} (h : s.Finds finding verified) :
    s.verified.Grows verified := by
  have hgrows := s.verified.grows_firstFinding s.ahead s.rules.candidates
  rwa [h.2] at hgrows

theorem exists_finds (hs : s.verified.Sound) (hne : ¬ s.exhausted) :
    ∃ verified : Verified, s.Finds (Finding.first s.ahead s.rules.candidates) verified ∧
      verified.Sound := by
  rcases hfinding : s.verified.firstFinding s.ahead s.rules.candidates with ⟨finding, verified⟩
  have hfinds : s.Finds finding verified := ⟨hne, hfinding⟩
  obtain ⟨rfl, hsound⟩ := hfinds.eq_first hs
  exact ⟨verified, hfinds, hsound⟩

/-- What decides for a lexer decides for another one whose candidates come to the same. -/
theorem Finds.transfer {t : Lexer ω τ} {finding : Finding} {verified : Verified}
    (h : s.Finds finding verified) (hs : s.verified.Sound) (ht : t.verified.Sound)
    (hend : t.exhausted → s.exhausted)
    (hfirst : Finding.first t.ahead t.rules.candidates =
      Finding.first s.ahead s.rules.candidates) :
    verified.Sound ∧ ∃ verified', t.Finds finding verified' ∧ verified'.Sound := by
  obtain ⟨rfl, hverified⟩ := h.eq_first hs
  rw [← hfirst]
  exact ⟨hverified, exists_finds ht fun hexhausted => h.1 (hend hexhausted)⟩

theorem excerpt_eq_ok {n : Int} (hn : s.settings.excerptLength.int? = some n) :
    s.excerpt = .ok (s.ahead.excerpt n) := by
  simp only [excerpt, Text.excerptBy, hn]

theorem failureAt_eq_diagnostic {n : Int} (hn : s.settings.excerptLength.int? = some n)
    (rule : Text) (complaint : Complaint) :
    s.failureAt rule complaint =
      .diagnostic ⟨complaint, some (.text rule), some (.text (s.ahead.excerpt n))⟩ := by
  simp only [failureAt, excerpt_eq_ok hn]

def journalOfMade (s : Lexer ω τ) (rule : Text) (l : Lexeme) : Journal :=
  if s.settings.trace.truthy then s.journal ++ [.matched rule l.index l.text] else s.journal

inductive ProduceStep (s : Lexer ω τ) : Outcome ω τ (Option (Entry τ)) → Prop
  | exhausted : s.exhausted → ProduceStep s (.ok none, s)
  | unmatched {verified : Verified} {t : Text} : s.Finds .nothing verified → s.excerpt = .ok t →
      ProduceStep s (.ok none, ({ s with verified } : Lexer ω τ).record (.nothingMatched s.head t))
  | unexcerpted {verified : Verified} {f : Failure} : s.Finds .nothing verified →
      s.excerpt = .error f → ProduceStep s (.error f, { s with verified })
  | refused {verified : Verified} {rule : Text} {complaint : Complaint} :
      s.Finds (.refused rule complaint) verified →
      ProduceStep s (.error (s.failureAt rule complaint), { s with verified })
  | raised {verified : Verified} {rule : Text} {m : Pattern.Match} {f : Failure} {memory : ω} :
      s.Finds (.found rule m) verified →
      s.builder.build rule (.ofMatch m s.head) s.memory = (.error f, memory) →
      ProduceStep s (.error f, { s with verified, memory })
  | nothingBuilt {verified : Verified} {rule : Text} {m : Pattern.Match} {memory : ω} :
      s.Finds (.found rule m) verified →
      s.builder.build rule (.ofMatch m s.head) s.memory = (.ok none, memory) →
      ProduceStep s (.error (s.failureAt rule .nothingBuilt), { s with verified, memory })
  | made {verified : Verified} {rule : Text} {m : Pattern.Match} {value : τ} {memory : ω} :
      s.Finds (.found rule m) verified →
      s.builder.build rule (.ofMatch m s.head) s.memory = (.ok (some value), memory) →
      ProduceStep s (.ok (some ⟨⟨value, some s.issued, s.builder.shared value⟩, .ofMatch m s.head⟩),
        { s with
          verified
          memory
          issued := s.issued + 1
          journal := s.journalOfMade rule (.ofMatch m s.head) })

/-- What a production comes to once it is known what the candidates come to. -/
def conclude (s : Lexer ω τ) (verified : Verified) : Finding → Outcome ω τ (Option (Entry τ))
  | .nothing =>
    match s.excerpt with
    | .ok t => (.ok none, ({ s with verified } : Lexer ω τ).record (.nothingMatched s.head t))
    | .error f => (.error f, { s with verified })
  | .refused rule complaint => (.error (s.failureAt rule complaint), { s with verified })
  | .found rule m =>
    match s.builder.build rule (.ofMatch m s.head) s.memory with
    | (.error f, memory) => (.error f, { s with verified, memory })
    | (.ok none, memory) => (.error (s.failureAt rule .nothingBuilt), { s with verified, memory })
    | (.ok (some value), memory) =>
      (.ok (some ⟨⟨value, some s.issued, s.builder.shared value⟩, .ofMatch m s.head⟩),
        { s with
          verified
          memory
          issued := s.issued + 1
          journal := s.journalOfMade rule (.ofMatch m s.head) })

theorem buildAt_verify (s : Lexer ω τ) (verified : Verified) (rule : Text) (m : Pattern.Match) :
    ({ s with verified } : Lexer ω τ).buildAt rule m = s.conclude verified (.found rule m) := by
  unfold conclude journalOfMade
  by_cases htrace : s.settings.trace.truthy
  · simp only [if_pos htrace]
    unfold buildAt
    simp only [if_pos htrace]
    rfl
  · simp only [if_neg htrace]
    unfold buildAt
    simp only [if_neg htrace]
    rfl

theorem produce_of_finds {finding : Finding} {verified : Verified} (h : s.Finds finding verified) :
    s.produce = s.conclude verified finding := by
  rw [produce, if_neg h.1, h.2]
  cases finding with
  | nothing => rfl
  | refused rule complaint => rfl
  | found rule m => exact buildAt_verify s verified rule m

theorem produceStep (s : Lexer ω τ) : ProduceStep s s.produce := by
  by_cases hend : s.exhausted
  · rw [produce, if_pos hend]
    exact .exhausted hend
  · rcases hfinding : s.verified.firstFinding s.ahead s.rules.candidates with ⟨finding, verified⟩
    have hfinds : s.Finds finding verified := ⟨hend, hfinding⟩
    rw [produce_of_finds hfinds]
    cases finding with
    | nothing =>
      dsimp only [conclude]
      split <;> rename_i hexcerpt
      · exact .unmatched hfinds hexcerpt
      · exact .unexcerpted hfinds hexcerpt
    | refused rule complaint => exact .refused hfinds
    | found rule m =>
      dsimp only [conclude]
      split <;> rename_i hbuild
      · exact .raised hfinds hbuild
      · exact .nothingBuilt hfinds hbuild
      · exact .made hfinds hbuild

theorem ProduceStep.produce_eq {outcome : Outcome ω τ (Option (Entry τ))}
    (h : ProduceStep s outcome) : s.produce = outcome := by
  cases h with
  | exhausted hend => rw [produce, if_pos hend]
  | unmatched hfinds hexcerpt => simp only [produce_of_finds hfinds, conclude, hexcerpt]
  | unexcerpted hfinds hexcerpt => simp only [produce_of_finds hfinds, conclude, hexcerpt]
  | refused hfinds => exact produce_of_finds hfinds
  | raised hfinds hbuild => simp only [produce_of_finds hfinds, conclude, hbuild]
  | nothingBuilt hfinds hbuild => simp only [produce_of_finds hfinds, conclude, hbuild]
  | made hfinds hbuild => simp only [produce_of_finds hfinds, conclude, hbuild]

theorem endsIteration_of_excerpt {f : Failure} (h : s.excerpt = .error f) :
    f.endsIteration = false := by
  unfold excerpt Text.excerptBy at h
  split at h
  · cases h
  · split at h
    · cases h
    · obtain rfl := Except.error.inj h
      rfl
  · obtain rfl := Except.error.inj h
    rfl

theorem endsIteration_failureAt (s : Lexer ω τ) (rule : Text) (complaint : Complaint) :
    (s.failureAt rule complaint).endsIteration = false := by
  unfold failureAt
  split
  · rfl
  · rename_i hexcerpt
    exact endsIteration_of_excerpt hexcerpt

/-- Only the builder can say that there is no more. -/
theorem build_of_endsIteration {f : Failure} (h : s.produce = (.error f, s'))
    (hends : f.endsIteration = true) :
    ∃ verified rule m memory, s.Finds (.found rule m) verified ∧
      s.builder.build rule (.ofMatch m s.head) s.memory = (.error f, memory) ∧
      s' = { s with verified, memory } := by
  have step := h ▸ produceStep s
  cases step with
  | unexcerpted _ hexcerpt =>
    rw [endsIteration_of_excerpt hexcerpt] at hends
    cases hends
  | refused | nothingBuilt =>
    rw [endsIteration_failureAt] at hends
    cases hends
  | raised hfinds hbuild => exact ⟨_, _, _, _, hfinds, hbuild, rfl⟩

-- ---------------------------------------------------------------------------
-- The frame
-- ---------------------------------------------------------------------------

/-- A production leaves a state that differs in what was remembered, built and written down
only; checks alone change what is known of patterns. -/
theorem produce_frame {made : Except Failure (Option (Entry τ))} (h : s.produce = (made, s')) :
    ∃ verified memory issued journal, s' = { s with verified, memory, issued, journal } ∧
      s.verified.Grows verified := by
  have step := h ▸ produceStep s
  cases step with
  | exhausted => exact ⟨_, _, _, _, rfl, .refl _⟩
  | unmatched hfinds => exact ⟨_, _, _, _, rfl, hfinds.grows⟩
  | unexcerpted hfinds => exact ⟨_, _, _, _, rfl, hfinds.grows⟩
  | refused hfinds => exact ⟨_, _, _, _, rfl, hfinds.grows⟩
  | raised hfinds => exact ⟨_, _, _, _, rfl, hfinds.grows⟩
  | nothingBuilt hfinds => exact ⟨_, _, _, _, rfl, hfinds.grows⟩
  | made hfinds => exact ⟨_, _, _, _, rfl, hfinds.grows⟩

/-- The rules, the builder and the settings are the same still, and the patterns remembered are
anchored. -/
def Kindred (s₀ s : Lexer ω τ) : Prop :=
  s.rules = s₀.rules ∧ s.builder = s₀.builder ∧ s.settings = s₀.settings ∧ s.verified.Sound

theorem Kindred.produce {made : Except Failure (Option (Entry τ))} (h : Kindred s₀ s)
    (hp : s.produce = (made, s')) : Kindred s₀ s' := by
  obtain ⟨hrules, hbuilder, hsettings, hsound⟩ := h
  obtain ⟨verified, memory, issued, journal, rfl, hverified⟩ := produce_frame hp
  exact ⟨hrules, hbuilder, hsettings, hverified.sound hsound⟩

-- ---------------------------------------------------------------------------
-- What a production reads
-- ---------------------------------------------------------------------------

/-- The lexer with the cursor, the queue and the rules of another. -/
def movedTo (s t : Lexer ω τ) : Lexer ω τ :=
  { s with
    remaining := t.remaining
    position := t.position
    consumed := t.consumed
    queue := t.queue
    rules := t.rules
    advanced := t.advanced }

/-- The next token is looked for in the same place of the same text, and trying the candidates on it
comes to the same. -/
structure SameProspect (s t : Lexer ω τ) : Prop where
  head_eq : t.head = s.head
  ahead_eq : t.ahead = s.ahead
  exhausted_iff : t.exhausted ↔ s.exhausted
  finding_eq : s.verified.firstFinding s.ahead t.rules.candidates =
    s.verified.firstFinding s.ahead s.rules.candidates

namespace SameProspect

variable {t : Lexer ω τ}

theorem finds {finding : Finding} {verified : Verified} (h : SameProspect s t)
    (hfinds : s.Finds finding verified) : (s.movedTo t).Finds finding verified := by
  refine ⟨fun hend => hfinds.1 (h.exhausted_iff.mp hend), ?_⟩
  show s.verified.firstFinding t.ahead t.rules.candidates = _
  rw [h.ahead_eq, h.finding_eq]
  exact hfinds.2

theorem excerpt_eq (h : SameProspect s t) : (s.movedTo t).excerpt = s.excerpt := by
  show t.ahead.excerptBy _ = s.ahead.excerptBy _
  rw [h.ahead_eq]
  rfl

theorem failureAt_eq (h : SameProspect s t) (rule : Text) (complaint : Complaint) :
    (s.movedTo t).failureAt rule complaint = s.failureAt rule complaint := by
  simp only [failureAt, h.excerpt_eq]

/-- A production reads of the cursor, the queue and the rules no more than what lies ahead, and
leaves them alone. -/
theorem produce_eq (h : SameProspect s t) :
    (s.movedTo t).produce = (s.produce.1, s.produce.2.movedTo t) := by
  have hhead : (s.movedTo t).head = s.head := h.head_eq
  have step := produceStep s
  generalize s.produce = outcome at step ⊢
  cases step with
  | exhausted hend =>
    have hend' : (s.movedTo t).exhausted := h.exhausted_iff.mpr hend
    exact (ProduceStep.exhausted hend').produce_eq
  | unmatched hfinds hexcerpt =>
    rw [(ProduceStep.unmatched (h.finds hfinds) (h.excerpt_eq.trans hexcerpt)).produce_eq, hhead]
    rfl
  | unexcerpted hfinds hexcerpt =>
    exact (ProduceStep.unexcerpted (h.finds hfinds) (h.excerpt_eq.trans hexcerpt)).produce_eq
  | refused hfinds =>
    rw [(ProduceStep.refused (h.finds hfinds)).produce_eq, h.failureAt_eq]
    rfl
  | raised hfinds hbuild =>
    rw [← hhead] at hbuild
    exact (ProduceStep.raised (h.finds hfinds) hbuild).produce_eq
  | nothingBuilt hfinds hbuild =>
    rw [← hhead] at hbuild
    rw [(ProduceStep.nothingBuilt (h.finds hfinds) hbuild).produce_eq, h.failureAt_eq]
    rfl
  | made hfinds hbuild =>
    rw [← hhead] at hbuild
    rw [(ProduceStep.made (h.finds hfinds) hbuild).produce_eq, hhead]
    rfl

end SameProspect

-- ---------------------------------------------------------------------------
-- A token made
-- ---------------------------------------------------------------------------

/-- A token made comes from the first candidate that matches the text ahead, and the builder made
it of the rule and the lexeme at the head. -/
theorem produce_some (h : s.produce = (.ok (some e), s')) :
    ¬ s.exhausted ∧ e.item.serial = some s.issued ∧ ∃ rule m verified,
      s.verified.firstFinding s.ahead s.rules.candidates = (.found rule m, verified) ∧
      e.lexeme = .ofMatch m s.head ∧
      (s.builder.build rule e.lexeme s.memory).1 = .ok (some e.item.value) := by
  have step := h ▸ produceStep s
  cases step with
  | made hfinds hbuild => exact ⟨hfinds.1, rfl, _, _, _, hfinds.2, rfl, by rw [hbuild]⟩

theorem produce_none (h : s.produce = (.ok none, s')) :
    s.exhausted ∨ (s.verified.firstFinding s.ahead s.rules.candidates).1 = .nothing := by
  have step := h ▸ produceStep s
  cases step with
  | exhausted hend => exact .inl hend
  | unmatched hfinds => exact .inr (by rw [hfinds.2])

theorem produce_none_frame (h : s.produce = (.ok none, s')) :
    ∃ verified journal, s' = { s with verified, journal } ∧ s.verified.Grows verified := by
  have step := h ▸ produceStep s
  cases step with
  | exhausted => exact ⟨_, _, rfl, .refl _⟩
  | unmatched hfinds => exact ⟨_, _, rfl, hfinds.grows⟩

theorem produce_none_again (hs : s.verified.Sound) (h : s.produce = (.ok none, s'))
    (advanced : Option (Entry τ)) (memory : ω) :
    ∃ verified journal, ({ s' with advanced, memory } : Lexer ω τ).produce =
      (.ok none, { s with verified, journal, advanced, memory }) := by
  have step := h ▸ produceStep s
  cases step with
  | exhausted hend =>
    have hagain : ({ s with advanced, memory } : Lexer ω τ).exhausted := hend
    exact ⟨_, _, (ProduceStep.exhausted hagain).produce_eq⟩
  | @unmatched verified t hfinds hexcerpt =>
    let again : Lexer ω τ :=
      { ({ s with verified } : Lexer ω τ).record (.nothingMatched s.head t) with advanced, memory }
    have hagain : again.verified.Sound := (hfinds.eq_first hs).2
    obtain ⟨-, _, hfinds', -⟩ := hfinds.transfer hs hagain id rfl
    exact ⟨_, _, (ProduceStep.unmatched hfinds' hexcerpt).produce_eq⟩

theorem lexeme_produce (h : s.produce = (.ok (some e), s')) :
    e.lexeme.index = s.head ∧ e.lexeme.text <+: s.ahead ∧ e.lexeme.text ≠ [] := by
  obtain ⟨-, -, rule, m, verified, hfinding, hlexeme, -⟩ := produce_some h
  obtain ⟨htext, hne, hstart⟩ := Verified.text_firstFinding hfinding
  rw [hlexeme]
  exact ⟨by simp [Lexeme.ofMatch, hstart], htext, hne⟩

end PullLexer.Lexer
