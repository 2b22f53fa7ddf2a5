import PullLexer.Proofs.Alignment
import PullLexer.Proofs.Succession

/-!
# Earlier rules come first

Candidates behind others are tried only where none of these matches or is
refused (`Finding.first_append`). A lexer with more rules behind the ones of
another makes the same tokens, of the same calls to the builder, and fails in
the same way, as long as the other decides (`Widened`).
-/

namespace PullLexer

theorem Finding.first_append (t : Text) (candidates more : List (Text × Pattern)) :
    first t (candidates ++ more) =
      match first t candidates with
      | .nothing => first t more
      | finding => finding := by
  induction candidates with
  | nil => rfl
  | cons candidate rest ih =>
    obtain ⟨rule, p⟩ := candidate
    cases htrial : p.trial t with
    | missed => simp only [List.cons_append, first, htrial, ih]
    | refused complaint => simp only [List.cons_append, first, htrial]
    | matched m => simp only [List.cons_append, first, htrial]

theorem Rule.place_of_not_mem {r : Rule} {rules : List Rule} (h : r.name ∉ rules.map name) :
    r.place rules = rules ++ [r] := by
  induction rules with
  | nil => rfl
  | cons other rest ih =>
    rw [List.map_cons, List.mem_cons, not_or] at h
    rw [place, if_neg fun heq => h.1 heq.symm, ih h.2, List.cons_append]

theorem RuleTable.candidates_insert {table : RuleTable} {r : Rule} (h : r.name ∉ table.names) :
    (table.insert r).candidates = table.candidates ++ r.patterns.map (r.name, ·) := by
  simp only [candidates, insert, Rule.place_of_not_mem h, List.flatMap_append, List.flatMap_cons,
    List.flatMap_nil, List.append_nil]

namespace Lexer

variable {ω τ : Type} {s s' t t' : Lexer ω τ} {e : Entry τ} {f : Failure} {item : Item τ}
  {items : List (Item τ)}

-- ---------------------------------------------------------------------------
-- Two lexers in step
-- ---------------------------------------------------------------------------

/-- The second lexer is the first with more candidates behind its own. What either of them
remembers of patterns and wrote down may differ. -/
def Widened (s s' : Lexer ω τ) : Prop :=
  ∃ rules verified journal, s' = { s with rules, verified, journal } ∧
    s.rules.candidates <+: rules.candidates ∧ s.verified.Sound ∧ verified.Sound

namespace Widened

theorem exhausted (h : Widened s s') (hend : s.exhausted) : s'.exhausted := by
  obtain ⟨rules, remembered, journal, rfl, -, -, -⟩ := h
  exact hend

theorem finds {finding : Finding} {verified : Verified} (h : Widened s s')
    (hfinds : s.Finds finding verified) (hne : finding ≠ .nothing) :
    verified.Sound ∧ ∃ verified', s'.Finds finding verified' ∧ verified'.Sound := by
  obtain ⟨rules, remembered, journal, rfl, ⟨more, hmore⟩, hsound, hsound'⟩ := h
  have hfirst : Finding.first s.ahead rules.candidates =
      Finding.first s.ahead s.rules.candidates := by
    rw [(hfinds.eq_first hsound).1] at hne
    rw [← hmore, Finding.first_append]
    split
    · contradiction
    · rfl
  exact hfinds.transfer (t := { s with rules, verified := remembered, journal }) hsound hsound' id
    hfirst

theorem produce_some (h : Widened s s') (hp : s.produce = (.ok (some e), t)) :
    ∃ t', s'.produce = (.ok (some e), t') ∧ Widened t t' := by
  have step := hp ▸ produceStep s
  cases step with
  | made hfinds hbuild =>
    obtain ⟨hsound, verified', hfinds', hsound'⟩ := h.finds hfinds nofun
    obtain ⟨rules, remembered, journal, rfl, hmore, -, -⟩ := h
    exact ⟨_, (ProduceStep.made hfinds' hbuild).produce_eq,
      ⟨rules, verified', _, rfl, hmore, hsound, hsound'⟩⟩

theorem produce_error (h : Widened s s') (hexcerpt : s.excerpt.isOk)
    (hp : s.produce = (.error f, t)) : ∃ t', s'.produce = (.error f, t') := by
  have step := hp ▸ produceStep s
  cases step with
  | unexcerpted hfinds hexcerpt' =>
    -- nothing was found, which the second lexer need not agree to
    rw [hexcerpt'] at hexcerpt
    cases hexcerpt
  | refused hfinds =>
    obtain ⟨-, verified', hfinds', -⟩ := h.finds hfinds nofun
    obtain ⟨rules, remembered, journal, rfl, -, -, -⟩ := h
    exact ⟨_, (ProduceStep.refused hfinds').produce_eq⟩
  | raised hfinds hbuild =>
    obtain ⟨-, verified', hfinds', -⟩ := h.finds hfinds nofun
    obtain ⟨rules, remembered, journal, rfl, -, -, -⟩ := h
    exact ⟨_, (ProduceStep.raised hfinds' hbuild).produce_eq⟩
  | nothingBuilt hfinds hbuild =>
    obtain ⟨-, verified', hfinds', -⟩ := h.finds hfinds nofun
    obtain ⟨rules, remembered, journal, rfl, -, -, -⟩ := h
    exact ⟨_, (ProduceStep.nothingBuilt hfinds' hbuild).produce_eq⟩

theorem sound (h : Widened s s') : s.verified.Sound := by
  obtain ⟨-, -, -, -, -, hsound, -⟩ := h
  exact hsound

theorem queue_eq (h : Widened s s') : s'.queue = s.queue := by
  obtain ⟨rules, remembered, journal, rfl, -, -, -⟩ := h
  rfl

theorem pass (h : Widened s s') (e : Entry τ) : Widened (s.pass e) (s'.pass e) := by
  obtain ⟨rules, remembered, journal, rfl, hmore, hsound, hsound'⟩ := h
  exact ⟨rules, remembered, journal, rfl, hmore, hsound, hsound'⟩

theorem pop (h : Widened s s') (rest : List (Entry τ)) :
    Widened { s with queue := rest, advanced := none }
      { s' with queue := rest, advanced := none } := by
  obtain ⟨rules, remembered, journal, rfl, hmore, hsound, hsound'⟩ := h
  exact ⟨rules, remembered, journal, rfl, hmore, hsound, hsound'⟩

theorem scan (h : Widened s s') (hscan : s.scan = (.ok (some item), t)) :
    ∃ t', s'.scan = (.ok (some item), t') ∧ Widened t t' := by
  have step := hscan ▸ scanStep s
  cases step with
  | @served e rest hq =>
    exact ⟨_, (ScanStep.served (h.queue_eq.trans hq)).scan_eq, (h.pop rest).pass e⟩
  | @made e u hq hp =>
    obtain ⟨u', hp', hu⟩ := h.produce_some hp
    exact ⟨_, (ScanStep.made (h.queue_eq.trans hq) hp').scan_eq, hu.pass e⟩

theorem hands (h : Widened s s') (hands : Hands s items t) :
    ∃ t', Hands s' items t' ∧ Widened t t' := by
  induction hands generalizing s' with
  | nil => exact ⟨s', .nil, h⟩
  | cons hscan _ ih =>
    obtain ⟨u', hscan', hu⟩ := h.scan hscan
    obtain ⟨t', hands', ht⟩ := ih hu
    exact ⟨t', .cons hscan' hands', ht⟩

end Widened

-- ---------------------------------------------------------------------------
-- Whole inputs
-- ---------------------------------------------------------------------------

/-- What a lexer comes to that is drained, in comparison with one that has more rules behind. -/
theorem Widened.drain (h : Widened s s') :
    s.drain.handed <+: s'.drain.handed ∧
      ((∀ t : Text, (t.excerptBy s.settings.excerptLength).isOk) → ∀ f,
        s.drain.ending = .error f →
          s'.drain.handed = s.drain.handed ∧ s'.drain.ending = .error f) ∧
      (s.drain.ending = .ok () → s.drain.state.atEnd →
        s'.drain.handed = s.drain.handed ∧ s'.drain.ending = .ok ()) := by
  obtain ⟨t, hands, hlast⟩ := drain_hands s
  obtain ⟨t', hands', ht⟩ := h.hands hands
  rw [hands'.drain_eq]
  refine ⟨List.prefix_append _ _, fun hexcerpt f hf => ?_, fun hok hend => ?_⟩
  · rw [hf] at hlast
    obtain ⟨hq, hp⟩ := @produce_of_scan _ _ t _ (.error f) hlast
    have hkindred : Kindred s t :=
      @Sustained.hands _ _ _ _ _ [] _ (Kindred.sustained s) ⟨rfl, rfl, rfl, h.sound⟩ hands
    have hexcerpt' : t.excerpt.isOk := by
      rw [excerpt, hkindred.2.2.1]
      exact hexcerpt _
    obtain ⟨u', hp'⟩ := ht.produce_error hexcerpt' hp
    rw [drain_of_error (ScanStep.failed (ht.queue_eq.trans hq) hp').scan_eq]
    exact ⟨List.append_nil _, rfl⟩
  · rw [hok] at hlast
    obtain ⟨hq, hp⟩ := @produce_of_scan _ _ t _ (.ok ()) hlast
    have hremaining : s.drain.state.remaining = t.remaining := by
      obtain ⟨_, _, _, _, hframe, -⟩ := produce_frame hp
      rw [hframe]
    have hexhausted : t.exhausted := by
      rw [atEnd, hremaining, Bool.and_eq_true] at hend
      rw [Lexer.exhausted, headOffset_of_queue_nil hq, List.isEmpty_iff.mp hend.1]
      exact Int.le_refl _
    have hp' := (ProduceStep.exhausted (ht.exhausted hexhausted)).produce_eq
    rw [drain_of_none (ScanStep.ended (ht.queue_eq.trans hq) hp').scan_eq]
    exact ⟨List.append_nil _, rfl⟩

/-- A rule registered behind the others changes nothing of what they decide: the tokens without it
begin the tokens with it, and where these rules end in a failure or at the end of the input, both
come to the same. An excerpt can be taken of every text if its length is an integer; otherwise where
no rule matches is a failure too, which a rule behind the others may prevent. -/
theorem later_rule_defers (input : Text) (rules : RuleTable) (r : Rule)
    (hnew : r.name ∉ rules.names) (builder : Builder ω τ) (settings : Settings ω τ) (memory : ω) :
    let plain := (start input rules builder settings memory).drain
    let wider := (start input (rules.insert r) builder settings memory).drain
    plain.handed <+: wider.handed ∧
      ((∀ t : Text, (t.excerptBy settings.excerptLength).isOk) → ∀ f,
        plain.ending = .error f → wider.handed = plain.handed ∧ wider.ending = .error f) ∧
      (plain.ending = .ok () → plain.state.atEnd →
        wider.handed = plain.handed ∧ wider.ending = .ok ()) := by
  intro plain wider
  have hmore : rules.candidates <+: (rules.insert r).candidates :=
    ⟨_, (RuleTable.candidates_insert hnew).symm⟩
  have hwidened : Widened (start input rules builder settings memory)
      (start input (rules.insert r) builder settings memory) :=
    ⟨rules.insert r, [], [], rfl, hmore, Verified.sound_nil, Verified.sound_nil⟩
  exact hwidened.drain

/-- Two rules that take the whole input, and one behind them that matches the empty text; and a rule
that matches the empty text before another that would match where it is refused. -/
theorem later_rule_defers_shadowed :
    let r : Rule := (RuleTable.ofSources [("blank", "^ *")]).rules.headD ⟨[], []⟩
    let settings : Settings Unit (Token Text) := .default
    let drained (rules : RuleTable) := (start "ab c".toList rules .standard settings ()).drain
    let taking : RuleTable := .ofSources [("word", "^\\w+"), ("space", "^ ")]
    let refused : RuleTable := .ofSources [("word", "^\\w+"), ("edge", "^(?= )")]
    r.name ∉ taking.names ∧ r.name ∉ refused.names ∧ (drained taking).state.atEnd ∧
      (drained (taking.insert r)).handed = (drained taking).handed ∧
      (drained (taking.insert r)).ending = .ok () ∧
      ∃ f, (drained refused).ending = .error f ∧
        (drained (refused.insert r)).handed = (drained refused).handed ∧
        (drained (refused.insert r)).ending = .error f := by
  intro r settings drained taking refused
  have htaking : r.name ∉ taking.names := by decide +kernel
  have hrefused : r.name ∉ refused.names := by decide +kernel
  have hend : (drained taking).state.atEnd := by decide +kernel
  have hexcerpt : ∀ t : Text, (t.excerptBy settings.excerptLength).isOk := fun _ => rfl
  have hok : (drained taking).ending = .ok () := by
    have h : (drained taking).ending.isOk := by decide +kernel
    cases hending : (drained taking).ending with
    | ok _ => rfl
    | error f => rw [hending] at h; cases h
  obtain ⟨f, hf⟩ : ∃ f, (drained refused).ending = .error f := by
    have h : (drained refused).ending.isOk = false := by decide +kernel
    cases hending : (drained refused).ending with
    | ok _ => rw [hending] at h; cases h
    | error f => exact ⟨f, rfl⟩
  obtain ⟨-, -, htaken⟩ := later_rule_defers "ab c".toList taking r htaking .standard settings ()
  obtain ⟨-, hfailed, -⟩ := later_rule_defers "ab c".toList refused r hrefused .standard settings ()
  obtain ⟨hhanded, hending⟩ := htaken hok hend
  exact ⟨htaking, hrefused, hend, hhanded, hending, f, hf, hfailed hexcerpt f hf⟩

end Lexer

end PullLexer
