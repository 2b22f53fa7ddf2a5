import PullLexer.Proofs.Failing
import PullLexer.Proofs.Precedence
import PullLexer.Proofs.Reentry

/-!
# What an advance comes to

A pattern decides on a text if it is not anchored or matches there. The first
candidate that decides on the text ahead settles the outcome of an advance
(`Lexer.Settled`), whichever candidates stand behind it, and without one there
is no token. Cursor and queue stay in every case.
-/

namespace PullLexer

-- ---------------------------------------------------------------------------
-- The first candidate to decide
-- ---------------------------------------------------------------------------

section

variable {t : Text} {candidates : List (Text × Pattern)} {i : Nat} {rule : Text} {p : Pattern}
  {m : Pattern.Match}

def Pattern.Decides (p : Pattern) (t : Text) : Prop :=
  p.isAnchored = false ∨ (p.matchStart? t).isSome

instance (p : Pattern) (t : Text) : Decidable (p.Decides t) :=
  inferInstanceAs (Decidable (_ ∨ _))

/-- The candidate in this place decides on the text, and none before it does. -/
structure FirstToDecide (t : Text) (candidates : List (Text × Pattern)) (i : Nat) (rule : Text)
    (p : Pattern) : Prop where
  getElem?_eq : candidates[i]? = some (rule, p)
  decides : p.Decides t
  earlier : ∀ c ∈ candidates.take i, ¬ c.2.Decides t

namespace Pattern

theorem trial_of_not_isAnchored (h : p.isAnchored = false) :
    p.trial t = .refused (.notAnchored p.source) := by
  simp only [trial, h, Bool.false_eq_true, if_false]

theorem trial_of_matchStart (ha : p.isAnchored) (hm : p.matchStart? t = some m) :
    p.trial t = if m.text = [] then .refused (.emptyMatch p.source) else .matched m := by
  simp only [trial, if_pos ha, Pattern.take, hm, List.isEmpty_iff]

theorem trial_eq_missed_iff : p.trial t = .missed ↔ ¬ p.Decides t := by
  cases ha : p.isAnchored with
  | false => simp [trial_of_not_isAnchored ha, Decides, ha]
  | true =>
    cases hm : p.matchStart? t with
    | none => simp [trial, Pattern.take, Decides, ha, hm]
    | some m =>
      rw [trial_of_matchStart ha hm]
      simp only [Decides, hm, Option.isSome_some, or_true, not_true_eq_false, iff_false]
      split <;> nofun

end Pattern

theorem Finding.first_singleton_ne_nothing (h : p.Decides t) :
    Finding.first t [(rule, p)] ≠ .nothing := by
  rw [Ne, Finding.first_eq_nothing_iff, List.forall_mem_singleton, Pattern.trial_eq_missed_iff]
  exact not_not_intro h

theorem Finding.first_singleton_append (h : p.Decides t) (rest : List (Text × Pattern)) :
    Finding.first t ((rule, p) :: rest) = Finding.first t [(rule, p)] := by
  have hne : first t [(rule, p)] ≠ .nothing := first_singleton_ne_nothing h
  rw [← List.singleton_append, Finding.first_append]
  split
  · contradiction
  · rfl

/-- The memory of anchored patterns too comes from the candidates up to the one that decides. -/
theorem Verified.firstFinding_append {verified verified' : Verified} {finding : Finding}
    (h : verified.firstFinding t candidates = (finding, verified')) (hne : finding ≠ .nothing)
    (more : List (Text × Pattern)) :
    verified.firstFinding t (candidates ++ more) = (finding, verified') := by
  induction candidates generalizing verified with
  | nil =>
    cases h
    contradiction
  | cons candidate rest ih =>
    simp only [List.cons_append, firstFinding] at h ⊢
    split at h
    · exact ih h
    · exact h
    · exact h

namespace FirstToDecide

variable (h : FirstToDecide t candidates i rule p)

include h

theorem take_succ_eq : candidates.take (i + 1) = candidates.take i ++ [(rule, p)] := by
  rw [List.take_add_one, h.getElem?_eq]
  rfl

theorem first_take_eq : Finding.first t (candidates.take i) = .nothing :=
  Finding.first_eq_nothing_iff.mpr fun c hc => Pattern.trial_eq_missed_iff.mpr (h.earlier c hc)

theorem first_eq : Finding.first t candidates = Finding.first t [(rule, p)] := by
  rw [← List.take_append_drop (i + 1) candidates, h.take_succ_eq, List.append_assoc,
    Finding.first_append, h.first_take_eq]
  exact Finding.first_singleton_append h.decides _

theorem firstFinding_eq {verified : Verified} {others : List (Text × Pattern)}
    (hsound : verified.Sound) (hothers : others.take (i + 1) = candidates.take (i + 1)) :
    verified.firstFinding t others = verified.firstFinding t candidates := by
  have hne : (verified.firstFinding t (candidates.take (i + 1))).1 ≠ .nothing := by
    rw [(hsound.firstFinding t _).1, h.take_succ_eq, Finding.first_append, h.first_take_eq]
    exact Finding.first_singleton_ne_nothing h.decides
  rw [← List.take_append_drop (i + 1) others, ← List.take_append_drop (i + 1) candidates, hothers,
    Verified.firstFinding_append rfl hne, Verified.firstFinding_append rfl hne]

end FirstToDecide

end

-- ---------------------------------------------------------------------------
-- What it settles
-- ---------------------------------------------------------------------------

/-- A complaint about a rule, with the text that it was tried on. -/
def Failure.located (rule excerpt : Text) (complaint : Complaint) : Failure :=
  .diagnostic ⟨complaint, some (.text rule), some (.text excerpt)⟩

namespace Lexer

variable {ω τ : Type} {s s' : Lexer ω τ} {n : Int} {i : Nat} {rule : Text} {p : Pattern}

/-- What an advance comes to where this candidate is the first to decide on the text ahead. The
memory tells of each call of the builder. -/
structure Settled (s : Lexer ω τ) (width : Nat) (t : Text) (i : Nat) (rule : Text) (p : Pattern) :
    Prop where
  unanchored : p.isAnchored = false →
    s.advance.1 = .error (.located rule (t.take width) (.notAnchored p.source)) ∧
      s.advance.2.memory = s.memory
  emptyMatch {m : Pattern.Match} : p.isAnchored → p.matchStart? t = some m → m.text = [] →
    s.advance.1 = .error (.located rule (t.take width) (.emptyMatch p.source)) ∧
      s.advance.2.memory = s.memory
  built {m : Pattern.Match} {made : Except Failure (Option τ)} {memory : ω} :
    p.isAnchored → p.matchStart? t = some m → m.text ≠ [] →
    s.builder.build rule ⟨t.take m.text.length, s.position + s.headOffset, m.groups, m.named⟩
      s.memory = (made, memory) →
    s.advance.2.memory = memory ∧
      s.advance.1 =
        match made with
        | .error f => .error f
        | .ok none => .error (.located rule (t.take width) .nothingBuilt)
        | .ok (some value) => .ok (some ⟨value, some s.issued, s.builder.shared value⟩)
  shadows {table : RuleTable} :
    table.candidates.take (i + 1) = s.rules.candidates.take (i + 1) →
    ({ s with rules := table } : Lexer ω τ).advance =
      (s.advance.1, { s.advance.2 with rules := table })

theorem advance_of_ok {made : Option (Entry τ)} (hp : s.produce = (.ok made, s')) :
    s.advance = (.ok (made.map (·.item)), { s' with advanced := made }) := by
  simp only [advance, hp]

theorem advance_of_error {f : Failure} (hp : s.produce = (.error f, s')) :
    s.advance = (.error f, s') := by
  simp only [advance, hp]

theorem sameCursor_advance (s : Lexer ω τ) :
    SameCursor s s.advance.2 ∧ s.advance.2.queue = s.queue := by
  rcases advance_cases s with ⟨made, t, hp, hadvance⟩ | ⟨f, t, hp, hadvance⟩ <;> rw [hadvance]
  · have hframe := intact_produce hp
    exact ⟨⟨hframe.position_eq, hframe.consumed_eq, hframe.remaining_eq⟩, hframe.queue_eq⟩
  · have hframe := intact_produce hp
    exact ⟨hframe.toSameCursor, hframe.queue_eq⟩

theorem advance_with_rules {table : RuleTable}
    (h : s.verified.firstFinding s.ahead table.candidates =
      s.verified.firstFinding s.ahead s.rules.candidates) :
    ({ s with rules := table } : Lexer ω τ).advance =
      (s.advance.1, { s.advance.2 with rules := table }) := by
  have hprospect : SameProspect s { s with rules := table } := ⟨rfl, rfl, Iff.rfl, h⟩
  have hp := hprospect.produce_eq
  change ({ s with rules := table } : Lexer ω τ).produce = _ at hp
  rcases hproduced : s.produce with ⟨⟨f⟩ | ⟨made⟩, t⟩ <;> rw [hproduced] at hp <;>
    obtain ⟨_, _, _, _, rfl, -⟩ := produce_frame hproduced
  · rw [advance_of_error hproduced, advance_of_error hp]
    rfl
  · rw [advance_of_ok hproduced, advance_of_ok hp]
    rfl

section

variable (hhead : 0 ≤ s.headOffset)

include hhead

theorem ahead_eq_drop : s.ahead = s.remaining.drop s.headOffset.toNat := by
  rw [ahead, Text.after, if_pos hhead]

theorem exhausted_iff_drop : s.exhausted ↔ s.remaining.drop s.headOffset.toNat = [] := by
  rw [exhausted, List.drop_eq_nil_iff]
  omega

theorem settled {t : Text} (ht : s.remaining.drop s.headOffset.toNat = t)
    (hn : s.settings.excerptLength.int? = some n) (hsound : s.verified.Sound) (hne : t ≠ [])
    (hfirst : FirstToDecide t s.rules.candidates i rule p) : s.Settled n.toNat t i rule p := by
  have hahead : s.ahead = t := (ahead_eq_drop hhead).trans ht
  have hfailure (complaint : Complaint) :
      s.failureAt rule complaint = .located rule (t.take n.toNat) complaint := by
    rw [failureAt_eq_diagnostic hn, hahead]
    rfl
  obtain ⟨verified, hfinds, -⟩ :=
    exists_finds hsound fun hend => hne (ht ▸ (exhausted_iff_drop hhead).mp hend)
  rw [hahead, hfirst.first_eq] at hfinds
  refine ⟨fun ha => ?_, fun {m} ha hm hnil => ?_, fun {m made memory} ha hm hnil hbuild => ?_,
    fun {table} htable => ?_⟩
  · simp only [Finding.first, Pattern.trial_of_not_isAnchored ha] at hfinds
    rw [advance_of_error (ProduceStep.refused hfinds).produce_eq, hfailure]
    exact ⟨rfl, rfl⟩
  · simp only [Finding.first, Pattern.trial_of_matchStart ha hm, if_pos hnil] at hfinds
    rw [advance_of_error (ProduceStep.refused hfinds).produce_eq, hfailure]
    exact ⟨rfl, rfl⟩
  · simp only [Finding.first, Pattern.trial_of_matchStart ha hm, if_neg hnil] at hfinds
    have hlexeme : Lexeme.ofMatch m s.head =
        ⟨t.take m.text.length, s.position + s.headOffset, m.groups, m.named⟩ := by
      rw [← Pattern.text_matchStart hm, Lexeme.ofMatch, Pattern.start_matchStart hm, head]
      simp
    rw [← hlexeme] at hbuild
    cases made with
    | error f =>
      rw [advance_of_error (ProduceStep.raised hfinds hbuild).produce_eq]
      exact ⟨rfl, rfl⟩
    | ok made =>
      cases made with
      | none =>
        rw [advance_of_error (ProduceStep.nothingBuilt hfinds hbuild).produce_eq, hfailure]
        exact ⟨rfl, rfl⟩
      | some value =>
        rw [advance_of_ok (ProduceStep.made hfinds hbuild).produce_eq]
        exact ⟨rfl, rfl⟩
  · refine advance_with_rules ?_
    rw [hahead]
    exact hfirst.firstFinding_eq hsound htable

end

end Lexer

namespace Operation

open Lexer

variable {ω τ : Type} [TokenLike τ] {s : Lexer ω τ} {n : Int}

/-- Whatever client code did before, an advance whose head is not before the cursor looks at no
candidate where the text is exhausted; otherwise the first candidate that decides on the text ahead
settles what it comes to. -/
theorem advance_settled (input : Text) (rules : RuleTable) (builder : Builder ω τ)
    (settings : Settings ω τ) (memory : ω) (hn : settings.excerptLength.int? = some n)
    (hmet : Meets (fun _ _ => True) (start input rules builder settings memory) s)
    (hhead : 0 ≤ s.headOffset) :
    let t := s.remaining.drop s.headOffset.toNat
    SameCursor s s.advance.2 ∧ s.advance.2.queue = s.queue ∧
      (t = [] → s.advance = (.ok none, { s with advanced := none })) ∧
      (t ≠ [] → (∀ c ∈ s.rules.candidates, ¬ c.2.Decides t) →
        s.advance.1 = .ok none ∧ s.advance.2.memory = s.memory) ∧
      ∀ i rule p, t ≠ [] → FirstToDecide t s.rules.candidates i rule p →
        s.Settled n.toNat t i rule p := by
  intro t
  obtain ⟨-, hsettings, hsound⟩ : Equipped builder settings s :=
    hmet.equipped ⟨rfl, rfl, Verified.sound_nil⟩
  rw [← hsettings] at hn
  obtain ⟨hcursor, hqueue⟩ := sameCursor_advance s
  refine ⟨hcursor, hqueue, fun hnil => ?_, fun hne hnone => ?_, fun i rule p hne hfirst => ?_⟩
  · exact advance_of_ok (ProduceStep.exhausted ((exhausted_iff_drop hhead).mpr hnil)).produce_eq
  · obtain ⟨verified, hfinds, -⟩ :=
      exists_finds hsound fun hend => hne ((exhausted_iff_drop hhead).mp hend)
    rw [ahead_eq_drop hhead, Finding.first_eq_nothing_iff.mpr fun c hc =>
      Pattern.trial_eq_missed_iff.mpr (hnone c hc)] at hfinds
    rw [advance_of_ok (ProduceStep.unmatched hfinds (excerpt_eq_ok hn)).produce_eq]
    exact ⟨rfl, rfl⟩
  · exact settled hhead rfl hn hsound hne hfirst

/-- A token is queued; of the rules, the first does not match behind it, the second does, and the
third is not anchored. -/
theorem advance_settled_behind_queue :
    let rules : RuleTable := .ofSources [("space", "^ "), ("letter", "^[a-z]"), ("mark", "!")]
    let settings : Settings Unit (Token Text) := .default
    let s₀ : Lexer Unit (Token Text) := start "ab!".toList rules .standard settings ()
    let s := run s₀ [.peek]
    let t := s.remaining.drop s.headOffset.toNat
    settings.excerptLength.int? = some 20 ∧ Meets (fun _ _ => True) s₀ s ∧ 0 ≤ s.headOffset ∧
      t = "b!".toList ∧ ∃ p, FirstToDecide t s.rules.candidates 1 "letter".toList p ∧
        p.isAnchored ∧ s.Settled 20 t 1 "letter".toList p := by
  intro rules settings s₀ s t
  have hhead : 0 ≤ s.headOffset := by decide +kernel
  have hmet : Meets (fun _ _ => True) s₀ s :=
    .between (Works.idle.of_along ⟨⟨trivial, trivial⟩, trivial⟩)
  have ht : t = "b!".toList := by decide +kernel
  have hcandidate : (s.rules.candidates[1]?).any (fun c => c.1 == "letter".toList &&
      decide (c.2.Decides t) && c.2.isAnchored) = true := by decide +kernel
  obtain ⟨⟨rule, p⟩, hp, hchecks⟩ := (Option.any_eq_true _ _).mp hcandidate
  simp only [Bool.and_eq_true, beq_iff_eq, decide_eq_true_eq] at hchecks
  obtain ⟨⟨rfl, hdecides⟩, hanchored⟩ := hchecks
  have hfirst : FirstToDecide t s.rules.candidates 1 "letter".toList p :=
    ⟨hp, hdecides, by decide +kernel⟩
  have hne : t ≠ [] := by
    rw [ht]
    nofun
  obtain ⟨-, -, -, -, hsettled⟩ :=
    advance_settled "ab!".toList rules .standard settings () rfl hmet hhead
  exact ⟨rfl, hmet, hhead, ht, p, hfirst, hanchored, hsettled 1 _ p hne hfirst⟩

end Operation

end PullLexer
