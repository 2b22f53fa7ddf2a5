import Mathlib.Data.List.TakeWhile
import PullLexer.Proofs.Matching
import PullLexer.Proofs.Openings
import PullLexer.Proofs.Succession

/-!
# Anchored patterns, and no others

Whether a source is anchored is a matter of its spelling: an anchor stands
first, or behind one group of flags (`Pattern.StartsAnchored`). The check decides
this grammar (`Pattern.isAnchoredSource_iff`), as the regular expression does
that spells it out (`Pattern.anchorRegex_reads`). A production says that a
pattern is not anchored exactly when it comes to try one whose source is outside
the grammar (`Lexer.produce_unanchored_iff`), and a call that has to make tokens
fails as the production does that fails on its way (`Lexer.Demand.error_iff`).
-/

namespace PullLexer

-- ---------------------------------------------------------------------------
-- The grammar
-- ---------------------------------------------------------------------------

namespace Pattern

variable {source u : Text}

def flagLetters : List Char := ['a', 'i', 'L', 'm', 's', 'u', 'x']

/-- Nothing, or the letters of some flags as a group of their own. -/
inductive FlagGroup : Text → Prop
  | absent : FlagGroup []
  | letters {letters : Text} : letters ≠ [] → (∀ c ∈ letters, c ∈ flagLetters) →
      FlagGroup ('(' :: '?' :: letters ++ [')'])

inductive AnchorMark : Text → Prop
  | caret : AnchorMark ['^']
  | textStart : AnchorMark ['\\', 'A']

def StartsAnchored (source : Text) : Prop :=
  ∃ g a rest, FlagGroup g ∧ AnchorMark a ∧ source = g ++ a ++ rest

theorem isAnchorFlag_iff {c : Char} : isAnchorFlag c ↔ c ∈ flagLetters := List.contains_iff_mem

theorem opensWithAnchor_iff :
    opensWithAnchor source ↔ ∃ a rest, AnchorMark a ∧ source = a ++ rest := by
  constructor
  · intro h
    unfold opensWithAnchor at h
    split at h
    · exact ⟨_, _, .caret, rfl⟩
    · exact ⟨_, _, .textStart, rfl⟩
    · cases h
  · rintro ⟨_, rest, _ | _, rfl⟩ <;> rfl

theorem dropFlagGroup_letters {letters body : Text} (hne : letters ≠ [])
    (hflags : ∀ c ∈ letters, c ∈ flagLetters) :
    dropFlagGroup ('(' :: '?' :: letters ++ [')'] ++ body) = body := by
  have hall : ∀ c ∈ letters, isAnchorFlag c := fun c hc => isAnchorFlag_iff.mpr (hflags c hc)
  obtain ⟨c, more, rfl⟩ := List.exists_cons_of_ne_nil hne
  have htake : (c :: more ++ ')' :: body).takeWhile isAnchorFlag = c :: more := by
    rw [List.takeWhile_append_of_pos hall]
    simp [isAnchorFlag]
  have hdrop : (c :: more ++ ')' :: body).dropWhile isAnchorFlag = ')' :: body := by
    rw [List.dropWhile_append_of_pos hall]
    simp [isAnchorFlag]
  have hsource : '(' :: '?' :: (c :: more) ++ [')'] ++ body =
      '(' :: '?' :: (c :: more ++ ')' :: body) := by simp
  rw [hsource]
  simp only [dropFlagGroup, htake, hdrop]

/-- What is dropped is a group of flags, if anything is. -/
theorem exists_flagGroup (source : Text) :
    ∃ g, FlagGroup g ∧ source = g ++ dropFlagGroup source := by
  unfold dropFlagGroup
  split
  · rename_i rest
    split
    · rename_i c more body htake hdrop
      refine ⟨_, .letters (List.cons_ne_nil c more) fun d hd => ?_, ?_⟩
      · rw [← htake] at hd
        exact isAnchorFlag_iff.mp (List.mem_takeWhile_imp hd)
      · rw [← List.takeWhile_append_dropWhile (p := isAnchorFlag) (l := rest), htake, hdrop]
        simp
    · exact ⟨[], .absent, rfl⟩
  · exact ⟨[], .absent, rfl⟩

theorem isAnchoredSource_iff : isAnchoredSource source ↔ StartsAnchored source := by
  rw [isAnchoredSource, opensWithAnchor_iff]
  constructor
  · rintro ⟨a, rest, ha, hbody⟩
    obtain ⟨g, hg, hsource⟩ := exists_flagGroup source
    rw [hbody, ← List.append_assoc] at hsource
    exact ⟨g, a, rest, hg, ha, hsource⟩
  · rintro ⟨_, a, rest, _ | ⟨hne, hflags⟩, ha, rfl⟩
    · refine ⟨a, rest, ha, ?_⟩
      cases ha <;> rfl
    · rw [List.append_assoc _ a rest, dropFlagGroup_letters hne hflags]
      exact ⟨a, rest, ha, rfl⟩

/-- Of two groups of flags, the first one alone counts. -/
example : isAnchoredSource "(?i)(?m)^a".toList = false := by decide

-- ---------------------------------------------------------------------------
-- The grammar as a regular expression
-- ---------------------------------------------------------------------------

/-- An anchor, optionally behind a group of flags for the whole pattern. -/
def anchorRegex : Text := "(?:\\(\\?[aiLmsux]+\\))?(?:\\^|\\\\A)".toList

namespace Expr

def character (c : Char) : Expr := .one (.literal .exact c.toNat)

def anyFlag : CharTest := .set .exact false (flagLetters.map fun c => .code c.toNat)

def flagGroup : Expr :=
  .seq (character '(') (.seq (character '?')
    (.seq (.loop 1 none .greedy (.one anyFlag)) (character ')')))

def anchorMark : Expr := .alt (character '^') (.seq (character '\\') (character 'A'))

def anchored : Expr := .seq (.loop 0 (some 1) .greedy flagGroup) anchorMark

theorem accepts_anyFlag {c : Char} : anyFlag.accepts c.toNat ↔ c ∈ flagLetters := by
  simp [anyFlag, CharTest.accepts, Member.has, Casing.same, Casing.fold, Char.toNat_inj]

theorem mem_language_flagGroup :
    u ∈ flagGroup.language ↔
      ∃ letters, letters ≠ [] ∧ (∀ c ∈ letters, c ∈ flagLetters) ∧
        u = '(' :: '?' :: letters ++ [')'] := by
  constructor
  · rintro ⟨_, hopen, _, ⟨_, hmark, _, ⟨letters, hletters, _, hclose, rfl⟩, rfl⟩, rfl⟩
    obtain rfl := mem_language_literal.mp hopen
    obtain rfl := mem_language_literal.mp hmark
    obtain rfl := mem_language_literal.mp hclose
    obtain ⟨hne, hflags⟩ := mem_language_many.mp hletters
    exact ⟨letters, hne, fun c hc => accepts_anyFlag.mp (hflags c hc), rfl⟩
  · rintro ⟨letters, hne, hflags, rfl⟩
    have hletters : letters ∈ (loop 1 none .greedy (one anyFlag)).language :=
      mem_language_many.mpr ⟨hne, fun c hc => accepts_anyFlag.mpr (hflags c hc)⟩
    exact ⟨['('], mem_language_literal.mpr rfl, _, ⟨['?'], mem_language_literal.mpr rfl, _,
      ⟨letters, hletters, [')'], mem_language_literal.mpr rfl, rfl⟩, rfl⟩, rfl⟩

theorem mem_language_anchorMark : u ∈ anchorMark.language ↔ AnchorMark u := by
  constructor
  · rintro (hcaret | ⟨_, hback, _, hletter, rfl⟩)
    · obtain rfl := mem_language_literal.mp hcaret
      exact .caret
    · obtain rfl := mem_language_literal.mp hback
      obtain rfl := mem_language_literal.mp hletter
      exact .textStart
  · rintro (_ | _)
    · exact .inl (mem_language_literal.mpr rfl)
    · exact .inr ⟨['\\'], mem_language_literal.mpr rfl, ['A'], mem_language_literal.mpr rfl, rfl⟩

theorem mem_language_anchored :
    u ∈ anchored.language ↔ ∃ g a, FlagGroup g ∧ AnchorMark a ∧ u = g ++ a := by
  constructor
  · rintro ⟨g, hg, a, ha, rfl⟩
    refine ⟨g, a, ?_, mem_language_anchorMark.mp ha, rfl⟩
    rcases mem_language_optional.mp hg with rfl | hg
    · exact .absent
    · obtain ⟨letters, hne, hflags, rfl⟩ := mem_language_flagGroup.mp hg
      exact .letters hne hflags
  · rintro ⟨g, a, hg, ha, rfl⟩
    refine ⟨g, mem_language_optional.mpr ?_, a, mem_language_anchorMark.mpr ha, rfl⟩
    cases hg with
    | absent => exact .inl rfl
    | letters hne hflags => exact .inr (mem_language_flagGroup.mpr ⟨_, hne, hflags, rfl⟩)

end Expr

/-- The regular expression is read as this, and matches the sources that are anchored. -/
theorem anchorRegex_reads :
    ∃ q, compile anchorRegex .none = .ok q ∧
      ∀ source, (q.matchStart? source).isSome = isAnchoredSource source := by
  have hreads : (compile anchorRegex .none).toOption.map (·.expr) = some Expr.anchored := by
    decide +kernel
  cases hcompile : compile anchorRegex .none with
  | error fault =>
    rw [hcompile] at hreads
    cases hreads
  | ok q =>
    rw [hcompile] at hreads
    have hexpr : q.expr = Expr.anchored := Option.some.inj hreads
    refine ⟨q, rfl, fun source => Bool.eq_iff_iff.mpr ?_⟩
    have hplain : q.expr.plain := hexpr ▸ rfl
    rw [isSome_matchStart_iff hplain, isAnchoredSource_iff, hexpr]
    constructor
    · rintro ⟨u, hu, rest, rfl⟩
      obtain ⟨g, a, hg, ha, rfl⟩ := Expr.mem_language_anchored.mp hu
      exact ⟨g, a, rest, hg, ha, rfl⟩
    · rintro ⟨g, a, rest, hg, ha, rfl⟩
      exact ⟨g ++ a, Expr.mem_language_anchored.mpr ⟨g, a, hg, ha, rfl⟩, rest, rfl⟩

theorem isAnchored_eq_false_iff {p : Pattern} :
    p.isAnchored = false ↔ ¬ StartsAnchored p.source := by
  rw [isAnchored, Bool.eq_false_iff, ne_eq, isAnchoredSource_iff]

end Pattern

-- ---------------------------------------------------------------------------
-- The candidate that is refused
-- ---------------------------------------------------------------------------

/-- The source that a failure says is not anchored. -/
def Failure.unanchored? : Failure → Option Text
  | .diagnostic ⟨.notAnchored source, _, _⟩ => some source
  | _ => none

theorem Failure.unanchored_eq_some_iff {d : Diagnostic} {source : Text} :
    (diagnostic d).unanchored? = some source ↔ d.complaint = .notAnchored source := by
  obtain ⟨complaint, _, _⟩ := d
  cases complaint <;> simp [unanchored?]

theorem Failure.eq_notAnchored_of_ofComplaint {complaint : Complaint} {source : Text}
    (h : (ofComplaint complaint).unanchored? = some source) : complaint = .notAnchored source := by
  unfold ofComplaint ofDiagnostic at h
  split at h
  · exact unanchored_eq_some_iff.mp h
  · cases h

theorem Pattern.unanchored_of_trial {p : Pattern} {t source : Text}
    (h : p.trial t = .refused (.notAnchored source)) :
    p.isAnchored = false ∧ p.source = source := by
  cases ha : p.isAnchored with
  | false =>
    rw [trial_of_not_isAnchored ha] at h
    cases h
    exact ⟨rfl, rfl⟩
  | true =>
    rw [trial, if_pos ha, Pattern.take] at h
    split at h
    · cases h
    · split at h <;> cases h

theorem Finding.exists_of_first_refused {t rule : Text} {complaint : Complaint}
    {candidates : List (Text × Pattern)}
    (h : Finding.first t candidates = .refused rule complaint) :
    ∃ i p, FirstToDecide t candidates i rule p ∧ p.trial t = .refused complaint := by
  induction candidates with
  | nil => cases h
  | cons candidate rest ih =>
    obtain ⟨name, p⟩ := candidate
    cases htrial : p.trial t with
    | missed =>
      simp only [Finding.first, htrial] at h
      obtain ⟨i, q, hfirst, hq⟩ := ih h
      have hearlier : ∀ c ∈ ((name, p) :: rest).take (i + 1), ¬ c.2.Decides t :=
        List.forall_mem_cons.mpr ⟨Pattern.trial_eq_missed_iff.mp htrial, hfirst.earlier⟩
      exact ⟨i + 1, q, ⟨hfirst.getElem?_eq, hfirst.decides, hearlier⟩, hq⟩
    | refused _ =>
      simp only [Finding.first, htrial] at h
      cases h
      have hdecides : p.Decides t := by
        by_contra hmisses
        cases htrial.symm.trans (Pattern.trial_eq_missed_iff.mpr hmisses)
      exact ⟨0, p, ⟨rfl, hdecides, List.forall_mem_nil _⟩, htrial⟩
    | matched _ =>
      simp only [Finding.first, htrial] at h
      cases h

namespace Lexer

variable {ω τ : Type} {s t : Lexer ω τ} {n : Int} {i : Nat} {rule source : Text} {p : Pattern}
  {f : Failure} {es : List (Entry τ)}

/-- A production here comes to try this candidate: there is text ahead, and no candidate before it
decides on it. -/
structure Tries (s : Lexer ω τ) (i : Nat) (rule : Text) (p : Pattern) : Prop where
  inText : ¬ s.exhausted
  getElem?_eq : s.rules.candidates[i]? = some (rule, p)
  earlier : ∀ c ∈ s.rules.candidates.take i, ¬ c.2.Decides s.ahead

/-- A production here calls the builder, which fails. -/
def Raises (s : Lexer ω τ) (f : Failure) : Prop :=
  ∃ rule m verified, s.Finds (.found rule m) verified ∧
    (s.builder.build rule (.ofMatch m s.head) s.memory).1 = .error f

theorem produce_of_raises (h : s.Raises f) : s.produce.1 = .error f := by
  obtain ⟨rule, m, verified, hfinds, hbuild⟩ := h
  rw [(ProduceStep.raised hfinds (Prod.ext hbuild rfl)).produce_eq]

theorem Tries.finds_refused (h : s.Tries i rule p) (hsound : s.verified.Sound)
    (ha : p.isAnchored = false) :
    ∃ verified, s.Finds (.refused rule (.notAnchored p.source)) verified := by
  obtain ⟨verified, hfinds, -⟩ := exists_finds hsound h.inText
  have hfirst : FirstToDecide s.ahead s.rules.candidates i rule p :=
    ⟨h.getElem?_eq, .inl ha, h.earlier⟩
  rw [hfirst.first_eq] at hfinds
  simp only [Finding.first, Pattern.trial_of_not_isAnchored ha] at hfinds
  exact ⟨verified, hfinds⟩

/-- A production says that a pattern is not anchored exactly when it comes to try one that is not,
or when the builder says so. -/
theorem produce_unanchored_iff (hn : s.settings.excerptLength.int? = some n)
    (hsound : s.verified.Sound) :
    s.produce.1 = .error f ∧ f.unanchored? = some source ↔
      (∃ i rule p, s.Tries i rule p ∧ p.source = source ∧ ¬ Pattern.StartsAnchored source ∧
        f = .located rule (s.ahead.excerpt n) (.notAnchored source)) ∨
      s.Raises f ∧ f.unanchored? = some source := by
  constructor
  · rintro ⟨hfailed, hsource⟩
    have step := produceStep s
    generalize s.produce = outcome at step hfailed
    cases step with
    | exhausted | unmatched | made => cases hfailed
    | unexcerpted _ hexcerpt =>
      rw [excerpt_eq_ok hn] at hexcerpt
      cases hexcerpt
    | refused hfinds =>
      obtain rfl := Except.error.inj hfailed
      rw [failureAt_eq_diagnostic hn] at hsource ⊢
      obtain rfl := Failure.unanchored_eq_some_iff.mp hsource
      obtain ⟨i, p, hfirst, htrial⟩ :=
        Finding.exists_of_first_refused (hfinds.eq_first hsound).1.symm
      obtain ⟨ha, rfl⟩ := Pattern.unanchored_of_trial htrial
      exact .inl ⟨i, _, p, ⟨hfinds.1, hfirst.getElem?_eq, hfirst.earlier⟩, rfl,
        Pattern.isAnchored_eq_false_iff.mp ha, rfl⟩
    | raised hfinds hbuild =>
      obtain rfl := Except.error.inj hfailed
      exact .inr ⟨⟨_, _, _, hfinds, congrArg Prod.fst hbuild⟩, hsource⟩
    | nothingBuilt =>
      obtain rfl := Except.error.inj hfailed
      rw [failureAt_eq_diagnostic hn] at hsource
      cases Failure.unanchored_eq_some_iff.mp hsource
  · rintro (⟨i, rule, p, htries, rfl, houtside, rfl⟩ | ⟨hraises, hsource⟩)
    · obtain ⟨verified, hfinds⟩ :=
        htries.finds_refused hsound (Pattern.isAnchored_eq_false_iff.mpr houtside)
      rw [(ProduceStep.refused hfinds).produce_eq, failureAt_eq_diagnostic hn]
      exact ⟨rfl, rfl⟩
    · exact ⟨produce_of_raises hraises, hsource⟩

-- ---------------------------------------------------------------------------
-- Demands for tokens
-- ---------------------------------------------------------------------------

/-- A call that may have to make tokens. -/
inductive Demand where
  | scan
  | peek
  | lookahead (n : Nat)

namespace Demand

/-- How many tokens have to be queued for a call to make none. -/
def wanted : Demand → Nat
  | scan | peek => 1
  | lookahead n => n

def outcome (s : Lexer ω τ) : Demand → Outcome ω τ (Option (Item τ))
  | scan => s.scan
  | peek => s.peek
  | lookahead n => s.lookahead n

/-- The call comes to make a token here: those made so far are queued, and are too few. -/
def ComesTo (r : Demand) (s t : Lexer ω τ) : Prop :=
  ∃ es, Queues s es t ∧ t.queue.length < r.wanted

end Demand

theorem Demand.error_iff {r : Demand} :
    (r.outcome s).1 = .error f ↔ ∃ t, r.ComesTo s t ∧ t.produce.1 = .error f := by
  cases r with
  | scan =>
    rw [Demand.outcome, ← fst_peek]
    exact lookahead_error_iff
  | peek => exact lookahead_error_iff
  | lookahead n => exact lookahead_error_iff

theorem Demand.unanchored_iff {r : Demand} (hn : s.settings.excerptLength.int? = some n)
    (hsound : s.verified.Sound) :
    (r.outcome s).1 = .error f ∧ f.unanchored? = some source ↔
      ∃ t, r.ComesTo s t ∧
        ((∃ i rule p, t.Tries i rule p ∧ p.source = source ∧ ¬ Pattern.StartsAnchored source ∧
            f = .located rule (t.ahead.excerpt n) (.notAnchored source)) ∨
          t.Raises f ∧ f.unanchored? = some source) := by
  rw [Demand.error_iff, ← exists_and_right]
  refine exists_congr fun t => ?_
  rw [and_assoc]
  refine and_congr_right fun ⟨es, hqueues, _⟩ => ?_
  obtain ⟨-, -, hsettings, hsound⟩ := hqueues.kindred hsound
  rw [← hsettings] at hn
  exact produce_unanchored_iff hn hsound

theorem matchBy_unanchored_iff (hsound : s.verified.Sound) (hremains : s.remaining ≠ []) :
    (s.matchBy (.pattern p)).1 = .error f ∧ f.unanchored?.isSome ↔
      ¬ Pattern.StartsAnchored p.source ∧ f = .ofComplaint (.notAnchored p.source) := by
  rw [fst_matchBy_pattern hsound hremains, ← Pattern.isAnchored_eq_false_iff]
  cases ha : p.isAnchored with
  | false =>
    rw [Pattern.trial_of_not_isAnchored ha]
    constructor
    · rintro ⟨⟨⟩, -⟩
      exact ⟨rfl, rfl⟩
    · rintro ⟨-, rfl⟩
      exact ⟨rfl, rfl⟩
  | true =>
    refine iff_of_false ?_ (by nofun)
    rintro ⟨hf, hsome⟩
    obtain ⟨source, hsource⟩ := Option.isSome_iff_exists.mp hsome
    cases htrial : p.trial s.remaining with
    | missed | matched =>
      rw [htrial] at hf
      cases hf
    | refused complaint =>
      rw [htrial] at hf
      obtain rfl := Except.error.inj hf
      obtain rfl := Failure.eq_notAnchored_of_ofComplaint hsource
      cases ha.symm.trans (Pattern.unanchored_of_trial htrial).1

end Lexer

namespace Operation

open Lexer

variable {ω τ : Type} [TokenLike τ] {s : Lexer ω τ} {n : Int}

/-- The sources that are taken as anchored are those of the grammar, which are those that the
regular expression matches. Wherever client code has brought a lexer, matching a pattern at the
cursor says that it is not anchored exactly when its source is outside the grammar; and a call that
makes tokens says so exactly when, on its way, it comes to try a candidate whose source is outside
the grammar, unless the builder says so itself. -/
theorem unanchored_iff_outside_grammar (input : Text) (rules : RuleTable) (builder : Builder ω τ)
    (settings : Settings ω τ) (memory : ω) (hn : settings.excerptLength.int? = some n)
    (hmet : Meets (fun _ _ => True) (start input rules builder settings memory) s) :
    (∀ p : Pattern, p.isAnchored ↔ Pattern.StartsAnchored p.source) ∧
      (∃ q, Pattern.compile Pattern.anchorRegex .none = .ok q ∧
        ∀ p : Pattern, (q.matchStart? p.source).isSome = p.isAnchored) ∧
      (s.remaining ≠ [] → ∀ p f,
        (s.matchBy (.pattern p)).1 = .error f ∧ f.unanchored?.isSome ↔
          ¬ Pattern.StartsAnchored p.source ∧ f = .ofComplaint (.notAnchored p.source)) ∧
      ∀ (r : Demand) (f : Failure) (source : Text),
        (r.outcome s).1 = .error f ∧ f.unanchored? = some source ↔
          ∃ t, r.ComesTo s t ∧
            ((∃ i rule p, t.Tries i rule p ∧ p.source = source ∧
                ¬ Pattern.StartsAnchored source ∧
                f = .located rule (t.ahead.excerpt n) (.notAnchored source)) ∨
              t.Raises f ∧ f.unanchored? = some source) := by
  obtain ⟨-, hsettings, hsound⟩ : Equipped builder settings s :=
    hmet.equipped ⟨rfl, rfl, Verified.sound_nil⟩
  rw [← hsettings] at hn
  obtain ⟨q, hcompile, hreads⟩ := Pattern.anchorRegex_reads
  refine ⟨fun p => Pattern.isAnchoredSource_iff, ⟨q, hcompile, fun p => hreads p.source⟩,
    fun hremains p f => matchBy_unanchored_iff hsound hremains, fun r f source => ?_⟩
  exact r.unanchored_iff hn hsound

/-- A token is queued. Behind it the first rule does not match, and the second has its anchor in a
group that is no group of flags for the whole pattern. -/
theorem unanchored_iff_outside_grammar_behind_queue :
    let rules : RuleTable := .ofSources [("letter", "^[a-z]"), ("mark", "(?i:^)!")]
    let settings : Settings Unit (Token Text) := .default
    let s₀ : Lexer Unit (Token Text) := start "a!".toList rules .standard settings ()
    let s := run s₀ [.peek]
    settings.excerptLength.int? = some 20 ∧ Meets (fun _ _ => True) s₀ s ∧
      (∃ p, s.Tries 1 "mark".toList p ∧ p.source = "(?i:^)!".toList) ∧
      ¬ Pattern.StartsAnchored "(?i:^)!".toList ∧
      (s.lookahead 2).1 =
        .error (.located "mark".toList "!".toList (.notAnchored "(?i:^)!".toList)) := by
  intro rules settings s₀ s
  have hmet : Meets (fun _ _ => True) s₀ s :=
    .between (Works.idle.of_along ⟨⟨trivial, trivial⟩, trivial⟩)
  have hcandidate : (s.rules.candidates[1]?).any (fun c => c.1 == "mark".toList &&
      c.2.source == "(?i:^)!".toList) = true := by decide +kernel
  obtain ⟨⟨rule, p⟩, hp, hchecks⟩ := (Option.any_eq_true _ _).mp hcandidate
  simp only [Bool.and_eq_true, beq_iff_eq] at hchecks
  obtain ⟨rfl, hsource⟩ := hchecks
  have htries : s.Tries 1 "mark".toList p := ⟨by decide +kernel, hp, by decide +kernel⟩
  have houtside : ¬ Pattern.StartsAnchored "(?i:^)!".toList := by
    rw [← Pattern.isAnchoredSource_iff]
    decide +kernel
  have hexcerpt : "!".toList = s.ahead.excerpt 20 := by decide +kernel
  obtain ⟨-, -, -, hdemands⟩ :=
    unanchored_iff_outside_grammar "a!".toList rules .standard settings () rfl hmet
  have hcomes : (Demand.lookahead 2).ComesTo s s := ⟨[], .nil, by decide +kernel⟩
  have hfailed := (hdemands (.lookahead 2) _ _).mpr
    ⟨s, hcomes, .inl ⟨1, _, p, htries, hsource, houtside, rfl⟩⟩
  rw [← hexcerpt] at hfailed
  exact ⟨rfl, hmet, ⟨p, htries, hsource⟩, houtside, hfailed.1⟩

end Operation

end PullLexer
