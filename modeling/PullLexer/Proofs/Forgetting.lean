import PullLexer.Proofs.Anchoring
import PullLexer.Proofs.Lockstep

/-!
# Checks that are remembered decide nothing

A pattern found to be anchored is kept under its fingerprint, which stands for
its identity: any number, which patterns of the same source need not share, and
which another pattern may come to have. Every pattern kept stands under its own
fingerprint and is anchored (`Verified.Faithful`), and what is kept stays
(`Verified.Grows.suffix`). The pattern itself is compared, so that a check
answers as if nothing was kept. A lexer that forgets all checks before each
operation answers alike and stays in step (`Operation.answersForgetting_eq`).
-/

namespace PullLexer

-- ---------------------------------------------------------------------------
-- What is kept
-- ---------------------------------------------------------------------------

namespace Verified

variable {verified verified' : Verified} {p : Pattern} {t : Text} {n : Nat}
  {earlier : List (Text × Pattern)}

def get? (verified : Verified) (n : Nat) : Option Pattern :=
  (verified.find? (·.1 == n)).map (·.2)

/-- Every pattern stands under its own fingerprint, and is anchored. -/
def Faithful (verified : Verified) : Prop :=
  ∀ entry ∈ verified, entry.1 = entry.2.fingerprint ∧ entry.2.isAnchored = true

theorem faithful_nil : Faithful [] := by
  intro entry h
  cases h

theorem Faithful.sound (h : verified.Faithful) : verified.Sound := fun entry hm => (h entry hm).2

/-- A pattern is known that is kept itself, and not one of the same fingerprint. -/
theorem knows_iff : verified.knows p = true ↔ verified.get? p.fingerprint = some p := by
  unfold knows get?
  cases verified.find? (·.1 == p.fingerprint) <;> simp

theorem mem_of_get? (h : verified.get? n = some p) : (n, p) ∈ verified := by
  obtain ⟨⟨m, q⟩, hfind, rfl⟩ := Option.map_eq_some_iff.mp h
  have hkey : m = n := by simpa using List.find?_some hfind
  exact hkey ▸ List.mem_of_find?_eq_some hfind

/-- Different patterns that are kept have different fingerprints, as things that are there at the
same time have different identities. -/
def Apart (verified : Verified) : Prop :=
  ∀ a ∈ verified, ∀ b ∈ verified, a.1 = b.1 → a.2 = b.2

theorem Apart.get?_eq (h : verified.Apart) (hm : (n, p) ∈ verified) :
    verified.get? n = some p := by
  have hfound : (verified.find? (·.1 == n)).isSome := by
    rw [List.find?_isSome]
    exact ⟨_, hm, beq_self_eq_true n⟩
  obtain ⟨entry, hentry⟩ := Option.isSome_iff_exists.mp hfound
  have hget : verified.get? n = some entry.2 := by rw [get?, hentry, Option.map_some]
  rw [hget, h _ (mem_of_get? hget) _ hm rfl]

theorem Faithful.check (h : verified.Faithful) (p : Pattern) : (verified.check p).2.Faithful := by
  rcases verified.snd_check p with hsame | ⟨-, ha, hkept⟩
  · rwa [hsame]
  · rw [hkept]
    exact List.forall_mem_cons.mpr ⟨⟨rfl, ha⟩, h⟩

theorem snd_check_of_not_isAnchored (ha : p.isAnchored = false) :
    (verified.check p).2 = verified := by
  rcases verified.snd_check p with hsame | ⟨-, ha', -⟩
  · exact hsame
  · cases ha.symm.trans ha'

theorem suffix_check (verified : Verified) (p : Pattern) : verified <:+ (verified.check p).2 := by
  rcases verified.snd_check p with hsame | ⟨-, -, hkept⟩
  · rw [hsame]
  · rw [hkept]
    exact List.suffix_cons _ _

theorem nodup_check (h : verified.Apart → (verified.map (·.1)).Nodup) (p : Pattern)
    (hapart : (verified.check p).2.Apart) : ((verified.check p).2.map (·.1)).Nodup := by
  rcases verified.snd_check p with hsame | ⟨hunknown, -, hkept⟩
  · rw [hsame] at hapart ⊢
    exact h hapart
  · rw [hkept] at hapart ⊢
    have hbefore : verified.Apart := fun a ha b hb =>
      hapart a (List.mem_cons_of_mem _ ha) b (List.mem_cons_of_mem _ hb)
    refine List.nodup_cons.mpr ⟨fun hmem => hunknown ?_, h hbefore⟩
    obtain ⟨⟨m, q⟩, hq, rfl⟩ := List.mem_map.mp hmem
    obtain rfl : q = p := hapart _ (List.mem_cons_of_mem _ hq) _ List.mem_cons_self rfl
    exact knows_iff.mpr (hbefore.get?_eq hq)

namespace Grows

theorem faithful (h : verified.Grows verified') (hv : verified.Faithful) : verified'.Faithful :=
  h.keeps (I := Faithful) (fun _ p hknown => hknown.check p) hv

theorem suffix (h : verified.Grows verified') : verified <:+ verified' :=
  h.keeps (I := (verified <:+ ·)) (fun known p hsuffix => hsuffix.trans (known.suffix_check p))
    (List.suffix_refl verified)

theorem nodup (h : Grows [] verified) (hapart : verified.Apart) : (verified.map (·.1)).Nodup :=
  h.keeps (I := fun known => known.Apart → (known.map (·.1)).Nodup)
    (fun _ p hknown => nodup_check hknown p) (fun _ => List.nodup_nil) hapart

theorem get?_eq (h : verified.Grows verified') (hapart : verified'.Apart)
    (hget : verified.get? n = some p) : verified'.get? n = some p :=
  hapart.get?_eq (h.suffix.subset (mem_of_get? hget))

end Grows

theorem attempt_of_missed (h : verified.Sound) (hmissed : p.trial t = .missed) :
    verified.attempt p t = (.missed, (verified.check p).2) := by
  rw [← hmissed, ← h.fst_attempt p t, attempt_eq]

/-- Candidates that miss are checked one after the other before the next one is tried. -/
theorem firstFinding_append_of_missed (h : verified.Sound)
    (hmissed : ∀ c ∈ earlier, c.2.trial t = .missed) (rest : List (Text × Pattern)) :
    verified.firstFinding t (earlier ++ rest) =
      (verified.checkAll (earlier.map (·.2))).firstFinding t rest := by
  induction earlier generalizing verified with
  | nil => rfl
  | cons candidate earlier ih =>
    obtain ⟨hfirst, hearlier⟩ := List.forall_mem_cons.mp hmissed
    simp only [List.cons_append, firstFinding, attempt_of_missed h hfirst]
    exact ih (h.snd_check _) hearlier

end Verified

-- ---------------------------------------------------------------------------
-- What a lexer comes to keep
-- ---------------------------------------------------------------------------

namespace Lexer

variable {ω τ : Type} {s t : Lexer ω τ} {i : Nat} {rule : Text} {p : Pattern}

theorem Tries.firstFinding_eq (h : s.Tries i rule p) (hsound : s.verified.Sound) :
    s.verified.firstFinding s.ahead s.rules.candidates =
      (s.verified.checkAll ((s.rules.candidates.take i).map (·.2))).firstFinding s.ahead
        (s.rules.candidates.drop i) := by
  have hmissed : ∀ c ∈ s.rules.candidates.take i, c.2.trial s.ahead = .missed :=
    fun c hc => Pattern.trial_eq_missed_iff.mpr (h.earlier c hc)
  rw [← Verified.firstFinding_append_of_missed hsound hmissed, List.take_append_drop]

theorem matchBy_notAnchored_iff (hsound : s.verified.Sound) (hremains : s.remaining ≠ []) :
    (s.matchBy (.pattern p)).1 = .error (.ofComplaint (.notAnchored p.source)) ↔
      p.isAnchored = false := by
  have hrefuses := matchBy_unanchored_iff (p := p) (f := .ofComplaint (.notAnchored p.source))
    hsound hremains
  rw [Pattern.isAnchored_eq_false_iff]
  exact ⟨fun hf => (hrefuses.mp ⟨hf, rfl⟩).1, fun houtside => (hrefuses.mpr ⟨houtside, rfl⟩).1⟩

theorem grows_produce {made : Except Failure (Option (Entry τ))} (hp : s.produce = (made, t)) :
    s.verified.Grows t.verified := by
  obtain ⟨_, _, _, _, rfl, hgrows⟩ := produce_frame hp
  exact hgrows

theorem sustained_grows (known : Verified) :
    Sustained (ω := ω) (τ := τ) fun _ s => known.Grows s.verified where
  remember _ h := h
  forget h := h
  produce h hp := h.trans (grows_produce hp)
  push {_ _ _ s'} h hp := show known.Grows s'.verified from h.trans (grows_produce hp)
  pass {_ _ _ s'} h _ hp := show known.Grows s'.verified from h.trans (grows_produce hp)
  serve h _ := h

theorem upheld_grows [TokenLike τ] {permitted : Lexer ω τ → Operation ω τ → Prop}
    (known : Verified) (hguard : ∀ {s accepts bound}, permitted s (.scanGuarded accepts bound) →
      accepts.LeavesLexer) : Upheld permitted fun s => known.Grows s.verified where
  moves := sustained_grows known
  guard := hguard
  advance {_ s' _} h hp := show known.Grows s'.verified from h.trans (grows_produce hp)
  pop h _ := h
  enqueue h _ _ := h
  discard _ h := h
  cut _ h _ := h
  cutGiven _ h _ _ := h
  register _ _ h := h
  verify _ h hgrows := h.trans hgrows

-- ---------------------------------------------------------------------------
-- Lexers that differ in what they keep
-- ---------------------------------------------------------------------------

/-- The second lexer is the first with other anchored patterns known. -/
def SameButVerified (s t : Lexer ω τ) : Prop :=
  s.verified.Sound ∧ ∃ known : Verified, known.Sound ∧ t = { s with verified := known }

namespace SameButVerified

theorem produce (h : SameButVerified s t) :
    Outcome.Alike SameButVerified (· = ·) (· = ·) s.produce t.produce := by
  obtain ⟨hs, known, ht, rfl⟩ := h
  let t : Lexer ω τ := { s with verified := known }
  have transfer {finding : Finding} {verified : Verified} (hfinds : s.Finds finding verified) :
      verified.Sound ∧ ∃ verified', t.Finds finding verified' ∧ verified'.Sound :=
    hfinds.transfer (t := t) hs ht id rfl
  have step := produceStep s
  generalize s.produce = outcome at step ⊢
  cases step with
  | exhausted hend =>
    rw [(ProduceStep.exhausted (s := t) hend).produce_eq]
    exact .ok rfl ⟨hs, known, ht, rfl⟩
  | unmatched hfinds hexcerpt =>
    obtain ⟨hsound, verified', hfinds', hsound'⟩ := transfer hfinds
    rw [(ProduceStep.unmatched (s := t) hfinds' hexcerpt).produce_eq]
    exact .ok rfl ⟨hsound, verified', hsound', rfl⟩
  | unexcerpted hfinds hexcerpt =>
    obtain ⟨hsound, verified', hfinds', hsound'⟩ := transfer hfinds
    rw [(ProduceStep.unexcerpted (s := t) hfinds' hexcerpt).produce_eq]
    exact .error rfl ⟨hsound, verified', hsound', rfl⟩
  | refused hfinds =>
    obtain ⟨hsound, verified', hfinds', hsound'⟩ := transfer hfinds
    rw [(ProduceStep.refused (s := t) hfinds').produce_eq]
    exact .error rfl ⟨hsound, verified', hsound', rfl⟩
  | raised hfinds hbuild =>
    obtain ⟨hsound, verified', hfinds', hsound'⟩ := transfer hfinds
    rw [(ProduceStep.raised (s := t) hfinds' hbuild).produce_eq]
    exact .error rfl ⟨hsound, verified', hsound', rfl⟩
  | nothingBuilt hfinds hbuild =>
    obtain ⟨hsound, verified', hfinds', hsound'⟩ := transfer hfinds
    rw [(ProduceStep.nothingBuilt (s := t) hfinds' hbuild).produce_eq]
    exact .error rfl ⟨hsound, verified', hsound', rfl⟩
  | made hfinds hbuild =>
    obtain ⟨hsound, verified', hfinds', hsound'⟩ := transfer hfinds
    rw [(ProduceStep.made (s := t) hfinds' hbuild).produce_eq]
    exact .ok rfl ⟨hsound, verified', hsound', rfl⟩

theorem matchHere (h : SameButVerified s t) (p : Pattern) :
    Outcome.Alike SameButVerified (· = ·) (· = ·) (s.matchHere p) (t.matchHere p) := by
  obtain ⟨hs, known, ht, rfl⟩ := h
  have hsound := hs.snd_attempt p s.remaining
  have hsound' := ht.snd_attempt p s.remaining
  have htrial := (ht.fst_attempt p s.remaining).trans (hs.fst_attempt p s.remaining).symm
  unfold Lexer.matchHere
  dsimp only
  split
  · exact .ok rfl ⟨hs, known, ht, rfl⟩
  · generalize s.verified.attempt p s.remaining = attempt,
      known.attempt p s.remaining = attempt' at hsound hsound' htrial ⊢
    obtain ⟨_, verified⟩ := attempt
    obtain ⟨trial, verified'⟩ := attempt'
    obtain rfl := htrial
    cases trial with
    | missed => exact .ok rfl ⟨hsound, verified', hsound', rfl⟩
    | refused complaint => exact .error rfl ⟨hsound, verified', hsound', rfl⟩
    | matched m => exact .ok rfl ⟨hsound, verified', hsound', rfl⟩

theorem twins : Twins (SameButVerified (ω := ω) (τ := τ)) (· = ·) where
  failure _ := rfl
  ends h := by rw [h]
  differ := by
    rintro s _ ⟨-, _, -, rfl⟩
    exact ⟨_, _, _, rfl⟩
  produce h := h.produce
  matchHere p h := h.matchHere p
  move := by
    rintro s _ u ⟨hs, known, ht, rfl⟩
    exact ⟨hs, known, ht, rfl⟩
  remember := by
    rintro s _ memory ⟨hs, known, ht, rfl⟩
    exact ⟨hs, known, ht, rfl⟩
  write := by
    rintro s _ r ⟨hs, known, ht, rfl⟩
    exact ⟨hs, known, ht, rfl⟩

end SameButVerified

/-- The lexer that has to check every pattern anew. -/
def forgetChecks (s : Lexer ω τ) : Lexer ω τ := { s with verified := [] }

theorem SameButVerified.forgetChecks (h : SameButVerified s t) :
    SameButVerified s t.forgetChecks := by
  obtain ⟨hs, known, -, rfl⟩ := h
  exact ⟨hs, [], Verified.sound_nil, rfl⟩

end Lexer

-- ---------------------------------------------------------------------------
-- Over whole runs
-- ---------------------------------------------------------------------------

namespace Operation

open Lexer

variable {ω τ : Type} [TokenLike τ] {s t : Lexer ω τ} {operations : List (Operation ω τ)}

/-- The answers of a run before each operation of which all checks are forgotten. -/
def answersForgetting : Lexer ω τ → List (Operation ω τ) → List (Except Failure (Answer τ))
  | _, [] => []
  | s, operation :: rest =>
    (operation.perform s.forgetChecks).1 :: answersForgetting (operation.step s.forgetChecks) rest

def runForgetting (s : Lexer ω τ) (operations : List (Operation ω τ)) : Lexer ω τ :=
  operations.foldl (fun s operation => operation.step s.forgetChecks) s

theorem answersForgetting_eq (h : SameButVerified s t)
    (hops : ∀ operation ∈ operations, operation.Respects SameButVerified (· = ·)) :
    answersForgetting t operations = answersAlong s operations ∧
      SameButVerified (run s operations) (runForgetting t operations) := by
  induction operations generalizing s t with
  | nil => exact ⟨rfl, h⟩
  | cons operation rest ih =>
    obtain ⟨hfirst, hrest⟩ := List.forall_mem_cons.mp hops
    have houtcome := SameButVerified.twins.perform hfirst h.forgetChecks
    obtain ⟨hanswers, hstate⟩ := ih houtcome.states hrest
    refine ⟨?_, hstate⟩
    rw [answersForgetting, answersAlong, houtcome.answers.eq]
    exact congrArg _ hanswers

/-- Whatever client code does, checks alone change what is kept. -/
theorem Meets.grows {permitted : Lexer ω τ → Operation ω τ → Prop} (hmet : Meets permitted s t) :
    s.verified.Grows t.verified :=
  hmet.keeps (upheld_grows s.verified fun hop => hop.2.elim) (fun _ _ _ h => h) (.refl _)

/-- Wherever client code has brought a lexer, whichever patterns it registered, replaced and matched
on the way: what is kept here, or after any checks from here on, is anchored and stands under its
own fingerprint, and a check answers as if nothing was kept; where it fails it leaves nothing
behind. Candidates are checked one after the other against what the ones before them left. What is
kept stays kept, and where fingerprints are identities it stays the one pattern under its own. A run
that forgets all checks before each operation answers the same and leaves the same lexer but for
what is kept. -/
theorem remembered_checks_decide_nothing (input : Text) (rules : RuleTable) (builder : Builder ω τ)
    (settings : Settings ω τ) (memory : ω)
    (hmet : Meets (fun _ _ => True) (start input rules builder settings memory) s) :
    (∀ known, s.verified.Grows known →
      known.Faithful ∧ ∀ p, (known.knows p = true ↔ known.get? p.fingerprint = some p) ∧
        (known.check p).1 = p.isAnchored ∧
        (p.isAnchored = false → (known.check p).2 = known) ∧
        ∀ t, (known.attempt p t).1 = p.trial t) ∧
    (∀ i rule p, s.Tries i rule p →
      s.verified.firstFinding s.ahead s.rules.candidates =
        (s.verified.checkAll ((s.rules.candidates.take i).map (·.2))).firstFinding s.ahead
          (s.rules.candidates.drop i)) ∧
    (s.remaining ≠ [] → ∀ p,
      (s.matchBy (.pattern p)).1 = .error (.ofComplaint (.notAnchored p.source)) ↔
        p.isAnchored = false) ∧
    (∀ t, Meets (fun _ _ => True) s t → s.verified.Grows t.verified ∧
      s.verified <:+ t.verified ∧ (t.verified.Apart → (t.verified.map (·.1)).Nodup ∧
        ∀ n p, s.verified.get? n = some p → t.verified.get? n = some p)) ∧
    ∀ operations, (∀ operation ∈ operations, operation.Respects SameButVerified (· = ·)) →
      answersForgetting s operations = answersAlong s operations ∧
        ∃ known, runForgetting s operations = { run s operations with verified := known } := by
  have hfaithful : s.verified.Faithful := hmet.grows.faithful Verified.faithful_nil
  have hsound : s.verified.Sound := hfaithful.sound
  refine ⟨fun known hgrows => ?_, fun i rule p htries => ?_, fun hremains p => ?_,
    fun t hlater => ?_, fun operations hops => ?_⟩
  · have hknown : known.Faithful := hgrows.faithful hfaithful
    exact ⟨hknown, fun p => ⟨Verified.knows_iff, hknown.sound.fst_check p,
      Verified.snd_check_of_not_isAnchored, hknown.sound.fst_attempt p⟩⟩
  · exact htries.firstFinding_eq hsound
  · exact matchBy_notAnchored_iff hsound hremains
  · exact ⟨hlater.grows, hlater.grows.suffix, fun hapart =>
      ⟨(hmet.grows.trans hlater.grows).nodup hapart, fun n p => hlater.grows.get?_eq hapart⟩⟩
  · have hsame : SameButVerified s s := ⟨hsound, s.verified, hsound, rfl⟩
    obtain ⟨hanswers, -, known, -, hstate⟩ := answersForgetting_eq hsame hops
    exact ⟨hanswers, known, hstate⟩

/-- A pattern that is not anchored has the identity of one that is kept, whose rule is replaced by a
pattern of the same source with another identity. A guard advances before it accepts. -/
theorem remembered_checks_decide_nothing_under_shared_identity :
    let read (source : String) (identity : Nat) : Pattern :=
      { (Pattern.compile source.toList .none).toOption.getD default with fingerprint := identity }
    let kept := read "^a" 7
    let other := read "b|^a" 7
    let s₀ : Lexer Unit (Token Text) :=
      start "aab".toList (.ofSources [("B", "^b")]) .standard .default ()
    let s := run s₀ [.addRule (.text "A".toList) (.pattern kept), .peek, .matchBy (.pattern other)]
    let t := run s [.addRule (.text "A".toList) (.pattern (read "^a" 8)), .dequeue, .peek]
    let accepts : Guard Unit (Token Text) := fun _ s => (.ok true, Operation.advance.step s)
    let operations : List (Operation Unit (Token Text)) :=
      [.scanGuarded accepts 2, .addRule (.text "A".toList) (.pattern other), .scan]
    Meets (fun _ _ => True) s₀ s ∧ Meets (fun _ _ => True) s t ∧ s.remaining ≠ [] ∧
      s.verified.map (·.2.source) = ["^a".toList, "^b".toList] ∧
      t.verified.map (·.2.source) = ["^a".toList, "^a".toList, "^b".toList] ∧
      (s.verified.check kept).1 = true ∧ (s.verified.check other).1 = false ∧
      (s.Tries 1 "A".toList kept ∧ s.verified.firstFinding s.ahead s.rules.candidates =
        (s.verified.checkAll ((s.rules.candidates.take 1).map (·.2))).firstFinding s.ahead
          (s.rules.candidates.drop 1)) ∧
      (s.matchBy (.pattern other)).1 = .error (.ofComplaint (.notAnchored "b|^a".toList)) ∧
      (t.verified.Apart ∧ s.verified.get? 7 = some kept ∧ t.verified.get? 7 = some kept) ∧
      (∀ operation ∈ operations, operation.Respects SameButVerified (· = ·)) ∧
      answersForgetting s operations = answersAlong s operations := by
  intro read kept other s₀ s t accepts operations
  have hmet : Meets (fun _ _ => True) s₀ s :=
    .between (Works.idle.of_along
      ⟨⟨trivial, trivial⟩, ⟨trivial, trivial⟩, ⟨trivial, trivial⟩, trivial⟩)
  have hlater : Meets (fun _ _ => True) s t :=
    .between (Works.idle.of_along
      ⟨⟨trivial, trivial⟩, ⟨trivial, trivial⟩, ⟨trivial, trivial⟩, trivial⟩)
  have hremains : s.remaining ≠ [] := by decide +kernel
  have htries : s.Tries 1 "A".toList kept :=
    ⟨by decide +kernel, by decide +kernel, by decide +kernel⟩
  have hapart : t.verified.Apart := by
    unfold Verified.Apart
    decide +kernel
  have hget : s.verified.get? 7 = some kept := by decide +kernel
  have hadvances : accepts.Respects SameButVerified (· = ·) (· = ·) := by
    intro u v _ _ huv _
    have hadvance : (advance : Operation Unit (Token Text)).Respects SameButVerified (· = ·) :=
      trivial
    exact .ok rfl (SameButVerified.twins.perform hadvance huv).states
  have hops : ∀ operation ∈ operations, operation.Respects SameButVerified (· = ·) := by
    simp only [operations, List.forall_mem_cons]
    exact ⟨hadvances, trivial, trivial, nofun⟩
  obtain ⟨hchecks, hproduces, hmatches, hstays, hforgets⟩ :=
    remembered_checks_decide_nothing "aab".toList (.ofSources [("B", "^b")]) .standard .default ()
      hmet
  obtain ⟨-, hknown⟩ := hchecks s.verified (.refl _)
  have hkept : (s.verified.check kept).1 = true := (hknown kept).2.1.trans (by decide +kernel)
  have hother : (s.verified.check other).1 = false := (hknown other).2.1.trans (by decide +kernel)
  have hrefused := (hmatches hremains other).mpr (by decide +kernel)
  have hstill := ((hstays t hlater).2.2 hapart).2 7 kept hget
  exact ⟨hmet, hlater, hremains, by decide +kernel, by decide +kernel, hkept, hother,
    ⟨htries, hproduces 1 _ kept htries⟩, hrefused, ⟨hapart, hget, hstill⟩, hops,
    (hforgets operations hops).1⟩

end Operation

end PullLexer
