import PullLexer.Lexer.Trial

/-!
# Trying patterns without a memory

What trying candidates comes to depends on the text and the candidates alone:
the patterns remembered are anchored, so that what is known saves a check and
never changes its answer. Checks are all that changes what is known (`Grows`).
-/

namespace PullLexer

/-- How a pattern fares on a text when nothing is remembered. -/
def Pattern.trial (p : Pattern) (t : Text) : Trial :=
  if p.isAnchored then p.take t else .refused (.notAnchored p.source)

/-- What trying candidates comes to when nothing is remembered. -/
def Finding.first (t : Text) : List (Text × Pattern) → Finding
  | [] => .nothing
  | (rule, p) :: rest =>
    match p.trial t with
    | .missed => first t rest
    | .refused complaint => .refused rule complaint
    | .matched m => .found rule m

namespace Verified

/-- Only anchored patterns are remembered. -/
def Sound (verified : Verified) : Prop := ∀ entry ∈ verified, entry.2.isAnchored = true

variable {verified : Verified} {p : Pattern} {t : Text} {candidates : List (Text × Pattern)}

theorem sound_nil : Sound [] := by
  intro entry h
  cases h

theorem Sound.isAnchored (h : verified.Sound) (hk : verified.knows p = true) :
    p.isAnchored = true := by
  unfold knows at hk
  split at hk
  · rename_i entry hfind
    have hp : entry.2 = p := by simpa using hk
    exact hp ▸ h entry (List.mem_of_find?_eq_some hfind)
  · cases hk

theorem Sound.fst_check (h : verified.Sound) (p : Pattern) :
    (verified.check p).1 = p.isAnchored := by
  unfold check
  split
  · rename_i hk
    exact (h.isAnchored hk).symm
  · split
    · rename_i ha
      exact ha.symm
    · rename_i ha
      exact (Bool.eq_false_iff.mpr ha).symm

theorem snd_check (verified : Verified) (p : Pattern) :
    (verified.check p).2 = verified ∨
      ¬ verified.knows p = true ∧ p.isAnchored = true ∧
        (verified.check p).2 = (p.fingerprint, p) :: verified := by
  unfold check
  split
  · exact .inl rfl
  · rename_i hunknown
    split
    · rename_i ha
      exact .inr ⟨hunknown, ha, rfl⟩
    · exact .inl rfl

theorem Sound.snd_check (h : verified.Sound) (p : Pattern) : (verified.check p).2.Sound := by
  rcases verified.snd_check p with hsame | ⟨-, ha, hkept⟩
  · rwa [hsame]
  · rw [hkept]
    exact List.forall_mem_cons.mpr ⟨ha, h⟩

theorem attempt_eq (verified : Verified) (p : Pattern) (t : Text) :
    verified.attempt p t =
      (if (verified.check p).1 then p.take t else .refused (.notAnchored p.source),
        (verified.check p).2) := by
  unfold attempt
  split <;> rename_i hc <;> simp [hc]

theorem Sound.fst_attempt (h : verified.Sound) (p : Pattern) (t : Text) :
    (verified.attempt p t).1 = p.trial t := by
  rw [attempt_eq, h.fst_check p]
  rfl

theorem Sound.snd_attempt (h : verified.Sound) (p : Pattern) (t : Text) :
    (verified.attempt p t).2.Sound := by
  rw [attempt_eq]
  exact h.snd_check p

-- ---------------------------------------------------------------------------
-- Checks in succession
-- ---------------------------------------------------------------------------

/-- What is known after checks of these patterns, one after the other. -/
def checkAll (verified : Verified) (ps : List Pattern) : Verified :=
  ps.foldl (fun known p => (known.check p).2) verified

/-- Checks, of whichever patterns, lead from what was known to what is known. -/
def Grows (verified verified' : Verified) : Prop := ∃ ps, verified' = verified.checkAll ps

namespace Grows

variable {verified' verified'' : Verified}

theorem refl (verified : Verified) : verified.Grows verified := ⟨[], rfl⟩

theorem trans (h : verified.Grows verified') (h' : verified'.Grows verified'') :
    verified.Grows verified'' := by
  obtain ⟨ps, rfl⟩ := h
  obtain ⟨qs, rfl⟩ := h'
  exact ⟨ps ++ qs, by simp only [checkAll, List.foldl_append]⟩

/-- What every check keeps is kept by checks in succession. -/
theorem keeps {I : Verified → Prop} (hI : ∀ known p, I known → I (known.check p).2)
    (h : verified.Grows verified') (hv : I verified) : I verified' := by
  obtain ⟨ps, rfl⟩ := h
  induction ps generalizing verified with
  | nil => exact hv
  | cons p ps ih => exact ih (hI verified p hv)

theorem sound (h : verified.Grows verified') (hv : verified.Sound) : verified'.Sound :=
  h.keeps (I := Sound) (fun _ p hknown => hknown.snd_check p) hv

end Grows

theorem grows_attempt (verified : Verified) (p : Pattern) (t : Text) :
    verified.Grows (verified.attempt p t).2 := by
  rw [attempt_eq]
  exact ⟨[p], rfl⟩

theorem grows_firstFinding (verified : Verified) (t : Text) (candidates : List (Text × Pattern)) :
    verified.Grows (verified.firstFinding t candidates).2 := by
  induction candidates generalizing verified with
  | nil => exact .refl verified
  | cons candidate rest ih =>
    obtain ⟨rule, p⟩ := candidate
    have hattempt := verified.grows_attempt p t
    simp only [Verified.firstFinding]
    split <;> rename_i heq <;> rw [heq] at hattempt
    · exact hattempt.trans (ih _)
    · exact hattempt
    · exact hattempt

-- ---------------------------------------------------------------------------
-- Candidates
-- ---------------------------------------------------------------------------

/-- The finding is the one without a memory, and what is remembered afterwards is anchored. -/
theorem Sound.firstFinding (h : verified.Sound) (t : Text) (candidates : List (Text × Pattern)) :
    (verified.firstFinding t candidates).1 = Finding.first t candidates ∧
      (verified.firstFinding t candidates).2.Sound := by
  induction candidates generalizing verified with
  | nil => exact ⟨rfl, h⟩
  | cons candidate rest ih =>
    obtain ⟨rule, p⟩ := candidate
    have hfst := h.fst_attempt p t
    have hsnd := h.snd_attempt p t
    simp only [Verified.firstFinding, Finding.first]
    -- the trial decides both, so its three answers are taken together
    rcases hattempt : verified.attempt p t with ⟨trial, remembered⟩
    rw [hattempt] at hfst hsnd
    rw [← hfst]
    cases trial with
    | missed => exact ih hsnd
    | refused complaint => exact ⟨rfl, hsnd⟩
    | matched m => exact ⟨rfl, hsnd⟩

theorem text_firstFinding {rule : Text} {m : Pattern.Match} {remembered : Verified}
    (h : verified.firstFinding t candidates = (.found rule m, remembered)) :
    m.text <+: t ∧ m.text ≠ [] ∧ m.start = 0 := by
  induction candidates generalizing verified with
  | nil => cases h
  | cons candidate rest ih =>
    simp only [firstFinding] at h
    split at h
    · exact ih h
    · cases h
    · rename_i hattempt
      cases h
      have htake : candidate.2.take t = .matched m := by
        have hfst := congrArg Prod.fst hattempt
        rw [attempt_eq] at hfst
        dsimp only at hfst
        split at hfst
        · exact hfst
        · cases hfst
      obtain ⟨htext, hne, hstart⟩ := Pattern.text_take htake
      exact ⟨htext ▸ List.take_prefix _ _, hne, hstart⟩

end Verified

namespace Finding

variable {t : Text} {candidates : List (Text × Pattern)}

theorem first_eq_nothing_iff :
    first t candidates = .nothing ↔ ∀ c ∈ candidates, c.2.trial t = .missed := by
  induction candidates with
  | nil => simp [first]
  | cons candidate rest ih =>
    obtain ⟨rule, p⟩ := candidate
    cases htrial : p.trial t with
    | missed => simp [first, htrial, ih]
    | refused complaint => simp [first, htrial]
    | matched m => simp [first, htrial]

end Finding

namespace Pattern

variable {p : Pattern} {t : Text}

theorem matchStart_of_trial (h : p.trial t = .missed) : p.matchStart? t = none := by
  unfold trial at h
  split at h
  · unfold Pattern.take at h
    split at h
    · assumption
    · split at h <;> cases h
  · cases h

end Pattern

theorem RuleTable.matchStart_of_first {table : RuleTable} {t : Text}
    (h : Finding.first t table.candidates = .nothing) :
    ∀ r ∈ table.rules, ∀ p ∈ r.patterns, p.matchStart? t = none := by
  intro r hr p hp
  refine Pattern.matchStart_of_trial (Finding.first_eq_nothing_iff.mp h (r.name, p) ?_)
  exact List.mem_flatMap.mpr ⟨r, hr, List.mem_map_of_mem hp⟩

end PullLexer
