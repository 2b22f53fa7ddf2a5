import PullLexer.Proofs.Advance

/-!
# Matching a value at the cursor

Anything may be handed over to be matched. What is no pattern over texts, or one
that is not anchored, is refused as such, whichever patterns were checked
before. An anchored pattern misses, or matches the empty text and is refused for
that, or gives a lexeme at the cursor (`MatchAnswer`). Two kinds of values that
are no patterns over texts are not examined, so that matching them fails
otherwise: the absent value passes for one known to be anchored, and the source
of a pattern over bytes cannot be searched for an anchor
(`Operation.match_refuses_invalid`).
-/

namespace PullLexer

/-- No pattern over texts, or one that is not anchored. -/
def Value.Unanchored (v : Value) : Prop := ∀ p, v = .pattern p → p.isAnchored = false

/-- Neither the absent value nor a pattern over bytes. -/
def Value.Examined (v : Value) : Prop := v ≠ .null ∧ ∀ source, v ≠ .bytesPattern source

/-- What an anchored pattern answers on the text from this position on. -/
inductive MatchAnswer (p : Pattern) (t : Text) (position : Nat) :
    Except Failure (Option Lexeme) → Prop
  | missed : p.matchStart? t = none → MatchAnswer p t position (.ok none)
  | empty {m : Pattern.Match} : p.matchStart? t = some m → m.text = [] →
      MatchAnswer p t position (.error (.ofComplaint (.emptyMatch p.source)))
  | matched {m : Pattern.Match} {l : Lexeme} : p.matchStart? t = some m → m.text ≠ [] →
      l.text = m.text → l.text <+: t → l.index = position → l.groups = m.groups →
      l.named = m.named → MatchAnswer p t position (.ok (some l))

theorem MatchAnswer.kind_of_error {p : Pattern} {t : Text} {position : Nat} {f : Failure}
    (h : MatchAnswer p t position (.error f)) : f.kind? = some .unsafeMatch := by
  cases h
  rfl

namespace Lexer

variable {ω τ : Type} {s : Lexer ω τ} {p : Pattern} {v : Value}

theorem matchBy_of_remaining (hremains : s.remaining ≠ []) (v : Value) :
    s.matchBy v =
      match v with
      | .pattern p => s.matchHere p
      | .null => (.error (.noMember Value.null.qualifiedName "match".toList), s)
      | .bytesPattern _ => (.error .bytesSubject, s)
      | v => (.error (.ofComplaint (.notPattern v.typeName)), s) := by
  unfold matchBy
  exact if_neg (by simpa using hremains)

theorem fst_matchBy_pattern (hsound : s.verified.Sound) (hremains : s.remaining ≠ []) :
    (s.matchBy (.pattern p)).1 =
      match p.trial s.remaining with
      | .missed => .ok none
      | .refused complaint => .error (.ofComplaint complaint)
      | .matched m => .ok (some (.ofMatch m s.position)) := by
  have hhere : s.matchBy (.pattern p) = s.matchHere p := matchBy_of_remaining hremains _
  rw [hhere, matchHere, if_neg (by simpa using hremains), ← hsound.fst_attempt]
  rcases s.verified.attempt p s.remaining with ⟨_ | _ | _, verified⟩ <;> rfl

theorem matchAnswer_of_isAnchored (hsound : s.verified.Sound) (hremains : s.remaining ≠ [])
    (ha : p.isAnchored = true) :
    MatchAnswer p s.remaining s.position (s.matchBy (.pattern p)).1 := by
  rw [fst_matchBy_pattern hsound hremains]
  cases hm : p.matchStart? s.remaining with
  | none =>
    have hmissed : p.trial s.remaining = .missed :=
      Pattern.trial_eq_missed_iff.mpr (by simp [Pattern.Decides, ha, hm])
    rw [hmissed]
    exact .missed hm
  | some m =>
    rw [Pattern.trial_of_matchStart ha hm]
    split_ifs with hempty
    · exact .empty hm hempty
    · have hprefix : m.text <+: s.remaining :=
        Pattern.text_matchStart hm ▸ List.take_prefix _ _
      have hindex : (s.position : Int) + m.start = s.position := by
        rw [Pattern.start_matchStart hm]
        omega
      exact .matched hm hempty rfl hprefix hindex rfl rfl

/-- An examined value is refused as no pattern, or it is an anchored pattern and answers as one. -/
theorem matchBy_examined (hsound : s.verified.Sound) (hremains : s.remaining ≠ [])
    (hexamined : v.Examined) :
    (v.Unanchored ∧ ∃ f, (s.matchBy v).1 = .error f ∧ f.kind? = some .invalidPattern) ∨
      ∃ p, v = .pattern p ∧ p.isAnchored = true ∧
        MatchAnswer p s.remaining s.position (s.matchBy v).1 := by
  cases v with
  | null => exact absurd rfl hexamined.1
  | bytesPattern source => exact absurd rfl (hexamined.2 source)
  | pattern p =>
    cases ha : p.isAnchored with
    | true => exact .inr ⟨p, rfl, ha, matchAnswer_of_isAnchored hsound hremains ha⟩
    | false =>
      refine .inl ⟨?_, ?_⟩
      · rintro _ ⟨⟩
        exact ha
      · rw [fst_matchBy_pattern hsound hremains, Pattern.trial_of_not_isAnchored ha]
        exact ⟨_, rfl, rfl⟩
  | _ =>
    refine .inl ⟨fun p h => (nomatch h), ?_⟩
    rw [matchBy_of_remaining hremains]
    exact ⟨_, rfl, rfl⟩

theorem refused_iff_unanchored (hsound : s.verified.Sound) (hremains : s.remaining ≠ [])
    (hexamined : v.Examined) :
    (∃ f, (s.matchBy v).1 = .error f ∧ f.kind? = some .invalidPattern) ↔ v.Unanchored := by
  rcases matchBy_examined hsound hremains hexamined with
    ⟨hunanchored, hrefused⟩ | ⟨p, rfl, ha, hanswer⟩
  · exact iff_of_true hrefused hunanchored
  · refine iff_of_false ?_ fun h => ?_
    · rintro ⟨f, hf, hkind⟩
      cases hkind.symm.trans (hf ▸ hanswer).kind_of_error
    · cases ha.symm.trans (h p rfl)

theorem kind_of_matchBy_error (hsound : s.verified.Sound) (hremains : s.remaining ≠ [])
    (hexamined : v.Examined) {f : Failure} (hf : (s.matchBy v).1 = .error f) :
    f.kind? = some .invalidPattern ∨ f.kind? = some .unsafeMatch := by
  rcases matchBy_examined hsound hremains hexamined with
    ⟨-, g, hg, hkind⟩ | ⟨p, rfl, -, hanswer⟩
  · cases hf.symm.trans hg
    exact .inl hkind
  · exact .inr (hf ▸ hanswer).kind_of_error

end Lexer

namespace Operation

open Lexer

variable {ω τ : Type} [TokenLike τ] {s : Lexer ω τ}

/-- Wherever client code has brought a lexer with text remaining, whichever patterns it matched or
registered: of the values that are examined exactly those are refused as no patterns that are none
over texts or not anchored, an anchored pattern answers as if it was the first to be tried, and no
other failure than that of an empty match is left. The absent value and a pattern over bytes are the
only ones that are not examined, and fail otherwise. -/
theorem match_refuses_invalid (input : Text) (rules : RuleTable) (builder : Builder ω τ)
    (settings : Settings ω τ) (memory : ω)
    (hmet : Meets (fun _ _ => True) (start input rules builder settings memory) s)
    (hremains : s.remaining ≠ []) (v : Value) :
    (v.Examined →
      ((∃ f, (s.matchBy v).1 = .error f ∧ f.kind? = some .invalidPattern) ↔ v.Unanchored) ∧
      ∀ f, (s.matchBy v).1 = .error f →
        f.kind? = some .invalidPattern ∨ f.kind? = some .unsafeMatch) ∧
    (∀ p, v = .pattern p → p.isAnchored = true →
      MatchAnswer p s.remaining s.position (s.matchBy v).1) ∧
    (v = .null → (s.matchBy v).1 = .error (.noMember "NoneType".toList "match".toList)) ∧
    (∀ source, v = .bytesPattern source → (s.matchBy v).1 = .error .bytesSubject) := by
  obtain ⟨-, -, hsound⟩ : Equipped builder settings s :=
    hmet.equipped ⟨rfl, rfl, Verified.sound_nil⟩
  refine ⟨fun hexamined => ⟨refused_iff_unanchored hsound hremains hexamined, fun f hf => ?_⟩,
    ?_, ?_, ?_⟩
  · exact kind_of_matchBy_error hsound hremains hexamined hf
  · rintro p rfl ha
    exact matchAnswer_of_isAnchored hsound hremains ha
  · rintro rfl
    rw [matchBy_of_remaining hremains]
    rfl
  · rintro source rfl
    rw [matchBy_of_remaining hremains]

/-- A pattern that is not anchored, when an anchored one was checked before and is queued under. -/
theorem match_refuses_invalid_after_checks :
    let s₀ : Lexer Unit (Token Text) :=
      start "ab".toList (.ofSources [("A", "^a")]) .standard .default ()
    let read (source : String) : Pattern :=
      (Pattern.compile source.toList .none).toOption.getD default
    let s := run s₀ [.matchBy (.pattern (read "^ab")), .peek]
    let v : Value := .pattern (read "b|^a")
    Meets (fun _ _ => True) s₀ s ∧ s.remaining ≠ [] ∧
      s.verified.map (·.2.source) = ["^a".toList, "^ab".toList] ∧
      (read "b|^a").source = "b|^a".toList ∧ (read "b|^a").isAnchored = false ∧
      (v.Examined →
        ((∃ f, (s.matchBy v).1 = .error f ∧ f.kind? = some .invalidPattern) ↔ v.Unanchored) ∧
        ∀ f, (s.matchBy v).1 = .error f →
          f.kind? = some .invalidPattern ∨ f.kind? = some .unsafeMatch) ∧
      (∀ p, v = .pattern p → p.isAnchored = true →
        MatchAnswer p s.remaining s.position (s.matchBy v).1) ∧
      (v = .null → (s.matchBy v).1 = .error (.noMember "NoneType".toList "match".toList)) ∧
      (∀ source, v = .bytesPattern source → (s.matchBy v).1 = .error .bytesSubject) := by
  intro s₀ read s v
  have hmet : Meets (fun _ _ => True) s₀ s :=
    .between (Works.idle.of_along ⟨⟨trivial, trivial⟩, ⟨trivial, trivial⟩, trivial⟩)
  have hremains : s.remaining ≠ [] := by decide +kernel
  exact ⟨hmet, hremains, by decide +kernel, by decide +kernel, by decide +kernel,
    match_refuses_invalid "ab".toList (.ofSources [("A", "^a")]) .standard .default () hmet
      hremains v⟩

/-- The absent value and a pattern over bytes are no patterns over texts, and matching them fails,
but they are not refused. -/
theorem unexamined_values_not_refused :
    let s : Lexer Unit (Token Text) := start "ab".toList .empty .standard .default ()
    let missing : Failure := .noMember "NoneType".toList "match".toList
    s.remaining ≠ [] ∧
      (Value.null.Unanchored ∧ (s.matchBy .null).1 = .error missing ∧ missing.kind? = none) ∧
      ((Value.bytesPattern "^a".toList).Unanchored ∧
        (s.matchBy (.bytesPattern "^a".toList)).1 = .error .bytesSubject ∧
        Failure.bytesSubject.kind? = none) :=
  ⟨by decide, ⟨fun _ h => (nomatch h), rfl, rfl⟩, ⟨fun _ h => (nomatch h), rfl, rfl⟩⟩

end Operation

end PullLexer
