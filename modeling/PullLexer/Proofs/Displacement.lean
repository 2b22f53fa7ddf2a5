import PullLexer.Proofs.Simulation

/-!
# A text consumed before

Two lexers that build plain tokens, one of which consumed a text before and has
otherwise come to the same, are in step (`Displaced.simulation`): what the one
makes lies as much further on as that text is long. Patterns see the text ahead
alone, whatever they say about the text before it.
-/

namespace PullLexer

open List (Forall₂)

/-- The same, `n` characters further on. -/
def Lexeme.displaced (n : Nat) (l : Lexeme) : Lexeme := { l with index := l.index + n }

def Token.displaced {α : Type} (n : Nat) (t : Token α) : Token α :=
  { t with lexeme := t.lexeme.displaced n, start := t.start + n, stop := t.stop + n }

theorem Lexeme.stop_displaced (n : Nat) (l : Lexeme) : (l.displaced n).stop = l.stop + n := by
  simp only [displaced, stop]
  omega

theorem Lexeme.displaced_ofMatch (n : Nat) (m : Pattern.Match) (index : Int) :
    (ofMatch m index).displaced n = ofMatch m (index + n) := by
  simp only [displaced, ofMatch, Lexeme.mk.injEq, true_and, and_true]
  omega

theorem Token.plain_displaced (n : Nat) (rule : Text) (l : Lexeme) :
    plain rule (l.displaced n) = (plain rule l).displaced n := by
  simp only [plain, displaced, Lexeme.stop_displaced]
  rfl

variable {ω τ : Type} [TokenLike τ]

/-- The items stand for the same plain token, `n` characters further on, and are numbered as if
`issued` others had been built before. -/
def Item.Displaced (n issued : Nat) (item item' : Item τ) : Prop :=
  ∃ token : Token Text, item.value = TokenLike.ofToken token ∧
    item'.value = TokenLike.ofToken (token.displaced n) ∧
    item'.serial = item.serial.map (· + issued) ∧ item.shared = none ∧ item'.shared = none

def Entry.Displaced (n issued : Nat) : Entry τ → Entry τ → Prop :=
  Entry.Alike (Item.Displaced n issued) fun l l' => l' = l.displaced n

theorem Item.isSame_displaced {n issued : Nat} {a a' b b' : Item τ} (ha : a.Displaced n issued a')
    (hb : b.Displaced n issued b') : a'.isSame b' = a.isSame b := by
  obtain ⟨-, -, -, hserial, hshared, hshared'⟩ := ha
  obtain ⟨-, -, -, hserial', hother, hother'⟩ := hb
  simp only [isSame, hshared, hshared', hother, hother', hserial, hserial']
  cases a.serial <;> cases b.serial <;> simp

theorem Item.passesForAbsent_displaced {n issued : Nat} {a a' : Item τ}
    (h : a.Displaced n issued a') : a'.passesForAbsent = a.passesForAbsent := by
  obtain ⟨token, hvalue, hvalue', -⟩ := h
  simp only [passesForAbsent, hvalue, hvalue', TokenLike.passesForAbsent_ofToken]

namespace Lexer

variable {gone : Text} {issued : Nat} {synced : Prop} {s t : Lexer ω τ} {e e' : Entry τ}

/-- The second lexer consumed a text before, and has otherwise come to the same. What they remember
of advances corresponds as soon as there was one. -/
structure Displaced (gone : Text) (issued : Nat) (synced : Prop) (s t : Lexer ω τ) : Prop where
  position_eq : t.position = s.position + gone.length
  remaining_eq : t.remaining = s.remaining
  consumed_eq : t.consumed = gone ++ s.consumed
  queue : Forall₂ (Entry.Displaced gone.length issued) s.queue t.queue
  rules_eq : t.rules = s.rules
  builder_eq : s.builder = .standard ∧ t.builder = .standard
  settings_eq : t.settings = s.settings
  memory_eq : t.memory = s.memory
  sound : s.verified.Sound ∧ t.verified.Sound
  issued_eq : t.issued = s.issued + issued
  advanced : synced → Option.Rel (Entry.Displaced gone.length issued) s.advanced t.advanced

namespace Displaced

theorem headOffset_eq (h : Displaced gone issued synced s t) : t.headOffset = s.headOffset := by
  have hlast := rel_getElem? h.queue (s.queue.length - 1)
  have hlength := h.queue.length_eq
  unfold headOffset
  rw [List.getLast?_eq_getElem?, List.getLast?_eq_getElem?, ← hlength]
  generalize s.queue[s.queue.length - 1]? = last, t.queue[s.queue.length - 1]? = last' at hlast ⊢
  cases hlast with
  | none => rfl
  | some he =>
    simp only [he.2, Lexeme.stop_displaced, h.position_eq]
    omega

theorem head_eq (h : Displaced gone issued synced s t) : t.head = s.head + gone.length := by
  rw [head, head, h.headOffset_eq, h.position_eq]
  omega

theorem ahead_eq (h : Displaced gone issued synced s t) : t.ahead = s.ahead := by
  rw [ahead, ahead, h.headOffset_eq, h.remaining_eq]

theorem exhausted_iff (h : Displaced gone issued synced s t) : t.exhausted ↔ s.exhausted := by
  rw [exhausted, exhausted, h.headOffset_eq, h.remaining_eq]

theorem excerpt_eq (h : Displaced gone issued synced s t) : t.excerpt = s.excerpt := by
  rw [excerpt, excerpt, h.ahead_eq, h.settings_eq]

theorem failureAt_eq (h : Displaced gone issued synced s t) (rule : Text) (complaint : Complaint) :
    t.failureAt rule complaint = s.failureAt rule complaint := by
  rw [failureAt, failureAt, h.excerpt_eq]

theorem finds {finding : Finding} {verified : Verified} (h : Displaced gone issued synced s t)
    (hfinds : s.Finds finding verified) :
    verified.Sound ∧ ∃ verified', t.Finds finding verified' ∧ verified'.Sound :=
  hfinds.transfer h.sound.1 h.sound.2 h.exhausted_iff.mp (by rw [h.ahead_eq, h.rules_eq])

theorem produce (h : Displaced gone issued synced s t) :
    Outcome.Alike (Displaced gone issued synced)
      (Option.Rel (Entry.Displaced gone.length issued)) (· = ·) s.produce t.produce := by
  have step := produceStep s
  generalize s.produce = made at step ⊢
  cases step with
  | exhausted hend =>
    rw [(ProduceStep.exhausted (h.exhausted_iff.mpr hend)).produce_eq]
    exact .ok .none h
  | unmatched hfinds hexcerpt =>
    obtain ⟨hs, verified', hfinds', ht⟩ := h.finds hfinds
    rw [(ProduceStep.unmatched hfinds' (h.excerpt_eq.trans hexcerpt)).produce_eq]
    exact .ok .none { h with sound := ⟨hs, ht⟩ }
  | unexcerpted hfinds hexcerpt =>
    obtain ⟨hs, verified', hfinds', ht⟩ := h.finds hfinds
    rw [(ProduceStep.unexcerpted hfinds' (h.excerpt_eq.trans hexcerpt)).produce_eq]
    exact .error rfl { h with sound := ⟨hs, ht⟩ }
  | refused hfinds =>
    obtain ⟨hs, verified', hfinds', ht⟩ := h.finds hfinds
    rw [(ProduceStep.refused hfinds').produce_eq, h.failureAt_eq]
    exact .error rfl { h with sound := ⟨hs, ht⟩ }
  | raised hfinds hbuild =>
    rw [h.builder_eq.1] at hbuild
    cases hbuild
  | nothingBuilt hfinds hbuild =>
    rw [h.builder_eq.1] at hbuild
    cases hbuild
  | @made verified rule m value memory hfinds hbuild =>
    obtain ⟨hs, verified', hfinds', ht⟩ := h.finds hfinds
    rw [h.builder_eq.1] at hbuild
    cases hbuild
    have hbuild' : t.builder.build rule (.ofMatch m t.head) t.memory =
        (.ok (some (TokenLike.ofToken (.plain rule (.ofMatch m t.head)))), t.memory) := by
      rw [h.builder_eq.2]
      rfl
    rw [(ProduceStep.made hfinds' hbuild').produce_eq]
    -- the heads lie apart by what was consumed, and so do the lexemes put there
    have hlexeme : Lexeme.ofMatch m t.head = (Lexeme.ofMatch m s.head).displaced gone.length := by
      rw [Lexeme.displaced_ofMatch, h.head_eq]
    refine .ok (.some ⟨⟨.plain rule (.ofMatch m s.head), rfl, ?_, ?_, ?_, ?_⟩, hlexeme⟩)
      { h with sound := ⟨hs, ht⟩, issued_eq := ?_ }
    · rw [← Token.plain_displaced, ← hlexeme]
    · simp only [h.issued_eq, Option.map_some]
    · simp only [h.builder_eq.1]
      rfl
    · simp only [h.builder_eq.2]
      rfl
    · simp only [h.issued_eq]
      omega

theorem matchHere (h : Displaced gone issued synced s t) (p : Pattern) :
    Outcome.Alike (Displaced gone issued synced)
      (Option.Rel fun l l' => l' = l.displaced gone.length) (· = ·)
      (s.matchHere p) (t.matchHere p) := by
  have hs := h.sound.1.snd_attempt p s.remaining
  have ht := h.sound.2.snd_attempt p s.remaining
  have htrial := (h.sound.2.fst_attempt p s.remaining).trans
    (h.sound.1.fst_attempt p s.remaining).symm
  unfold Lexer.matchHere
  rw [h.remaining_eq]
  split
  · exact .ok .none h
  · generalize s.verified.attempt p s.remaining = attempt,
      t.verified.attempt p s.remaining = attempt' at hs ht htrial ⊢
    obtain ⟨_, verified⟩ := attempt
    obtain ⟨trial, verified'⟩ := attempt'
    obtain rfl := htrial
    cases trial with
    | missed => exact .ok .none { h with remaining_eq := rfl, sound := ⟨hs, ht⟩ }
    | refused complaint => exact .error rfl { h with remaining_eq := rfl, sound := ⟨hs, ht⟩ }
    | matched m =>
      refine .ok (.some ?_) { h with remaining_eq := rfl, sound := ⟨hs, ht⟩ }
      rw [Lexeme.displaced_ofMatch, h.position_eq]
      simp

theorem cut (h : Displaced gone issued synced s t) (length : Nat) (given : Option Text) :
    Displaced gone issued synced (s.cut length given).2 (t.cut length given).2 :=
  { h with
    position_eq := by
      simp only [Lexer.cut, h.remaining_eq, h.position_eq]
      omega
    remaining_eq := by simp only [Lexer.cut, h.remaining_eq]
    consumed_eq := by simp only [Lexer.cut, h.consumed_eq, h.remaining_eq, List.append_assoc]
    advanced := fun _ => .none }

theorem pass (h : Displaced gone issued synced s t)
    (he : Entry.Displaced gone.length issued e e') :
    Displaced gone issued synced (s.pass e) (t.pass e') := by
  have hreach : t.reach e' = s.reach e := by
    simp only [reach, he.2, Lexeme.stop_displaced, h.position_eq]
    omega
  have htext : e'.lexeme.text = e.lexeme.text := by rw [he.2, Lexeme.displaced]
  unfold Lexer.pass
  rw [hreach, htext]
  exact h.cut _ _

theorem simulation (gone : Text) (issued : Nat) (synced : Prop) :
    Simulation (Displaced (ω := ω) (τ := τ) gone issued synced) (Item.Displaced gone.length issued)
      (fun l l' => l' = l.displaced gone.length) (· = ·) where
  failure _ := rfl
  ends h := by rw [h]
  absent := Item.passesForAbsent_displaced
  queue h := h.queue
  remaining_eq h := h.remaining_eq
  memory_eq h := h.memory_eq
  produce h := h.produce
  matchHere p h := h.matchHere p
  requeue h hes := { h with queue := hes }
  remind h hmade := { h with advanced := fun _ => hmade }
  remember _ h := { h with memory_eq := rfl }
  write _ h := { h with }
  pass h he := h.pass he
  cut length given h := h.cut length given

theorem advance (h : Displaced gone issued synced s t) :
    Outcome.Alike (Displaced gone issued synced) (Option.Rel (Item.Displaced gone.length issued))
        (· = ·) s.advance t.advance ∧
      (s.advance.1.isOk → Displaced gone issued True s.advance.2 t.advance.2) := by
  refine ⟨(simulation gone issued synced).advance h, ?_⟩
  have hmade := h.produce
  unfold Lexer.advance
  generalize s.produce = made, t.produce = made' at hmade ⊢
  cases hmade with
  | error => exact fun hok => nomatch hok
  | ok hentry hstate => exact fun _ => { hstate with advanced := fun _ => hentry }

theorem lexemeUnder (h : Displaced gone issued True s t) {item item' : Item τ}
    (hitem : item.Displaced gone.length issued item') :
    ∃ l, s.lexemeUnder item none = .ok l ∧
      t.lexemeUnder item' none = .ok (l.displaced gone.length) := by
  have hadvanced := h.advanced trivial
  have ⟨token, hvalue, hvalue', _⟩ := hitem
  simp only [Lexer.lexemeUnder, lexemeFor, hvalue, hvalue', TokenLike.lexeme_ofToken]
  generalize s.advanced = remembered, t.advanced = remembered' at hadvanced ⊢
  cases hadvanced with
  | none => exact ⟨token.lexeme, rfl, rfl⟩
  | @some e e' he =>
    simp only [Item.isSame_displaced he.1 hitem]
    -- a token that is not remembered any more has the lexeme that it carries
    split
    · exact ⟨e.lexeme, rfl, by rw [he.2]⟩
    · exact ⟨token.lexeme, rfl, rfl⟩

theorem enqueueIfAny (h : Displaced gone issued synced s t) {item item' : Option (Item τ)}
    (hitem : Option.Rel (Item.Displaced gone.length issued) item item')
    (hsynced : item.isSome → synced) :
    Outcome.Alike (Displaced gone issued synced) (Option.Rel (Item.Displaced gone.length issued))
      (· = ·) (s.enqueueIfAny item none) (t.enqueueIfAny item' none) := by
  cases hitem with
  | none => exact .ok .none h
  | some hitem =>
    have hdone : Displaced gone issued True s t :=
      { h with advanced := fun _ => h.advanced (hsynced rfl) }
    obtain ⟨l, hl, hl'⟩ := hdone.lexemeUnder hitem
    simp only [Lexer.enqueueIfAny, enqueue, hl, hl']
    exact .ok (.some hitem) ((simulation gone issued synced).push h ⟨hitem, rfl⟩)

end Displaced

end Lexer

end PullLexer
