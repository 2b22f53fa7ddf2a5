import PullLexer.Proofs.Reentry

/-!
# Consuming under a given text

A text that the caller gives is not held against the input, and with it the
count of characters is believed too. Where the text given is the one at the
cursor, the position alone can tell (`Lexer.consumeBy_remaining`): it is moved
by the count past the end of the input, while without a text it stops there.

Other than that the cursor stays within the input, whatever the texts given
(`Lexer.Confined`), as long as every token is queued under a lexeme that ends
there and a text is given for no more characters than remain.
-/

namespace PullLexer

namespace Lexer

variable {ω τ : Type} {s s' : Lexer ω τ} {e : Entry τ} {input : Text}

-- ---------------------------------------------------------------------------
-- With the text and without
-- ---------------------------------------------------------------------------

theorem consumeBy_int_null (s : Lexer ω τ) (n : Nat) :
    s.consumeBy (.int n) .null = (.ok (s.consume n none).1, (s.consume n none).2) := rfl

theorem consumeBy_int_text (s : Lexer ω τ) (n : Nat) (t : Text) :
    s.consumeBy (.int n) (.text t) = (.ok (s.consume n (some t)).1, (s.consume n (some t)).2) := rfl

theorem consumeBy_null (s : Lexer ω τ) (n : Nat) :
    ∃ journal, s.consumeBy (.int n) .null =
      (.ok (s.remaining.take n),
        { s with
          queue := []
          advanced := none
          journal
          consumed := s.consumed ++ s.remaining.take n
          position := s.position + min n s.remaining.length
          remaining := s.remaining.drop n }) := by
  obtain ⟨journal, hdrop⟩ := discardQueue_frame s
  exact ⟨journal, by rw [consumeBy_int_null, consume, hdrop, cut_none]⟩

theorem consumeBy_remaining (s : Lexer ω τ) (n : Nat) :
    s.consumeBy (.int n) (.text (s.remaining.take n)) =
      ((s.consumeBy (.int n) .null).1,
        { (s.consumeBy (.int n) .null).2 with position := s.position + n }) := by
  obtain ⟨journal, hdrop⟩ := discardQueue_frame s
  rw [consumeBy_int_null, consumeBy_int_text, consume, consume, hdrop, cut_none]
  rfl

theorem consumeBy_remaining_eq_iff (s : Lexer ω τ) (n : Nat) :
    s.consumeBy (.int n) (.text (s.remaining.take n)) = s.consumeBy (.int n) .null ↔
      n ≤ s.remaining.length := by
  obtain ⟨journal, hplain⟩ := consumeBy_null s n
  rw [consumeBy_remaining, hplain]
  constructor
  · intro h
    have hposition : s.position + n = s.position + min n s.remaining.length :=
      congrArg (·.2.position) h
    omega
  · intro hle
    rw [Nat.min_eq_left hle]

-- ---------------------------------------------------------------------------
-- Within the input
-- ---------------------------------------------------------------------------

/-- The cursor is as far from the end of the input as there is text remaining, and no queued token
ends past it. -/
structure Confined (input : Text) (s : Lexer ω τ) : Prop where
  input_eq : s.input = input
  position_add : s.position + s.remaining.length = input.length
  stop_le : ∀ e ∈ s.queue, e.lexeme.stop ≤ input.length

namespace Confined

theorem frame (h : Confined input s) (rules : RuleTable) (verified : Verified)
    (advanced : Option (Entry τ)) (issued : Nat) (journal : Journal) (memory : ω) :
    Confined input { s with rules, verified, advanced, issued, journal, memory } :=
  ⟨h.input_eq, h.position_add, h.stop_le⟩

theorem keep (h : Confined input s) {queue : List (Entry τ)} (hsub : queue ⊆ s.queue)
    (advanced : Option (Entry τ)) (journal : Journal) :
    Confined input { s with queue, advanced, journal } :=
  ⟨h.input_eq, h.position_add, fun e hmem => h.stop_le e (hsub hmem)⟩

theorem cut (h : Confined input s) {length : Nat} {given : Option Text}
    (hgiven : given.isSome → length ≤ s.remaining.length) :
    Confined input (s.cut length given).2 := by
  refine ⟨h.input_eq, ?_, h.stop_le⟩
  have hsum := h.position_add
  cases given with
  | none =>
    rw [cut_none]
    simp only [List.length_drop]
    omega
  | some t =>
    have hle := hgiven rfl
    simp only [Lexer.cut, Option.isSome_some, if_true, List.length_drop]
    omega

theorem pass (h : Confined input s) (he : e.lexeme.stop ≤ input.length) :
    Confined input (s.pass e) := by
  have hsum := h.position_add
  refine h.cut fun _ => ?_
  unfold reach
  omega

theorem push (h : Confined input s) (he : e.lexeme.stop ≤ input.length) :
    Confined input (s.push e) := by
  refine ⟨h.input_eq, h.position_add, fun other hmem => ?_⟩
  rcases List.mem_append.mp hmem with hmem | hmem
  · exact h.stop_le other hmem
  · exact List.mem_singleton.mp hmem ▸ he

theorem pop {rest : List (Entry τ)} (h : Confined input s) (hq : s.queue = e :: rest) :
    e.lexeme.stop ≤ input.length ∧
      Confined input ({ s with queue := rest, advanced := none } : Lexer ω τ) :=
  ⟨h.stop_le e (hq ▸ List.mem_cons_self), h.keep (hq ▸ List.subset_cons_self e rest) none s.journal⟩

theorem produce {made : Except Failure (Option (Entry τ))} (h : Confined input s)
    (hp : s.produce = (made, s')) : Confined input s' := by
  obtain ⟨verified, memory, issued, journal, rfl, -⟩ := produce_frame hp
  exact h.frame s.rules verified s.advanced issued journal memory

/-- A token is made of the text from the head on, which is no longer than the way from there to the
end of the input, or to the cursor if the head is before it. -/
theorem produced (h : Confined input s) (hp : s.produce = (.ok (some e), s')) :
    Confined input s' ∧ e.lexeme.stop ≤ input.length := by
  refine ⟨h.produce hp, ?_⟩
  have hsum := h.position_add
  obtain ⟨hindex, htext, hne⟩ := lexeme_produce hp
  have hpos := List.length_pos_iff.mpr hne
  have hle := htext.length_le
  rw [Lexeme.stop, hindex, head]
  rw [ahead, Text.after] at hle
  split at hle <;> rw [List.length_drop] at hle <;> omega

theorem sustained (input : Text) : Sustained (ω := ω) (τ := τ) fun _ s => Confined input s where
  remember memory h := h.frame _ _ _ _ _ memory
  forget h := h.frame _ _ none _ _ _
  produce h hp := h.produce hp
  push h hp := (h.produced hp).1.push (h.produced hp).2
  pass h _ hp := (h.produced hp).1.pass (h.produced hp).2
  serve h hq := (h.pop hq).2.pass (h.pop hq).1

end Confined

end Lexer

namespace Operation

open Lexer

variable {ω τ : Type} {s : Lexer ω τ}

theorem retracts_confined (permitted : Lexer ω τ → Operation ω τ → Prop) (input : Text) :
    Retracts permitted (Confined input) := by
  intro _ _ _ r _ _ v _ _ _ h
  exact h.keep (List.take_subset r.queue.length v.queue) v.advanced v.journal

variable [TokenLike τ]

/-- Tokens are queued under lexemes that end within the input, and a text is given to be consumed
for no more characters than remain, whatever the text. Guards may work on the lexer. -/
def Confines (s : Lexer ω τ) : Operation ω τ → Prop
  | .enqueue (some item) given => ∀ l, s.lexemeUnder item given = .ok l → l.stop ≤ s.input.length
  | .consume length (.text _) => ∀ n, length.count = .ok n → n ≤ s.remaining.length
  | _ => True

theorem upheld_confined (input : Text) :
    Upheld (fun s operation => Confines s operation ∧ operation.Unguarded)
      (Confined (ω := ω) (τ := τ) input) where
  moves := Confined.sustained input
  guard h := h.2.elim
  advance {_ _ made} h hp := (h.produce hp).frame _ _ made _ _ _
  pop h hq := (h.pop hq).2
  enqueue h hop hl := h.push (h.input_eq ▸ hop.1 _ hl)
  discard journal h := h.keep (List.nil_subset _) none journal
  cut _ h _ := h.cut nofun
  cutGiven {s _ n _} journal h hop hcount :=
    (h.keep (List.nil_subset _) s.advanced journal).cut fun _ => hop.1 n hcount
  register rules journal h := h.frame rules _ _ _ journal _
  verify verified h _ := h.frame _ verified _ _ _ _

/-- In every state and for every count, the text at the cursor is consumed when it is given as when
it is not. With it the position moves by the whole count, and so all comes out the same up to the
end of the input and not past it. The position stays within the input where no text is given, in
every state that client code reaches by queueing tokens that end there and giving texts for no more
characters than remain. -/
theorem true_text_consumed (input : Text) (rules : RuleTable) (builder : Builder ω τ)
    (settings : Settings ω τ) (memory : ω) (s : Lexer ω τ) (n : Nat) :
    let plain := s.consumeBy (.int n) .null
    let given := s.consumeBy (.int n) (.text (s.remaining.take n))
    plain.1 = .ok (s.remaining.take n) ∧
      given = (plain.1, { plain.2 with position := s.position + n }) ∧
      (given = plain ↔ n ≤ s.remaining.length) ∧
      (Meets Confines (start input rules builder settings memory) s →
        plain.2.position ≤ input.length ∧
          (given.2.position ≤ input.length ↔ n ≤ s.remaining.length)) := by
  intro plain given
  obtain ⟨journal, hplain⟩ := consumeBy_null s n
  have hgiven : given.2.position = s.position + n := by
    rw [show given = _ from consumeBy_remaining s n]
  refine ⟨by rw [show plain = _ from hplain], consumeBy_remaining s n,
    consumeBy_remaining_eq_iff s n, fun hmet => ?_⟩
  have hs : Confined input s :=
    hmet.keeps (upheld_confined input) (retracts_confined _ input)
      ⟨rfl, Nat.zero_add _, fun _ hmem => nomatch hmem⟩
  have hsum := hs.position_add
  rw [hgiven, show plain = _ from hplain]
  dsimp only
  omega

/-- Another text was given to be consumed before, two tokens are queued, one of them behind the
cursor, and twice as much is consumed as remains. -/
theorem true_text_consumed_past_end :
    let token : Item (Token Text) := { value := .plain "W".toList ⟨"ab".toList, 0, [], []⟩ }
    let rules : RuleTable := .ofSources [("letter", "^[a-z]")]
    let s₀ : Lexer Unit (Token Text) := start "abcd".toList rules .standard .default ()
    let s := run s₀ [.consume (.int 2) (.text "xyz".toList), .enqueue (some token) none,
      .lookahead (.int 2)]
    let plain := s.consumeBy (.int 4) .null
    let given := s.consumeBy (.int 4) (.text (s.remaining.take 4))
    Meets Confines s₀ s ∧ s.queue.length = 2 ∧ s.remaining = "cd".toList ∧
      plain.1 = .ok (s.remaining.take 4) ∧
      given = (plain.1, { plain.2 with position := s.position + 4 }) ∧
      (given = plain ↔ 4 ≤ s.remaining.length) ∧
      plain.2.position ≤ 4 ∧ (given.2.position ≤ 4 ↔ 4 ≤ s.remaining.length) := by
  intro token rules s₀ s plain given
  have hmet : Meets Confines s₀ s := by
    refine .between
      (Works.idle.of_along ⟨⟨?_, trivial⟩, ⟨?_, trivial⟩, ⟨trivial, trivial⟩, trivial⟩)
    · rintro n ⟨⟩
      decide
    · rintro l ⟨⟩
      decide
  obtain ⟨htext, hgiven, hiff, hwithin⟩ :=
    true_text_consumed "abcd".toList rules .standard .default () s 4
  exact ⟨hmet, by decide +kernel, by decide +kernel, htext, hgiven, hiff, hwithin hmet⟩

/-- More is consumed than remains. The text at the cursor is the same whether it is given or not,
but when it is given the position comes to lie past the end of the input. -/
theorem position_past_end_under_true_text :
    let s : Lexer Unit (Token Text) := start "ab".toList .empty .standard .default ()
    let plain := s.consumeBy (.int 5) .null
    let given := s.consumeBy (.int 5) (.text (s.remaining.take 5))
    given.1 = plain.1 ∧ given.2.remaining = plain.2.remaining ∧
      given.2.consumed = plain.2.consumed ∧ plain.2.position = 2 ∧ given.2.position = 5 ∧
      s.input.length = 2 :=
  ⟨rfl, rfl, rfl, rfl, rfl, rfl⟩

end Operation

end PullLexer
