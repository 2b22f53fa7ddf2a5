import PullLexer.Proofs.Advance
import PullLexer.Proofs.Building

/-!
# Filling the queue by hand

A token that an advance made is remembered, so that queueing it next queues it
under the lexeme it was made of, whatever it carries itself. Advancing and
queueing by turns therefore fills the queue as looking ahead does
(`fillByHand_eq`). Only where no token is made do the two part: looking ahead
stops there, and by hand one goes on to advance in vain.
-/

namespace PullLexer.Lexer

variable {ω τ : Type} [TokenLike τ] {s t : Lexer ω τ} {e : Entry τ} {es : List (Entry τ)}

-- ---------------------------------------------------------------------------
-- Advancing and queueing
-- ---------------------------------------------------------------------------

/-- Makes the next token and queues it without saying under which lexeme. -/
def advanceAndEnqueue (s : Lexer ω τ) : Outcome ω τ (Option (Item τ)) :=
  match s.advance with
  | (.ok item, s) => s.enqueueIfAny item none
  | (.error f, s) => (.error f, s)

/-- Advances and queues by turns so many times, up to the first failure. -/
def fillByHand : (times : Nat) → Lexer ω τ → Outcome ω τ Unit
  | 0, s => (.ok (), s)
  | times + 1, s =>
    match s.advanceAndEnqueue with
    | (.ok _, s) => fillByHand times s
    | (.error f, s) => (.error f, s)

theorem advanceAndEnqueue_of_made (hp : s.produce = (.ok (some e), t)) :
    s.advanceAndEnqueue = (.ok (some e.item), t.push e) := by
  have hsame : e.item.isSame e.item := Item.isSame_self ((issued_produce_some hp).1 ▸ rfl)
  have hqueued := enqueue_advanced (s := { t with advanced := some e }) rfl hsame
  simp only [advanceAndEnqueue, advance_of_ok hp, Option.map_some, enqueueIfAny, hqueued]
  rfl

theorem advanceAndEnqueue_of_none (hp : s.produce = (.ok none, t)) :
    s.advanceAndEnqueue = (.ok none, { t with advanced := none }) := by
  simp only [advanceAndEnqueue, advance_of_ok hp, Option.map_none, enqueueIfAny]

theorem advanceAndEnqueue_of_error {f : Failure} (hp : s.produce = (.error f, t)) :
    s.advanceAndEnqueue = (.error f, t) := by
  simp only [advanceAndEnqueue, advance_of_error hp]

-- ---------------------------------------------------------------------------
-- By turns
-- ---------------------------------------------------------------------------

theorem Queues.fillByHand_eq (h : Queues s es t) (times : Nat) :
    s.fillByHand (es.length + times) = t.fillByHand times := by
  induction h with
  | nil => rw [List.length_nil, Nat.zero_add]
  | cons hp _ ih =>
    rw [List.length_cons, Nat.add_right_comm]
    simp only [fillByHand, advanceAndEnqueue_of_made hp]
    exact ih

theorem fillByHand_of_none (hsound : s.verified.Sound) (hp : s.produce = (.ok none, t))
    (times : Nat) : ∃ verified journal advanced,
      s.fillByHand times = (.ok (), { s with verified, journal, advanced }) := by
  induction times generalizing s t with
  | zero => exact ⟨_, _, _, rfl⟩
  | succ times ih =>
    obtain ⟨verified, journal, rfl, hverified⟩ := produce_none_frame hp
    obtain ⟨_, _, hagain⟩ := produce_none_again hsound hp none s.memory
    obtain ⟨_, _, _, hrest⟩ := ih (hverified.sound hsound) hagain
    simp only [fillByHand, advanceAndEnqueue_of_none hp]
    exact ⟨_, _, _, hrest⟩

/-- By hand the queue is filled as it is otherwise, but for the patterns known to be anchored, what
is written down and the token remembered. -/
theorem fillByHand_eq (hsound : s.verified.Sound) (missing : Nat) :
    ∃ verified journal advanced, s.fillByHand missing =
      ((s.fill missing).1, { (s.fill missing).2 with verified, journal, advanced }) := by
  have step := fillStep s missing
  generalize s.fill missing = outcome at step ⊢
  cases step with
  | @filled es t hqueues hlength =>
    have hturns := hqueues.fillByHand_eq 0
    rw [Nat.add_zero, hlength] at hturns
    exact ⟨_, _, _, hturns⟩
  | @ended es t u hqueues hlt hp =>
    obtain ⟨left, rfl⟩ := Nat.exists_eq_add_of_le (Nat.le_of_lt hlt)
    obtain ⟨_, _, rfl, -⟩ := produce_none_frame hp
    obtain ⟨-, -, -, hsound'⟩ := hqueues.kindred hsound
    obtain ⟨verified, journal, advanced, hidle⟩ := fillByHand_of_none hsound' hp left
    rw [hqueues.fillByHand_eq, hidle]
    exact ⟨verified, journal, advanced, rfl⟩
  | @failed es t u f hqueues hlt hp =>
    obtain ⟨left, rfl⟩ := Nat.exists_eq_add_of_lt hlt
    rw [Nat.add_assoc, hqueues.fillByHand_eq]
    simp only [fillByHand, advanceAndEnqueue_of_error hp]
    exact ⟨_, _, _, rfl⟩

omit [TokenLike τ] in
theorem lookahead_queued_add (s : Lexer ω τ) (missing : Nat) :
    ∃ answer, s.lookahead (s.queue.length + missing) =
      ((s.fill missing).1.map fun _ => answer, (s.fill missing).2) := by
  unfold lookahead
  rw [Nat.add_sub_cancel_left]
  rcases s.fill missing with ⟨⟨f⟩ | ⟨⟩, t⟩
  · exact ⟨none, rfl⟩
  · exact ⟨_, rfl⟩

end PullLexer.Lexer

-- ---------------------------------------------------------------------------
-- Whatever client code did before
-- ---------------------------------------------------------------------------

namespace PullLexer.Operation

open Lexer

variable {ω τ : Type} [TokenLike τ] {s : Lexer ω τ}

/-- Wherever client code has brought a lexer, whatever lexemes it queued tokens under: to advance
and queue so many times fills the queue as looking ahead past it by as many tokens does. Both end in
the same way, with the same tokens queued under the same lexemes, at the same cursor, and with the
same memory, of a builder too that remembers its calls. It does not matter which lexemes the tokens
carry. -/
theorem fill_by_hand (input : Text) (rules : RuleTable) (builder : Builder ω τ)
    (settings : Settings ω τ) (memory : ω)
    (hmet : Meets (fun _ _ => True) (start input rules builder settings memory) s) (k : Nat) :
    let byHand := s.fillByHand k
    let looked := s.lookaheadBy (.int (s.queue.length + k : Nat))
    byHand.1 = looked.1.map (fun _ => ()) ∧ SamePlace looked.2 byHand.2 ∧
      byHand.2.memory = looked.2.memory ∧ byHand.2.issued = looked.2.issued := by
  obtain ⟨-, -, hsound⟩ : Equipped builder settings s :=
    hmet.equipped ⟨rfl, rfl, Verified.sound_nil⟩
  obtain ⟨verified, journal, advanced, hfilled⟩ := fillByHand_eq hsound k
  obtain ⟨answer, hlooked⟩ := lookahead_queued_add s k
  rw [lookaheadBy_int, hfilled, hlooked]
  refine ⟨?_, ⟨⟨rfl, rfl, rfl⟩, rfl⟩, rfl, rfl⟩
  rcases (s.fill k).1 with _ | ⟨⟩ <;> rfl

/-- Tokens that carry no lexeme, behind one queued past a gap; no rule matches after the first two.
The builder is called for these, not for the turns in vain. -/
theorem fill_by_hand_of_bare_tokens :
    let builder : Builder (Unit × List (Builder.Call Value)) Value :=
      Builder.recorded { typeName := "bare".toList, build := Builder.Catalogue.triples }
    let s₀ := start "abcd1".toList (.ofSources [("letter", "^[a-z]")]) builder .default ((), [])
    let s := run s₀ [.enqueue (some { value := .text "x".toList }) (some ⟨"b".toList, 1, [], []⟩)]
    Meets (fun _ _ => True) s₀ s ∧
      (s.fillByHand 5).2.queue.map (fun e => (e.lexeme.index, TokenLike.lexeme? e.item.value)) =
        [(1, none), (2, none), (3, none)] ∧
      (s.fillByHand 5).2.memory.2.map (fun call => call.lexeme.text) = ["c".toList, "d".toList] ∧
      ∀ k : Nat,
        let byHand := s.fillByHand k
        let looked := s.lookaheadBy (.int (s.queue.length + k : Nat))
        byHand.1 = looked.1.map (fun _ => ()) ∧ SamePlace looked.2 byHand.2 ∧
          byHand.2.memory = looked.2.memory ∧ byHand.2.issued = looked.2.issued := by
  intro builder s₀ s
  have hmet : Meets (fun _ _ => True) s₀ s :=
    .between (Works.idle.of_along ⟨⟨trivial, trivial⟩, trivial⟩)
  exact ⟨hmet, by decide +kernel, by decide +kernel,
    fill_by_hand "abcd1".toList (.ofSources [("letter", "^[a-z]")]) builder .default ((), []) hmet⟩

end PullLexer.Operation
