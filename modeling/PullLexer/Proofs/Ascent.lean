import PullLexer.Proofs.Reentry

/-!
# Queued tokens end further and further on

As long as nothing is queued but tokens that an advance made, no queued token
ends before the cursor or before one in front of it (`Climbing`), so that the
head is not before the cursor. A guard that works on the lexer may make gaps
between the queued tokens, where it refuses a token that it advanced behind;
this is no harm to the order.
-/

namespace PullLexer

variable {ω τ : Type}

/-- The lexeme is true of the input and does not end before the cursor. -/
structure Entry.Awaits (input : Text) (position : Nat) (e : Entry τ) : Prop where
  standsIn : e.lexeme.StandsIn input
  le_stop : (position : Int) ≤ e.lexeme.stop

namespace Lexer

variable {input : Text} {s s' t : Lexer ω τ} {e : Entry τ} {rest : List (Entry τ)}

theorem Whole.exhausted_iff (h : Whole input s) : s.exhausted ↔ (input.length : Int) ≤ s.head := by
  have hsum := h.position_add
  rw [exhausted, head]
  omega

theorem Whole.pass_of_awaits (h : Whole input s) (he : e.Awaits input s.position) :
    Whole input (s.pass e) ∧ ((s.pass e).position : Int) = e.lexeme.stop := by
  have hpass := h.pass (.inl he.standsIn)
  have hsum := h.position_add
  have hle := he.le_stop
  have hstop := he.standsIn.stop_le
  refine ⟨hpass ▸ h.cut _, ?_⟩
  rw [hpass, cut_none]
  simp only [reach]
  omega

/-- The entry was built and may be queued behind all others. -/
structure Follows (input : Text) (s : Lexer ω τ) (e : Entry τ) : Prop where
  awaits : e.Awaits input s.position
  stop_le : ∀ other ∈ s.queue, other.lexeme.stop ≤ e.lexeme.stop
  built : e.item.serial.isSome

/-- The cursor cuts the input in two, what is queued lies there in the order of its ends, none of
them before the cursor, and the token remembered may be queued behind it. -/
structure Climbing (input : Text) (s : Lexer ω τ) : Prop extends Whole input s where
  queued : ∀ e ∈ s.queue, e.Awaits input s.position
  climbs : s.queue.Pairwise (·.lexeme.stop ≤ ·.lexeme.stop)
  remembered : ∀ e, s.advanced = some e → s.Follows input e

namespace Climbing

-- ---------------------------------------------------------------------------
-- Where the head is
-- ---------------------------------------------------------------------------

theorem position_le_head (h : Climbing input s) : (s.position : Int) ≤ s.head := by
  cases hlast : s.queue.getLast? with
  | none => exact Int.le_of_eq (head_of_queue_nil (List.getLast?_eq_none_iff.mp hlast)).symm
  | some last =>
    rw [head_of_getLast? hlast]
    exact (h.queued last (List.mem_of_getLast? hlast)).le_stop

theorem stop_le_head (h : Climbing input s) (he : e ∈ s.queue) : e.lexeme.stop ≤ s.head := by
  rcases List.eq_nil_or_concat s.queue with hq | ⟨init, last, hq⟩
  · rw [hq] at he
    cases he
  · rw [List.concat_eq_append] at hq
    have hclimbs := h.climbs
    rw [hq] at he hclimbs
    rw [head_of_getLast? (s := s) (e := last) (by rw [hq, List.getLast?_concat])]
    rcases List.mem_append.mp he with he | he
    · exact (List.pairwise_append.mp hclimbs).2.2 e he last List.mem_cons_self
    · exact Int.le_of_eq (List.mem_singleton.mp he ▸ rfl)

theorem headOffset_nonneg (h : Climbing input s) : 0 ≤ s.headOffset := by
  have hle := h.position_le_head
  rw [head] at hle
  omega

theorem ahead_eq (h : Climbing input s) : s.ahead = input.drop s.head.toNat :=
  h.toWhole.ahead_eq h.headOffset_nonneg

-- ---------------------------------------------------------------------------
-- Moves
-- ---------------------------------------------------------------------------

theorem of_queue_nil (h : Whole input s) (hq : s.queue = []) (ha : s.advanced = none) :
    Climbing input s where
  toWhole := h
  queued e he := by
    rw [hq] at he
    cases he
  climbs := hq ▸ .nil
  remembered e he := by
    rw [ha] at he
    cases he

theorem frame (h : Climbing input s) (rules : RuleTable) (verified : Verified) (issued : Nat)
    (journal : Journal) (memory : ω) :
    Climbing input { s with rules, verified, issued, journal, memory } where
  input_eq := h.input_eq
  consumed_append := h.consumed_append
  position_eq := h.position_eq
  queued := h.queued
  climbs := h.climbs
  remembered e he :=
    have hfollows := h.remembered e he
    ⟨hfollows.awaits, hfollows.stop_le, hfollows.built⟩

/-- Whatever is left of the queue climbs, and what follows all others follows those left. -/
theorem keep (h : Climbing input s) {queue : List (Entry τ)} (hsub : queue.Sublist s.queue)
    {advanced : Option (Entry τ)} (hadvanced : ∀ e, advanced = some e → s.Follows input e) :
    Climbing input { s with queue, advanced } where
  input_eq := h.input_eq
  consumed_append := h.consumed_append
  position_eq := h.position_eq
  queued e he := h.queued e (hsub.subset he)
  climbs := h.climbs.sublist hsub
  remembered e he :=
    have hfollows := hadvanced e he
    ⟨hfollows.awaits, fun other hmem => hfollows.stop_le other (hsub.subset hmem), hfollows.built⟩

theorem advance (h : Climbing input s) {made : Option (Entry τ)}
    (hmade : ∀ e, made = some e → s.Follows input e) : Climbing input { s with advanced := made } :=
  h.keep (List.Sublist.refl _) hmade

theorem produce {made : Except Failure (Option (Entry τ))} (h : Climbing input s)
    (hp : s.produce = (made, s')) : Climbing input s' := by
  obtain ⟨verified, memory, issued, journal, rfl, -⟩ := produce_frame hp
  exact h.frame s.rules verified issued journal memory

theorem follows_produce (h : Climbing input s) (hp : s.produce = (.ok (some e), s')) :
    s'.Follows input e := by
  obtain ⟨hindex, -, -⟩ := lexeme_produce hp
  have hhead : s.head ≤ e.lexeme.stop := by
    rw [Lexeme.stop, hindex]
    omega
  have hserial := (produce_some hp).2.1
  have hstands := h.toWhole.standsIn_produce h.headOffset_nonneg hp
  obtain ⟨_, _, _, _, rfl, -⟩ := produce_frame hp
  exact ⟨⟨hstands, Int.le_trans h.position_le_head hhead⟩,
    fun other hmem => Int.le_trans (h.stop_le_head hmem) hhead, hserial ▸ rfl⟩

theorem push (h : Climbing input s) (he : s.Follows input e) : Climbing input (s.push e) where
  input_eq := h.input_eq
  consumed_append := h.consumed_append
  position_eq := h.position_eq
  queued other hmem := by
    rcases List.mem_append.mp hmem with hmem | hmem
    · exact h.queued other hmem
    · exact List.mem_singleton.mp hmem ▸ he.awaits
  climbs := by
    refine List.pairwise_append.mpr ⟨h.climbs, List.pairwise_singleton _ _, ?_⟩
    intro other hmem last hlast
    exact List.mem_singleton.mp hlast ▸ he.stop_le other hmem
  remembered _ hnone := nomatch hnone

theorem pop (h : Climbing input s) (hq : s.queue = e :: rest) :
    Climbing input ({ s with queue := rest, advanced := none } : Lexer ω τ) :=
  h.keep (hq ▸ List.sublist_cons_self e rest) fun _ hnone => nomatch hnone

/-- A scan that serves the front puts the cursor at its end, which no other ends before. -/
theorem serve (h : Climbing input s) (hq : s.queue = e :: rest) :
    let t := ({ s with queue := rest, advanced := none } : Lexer ω τ).pass e
    (t.position : Int) = e.lexeme.stop ∧ Climbing input t := by
  have hpopped := h.pop hq
  have hclimbs := hq ▸ h.climbs
  obtain ⟨hwhole, hposition⟩ :=
    hpopped.toWhole.pass_of_awaits (h.queued e (hq ▸ List.mem_cons_self))
  refine ⟨hposition, hwhole, fun other hmem => ?_, hpopped.climbs, fun _ hnone => nomatch hnone⟩
  refine ⟨(hpopped.queued other hmem).standsIn, ?_⟩
  rw [hposition]
  exact (List.pairwise_cons.mp hclimbs).1 other hmem

theorem sustained (input : Text) : Sustained (ω := ω) (τ := τ) fun _ s => Climbing input s where
  remember memory h := h.frame _ _ _ _ memory
  forget h := h.advance fun _ hnone => nomatch hnone
  produce h hp := h.produce hp
  push h hp := (h.produce hp).push (h.follows_produce hp)
  pass h hq hp := by
    obtain ⟨hwhole, -⟩ := (h.produce hp).toWhole.pass_of_awaits (h.follows_produce hp).awaits
    exact of_queue_nil hwhole ((queue_pass _ _).trans ((queue_produce hp).trans hq)) rfl
  serve h hq := (h.serve hq).2

theorem lexemeUnder_eq [TokenLike τ] (h : Climbing input s) (ha : s.advanced = some e) :
    s.lexemeUnder e.item none = .ok e.lexeme :=
  lexemeUnder_advanced ha (h.remembered e ha).built

end Climbing

end Lexer

-- ---------------------------------------------------------------------------
-- What client code keeps
-- ---------------------------------------------------------------------------

namespace Operation

open Lexer

/-- Only the token that an advance just made is queued, and nothing is consumed as a given text;
guards may work on the lexer. -/
def Ordinary (s : Lexer ω τ) : Operation ω τ → Prop
  | .enqueue (some item) given => given = none ∧ ∃ e, s.advanced = some e ∧ item = e.item
  | .consume _ (.text _) => False
  | _ => True

theorem retracts_climbing (input : Text) :
    Retracts Ordinary (Climbing (ω := ω) (τ := τ) input) := by
  intro _ _ _ r _ _ v _ _ _ h
  exact h.keep (List.take_sublist r.queue.length v.queue) h.remembered

theorem upheld_climbing [TokenLike τ] (input : Text) :
    Upheld (fun s operation => Ordinary s operation ∧ operation.Unguarded)
      (Climbing (ω := ω) (τ := τ) input) where
  moves := Climbing.sustained input
  guard h := h.2.elim
  advance h hp := (h.produce hp).advance fun _ he => (h.follows_produce (he ▸ hp))
  pop h hq := h.pop hq
  enqueue h hop hl := by
    obtain ⟨⟨rfl, e, ha, rfl⟩, -⟩ := hop
    rw [h.lexemeUnder_eq ha] at hl
    cases hl
    exact h.push (h.remembered e ha)
  discard journal h := .of_queue_nil ⟨h.input_eq, h.consumed_append, h.position_eq⟩ rfl rfl
  cut length h hq := .of_queue_nil (h.toWhole.cut length) hq rfl
  cutGiven _ _ hop _ := hop.1.elim
  register rules journal h := h.frame rules _ _ journal _
  verify verified h _ := h.frame _ verified _ _ _

end Operation

end PullLexer
