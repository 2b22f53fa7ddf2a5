import PullLexer.Proofs.Placement
import PullLexer.Proofs.Run

/-!
# The cursor cuts the input in two

As long as every token is queued under a lexeme that is true of the input and
every text given to be consumed is the one at the cursor, what was consumed and
what remains make up the input, and the position is the length of what was
consumed. A head before the cursor makes lexemes that are not true of the
input. They end at or before the cursor, and for such a lexeme a scan moves
nothing.
-/

namespace PullLexer.Lexer

variable {ω τ : Type} {input : Text} {s s' : Lexer ω τ} {e : Entry τ}

/-- The cursor cuts the input into what was consumed and what remains. -/
structure Whole (input : Text) (s : Lexer ω τ) : Prop where
  input_eq : s.input = input
  consumed_append : s.consumed ++ s.remaining = input
  position_eq : s.position = s.consumed.length

namespace Whole

theorem remaining_eq (h : Whole input s) : s.remaining = input.drop s.position := by
  rw [← h.consumed_append, h.position_eq, List.drop_left]

theorem position_add (h : Whole input s) : s.position + s.remaining.length = input.length := by
  rw [← h.consumed_append, h.position_eq, List.length_append]

theorem cut (h : Whole input s) (length : Nat) : Whole input (s.cut length none).2 where
  input_eq := h.input_eq
  consumed_append := (consumed_append_remaining_cut length s).trans h.consumed_append
  position_eq := by
    rw [cut_none]
    simp only [List.length_append, List.length_take, h.position_eq]

theorem ahead_eq (h : Whole input s) (hhead : 0 ≤ s.headOffset) :
    s.ahead = input.drop s.head.toNat := by
  obtain ⟨n, hn⟩ := Int.eq_ofNat_of_zero_le hhead
  have hplace : s.head.toNat = s.position + n := by
    rw [head, hn]
    omega
  rw [ahead, hn, Text.after_natCast, h.remaining_eq, List.drop_drop, hplace]

end Whole

theorem cut_given {n : Nat} (hn : n ≤ s.remaining.length) :
    s.cut n (some (s.remaining.take n)) = s.cut n none := by
  simp only [cut, Option.getD_some, Option.getD_none, Option.isSome_some, Option.isSome_none,
    if_true, Bool.false_eq_true, if_false, List.length_take, Nat.min_eq_left hn]

/-- A token is passed under its own text, but this makes a difference only if the text is not the
one at the cursor where the token starts. -/
theorem pass_eq_cut_iff (s : Lexer ω τ) (e : Entry τ) :
    s.pass e = (s.cut (s.reach e) none).2 ↔
      (e.lexeme.index = s.position → e.lexeme.text <+: s.remaining) := by
  unfold pass
  by_cases hlen : s.reach e = e.lexeme.text.length
  · dsimp only
    rw [if_pos hlen]
    constructor
    · intro h _
      have hconsumed := congrArg Lexer.consumed h
      rw [cut_none] at hconsumed
      have htext : e.lexeme.text = s.remaining.take (s.reach e) :=
        List.append_cancel_left hconsumed
      exact htext ▸ List.take_prefix _ _
    · intro h
      by_cases hnil : e.lexeme.text = []
      · simp [cut, hlen, hnil]
      · -- a text that is not empty is passed whole only if it starts at the cursor
        have hpos := List.length_pos_iff.mpr hnil
        have hprefix := h (by unfold reach Lexeme.stop at hlen; omega)
        have htext : e.lexeme.text = s.remaining.take (s.reach e) :=
          hlen ▸ List.prefix_iff_eq_take.mp hprefix
        rw [htext, cut_given (hlen ▸ hprefix.length_le)]
  · dsimp only
    rw [if_neg hlen]
    refine iff_of_true rfl fun hindex => absurd ?_ hlen
    unfold reach Lexeme.stop
    omega

-- ---------------------------------------------------------------------------
-- Where the head is
-- ---------------------------------------------------------------------------

theorem head_of_queue_nil (hq : s.queue = []) : s.head = s.position := by
  rw [head, headOffset_of_queue_nil hq, Int.add_zero]

theorem head_of_getLast? (hlast : s.queue.getLast? = some e) : s.head = e.lexeme.stop := by
  rw [head, headOffset, hlast]
  dsimp only
  omega

-- ---------------------------------------------------------------------------
-- Entries that are true of the input, or behind the cursor
-- ---------------------------------------------------------------------------

/-- An entry under which a scan may pass: its lexeme is true of the input, or ends at or before the
cursor. -/
def Passable (input : Text) (position : Nat) (e : Entry τ) : Prop :=
  e.lexeme.StandsIn input ∨ e.lexeme.text ≠ [] ∧ e.lexeme.stop ≤ position

theorem Passable.mono {m n : Nat} (h : Passable input m e) (hle : m ≤ n) :
    Passable input n e := by
  rcases h with h | ⟨hne, hstop⟩
  · exact .inl h
  · exact .inr ⟨hne, by omega⟩

/-- The invariant of a cursor that is moved over queued tokens. -/
structure Tracked (input : Text) (s : Lexer ω τ) : Prop extends Whole input s where
  queued : ∀ e ∈ s.queue, Passable input s.position e

theorem Passable.fits {position : Nat} (h : Passable input position e) :
    e.lexeme.Fits input position := by
  rcases h with h | ⟨hne, hstop⟩
  · exact h.fits position
  · intro n hle _ hn
    have hpos := List.length_pos_iff.mpr hne
    rw [Lexeme.stop, hn] at hstop
    omega

theorem Whole.pass_of_fits (h : Whole input s) (he : e.lexeme.Fits input s.position) :
    s.pass e = (s.cut (s.reach e) none).2 := by
  refine (pass_eq_cut_iff s e).mpr fun hindex => ?_
  have hsum := h.position_add
  rw [h.remaining_eq]
  exact he s.position (Nat.le_refl _) (by omega) hindex

theorem Whole.pass (h : Whole input s) (he : Passable input s.position e) :
    s.pass e = (s.cut (s.reach e) none).2 :=
  h.pass_of_fits he.fits

theorem Whole.standsIn_produce (h : Whole input s) (hhead : 0 ≤ s.headOffset)
    (hp : s.produce = (.ok (some e), s')) : e.lexeme.StandsIn input := by
  obtain ⟨hindex, htext, hne⟩ := lexeme_produce hp
  rw [h.ahead_eq hhead] at htext
  refine Lexeme.standsIn_of_prefix ?_ htext hne
  rw [hindex, head]
  omega

/-- A token made at the head is true of the input, or the head was before the cursor and the token
ends at or before it. -/
theorem Whole.passable_produce (h : Whole input s) (hp : s.produce = (.ok (some e), s')) :
    Passable input s.position e := by
  obtain ⟨hindex, htext, hne⟩ := lexeme_produce hp
  by_cases hhead : 0 ≤ s.headOffset
  · exact .inl (h.standsIn_produce hhead hp)
  · refine .inr ⟨hne, ?_⟩
    have hle := htext.length_le
    rw [ahead, Text.after, if_neg hhead, List.length_drop] at hle
    rw [Lexeme.stop, hindex, head]
    omega

namespace Tracked

theorem pass (h : Tracked input s) (he : Passable input s.position e) :
    Tracked input (s.pass e) := by
  rw [h.toWhole.pass he]
  refine ⟨h.toWhole.cut _, fun other hmem => (h.queued other hmem).mono ?_⟩
  rw [cut_none]
  exact Nat.le_add_right _ _

theorem push (h : Tracked input s) (he : Passable input s.position e) :
    Tracked input (s.push e) := by
  refine ⟨⟨h.input_eq, h.consumed_append, h.position_eq⟩, fun other hmem => ?_⟩
  rcases List.mem_append.mp hmem with hmem | hmem
  · exact h.queued other hmem
  · rwa [List.mem_singleton.mp hmem]

theorem pop {rest : List (Entry τ)} (h : Tracked input s) (hq : s.queue = e :: rest) :
    Passable input s.position e ∧
      Tracked input ({ s with queue := rest, advanced := none } : Lexer ω τ) := by
  refine ⟨h.queued e (hq ▸ List.mem_cons_self), ?_⟩
  refine ⟨⟨h.input_eq, h.consumed_append, h.position_eq⟩, fun other hmem => ?_⟩
  exact h.queued other (hq ▸ List.mem_cons_of_mem _ hmem)

theorem frame (h : Tracked input s) (rules : RuleTable) (verified : Verified)
    (advanced : Option (Entry τ)) (issued : Nat) (journal : Journal) (memory : ω) :
    Tracked input { s with rules, verified, advanced, issued, journal, memory } :=
  ⟨⟨h.input_eq, h.consumed_append, h.position_eq⟩, h.queued⟩

theorem discard (h : Tracked input s) (journal : Journal) :
    Tracked input { s with queue := [], advanced := none, journal } :=
  ⟨⟨h.input_eq, h.consumed_append, h.position_eq⟩, fun _ hmem => nomatch hmem⟩

theorem cut (h : Tracked input s) (hq : s.queue = []) (length : Nat) :
    Tracked input (s.cut length none).2 := by
  refine ⟨h.toWhole.cut length, fun e hmem => ?_⟩
  rw [cut_none, hq] at hmem
  cases hmem

theorem produce {made : Except Failure (Option (Entry τ))} (h : Tracked input s)
    (hp : s.produce = (made, s')) : Tracked input s' := by
  obtain ⟨verified, memory, issued, journal, rfl, -⟩ := produce_frame hp
  exact h.frame s.rules verified s.advanced issued journal memory

theorem passable_produce (h : Tracked input s) (hp : s.produce = (.ok (some e), s')) :
    Passable input s'.position e := by
  have he := h.toWhole.passable_produce hp
  obtain ⟨_, _, _, _, rfl, -⟩ := produce_frame hp
  exact he

theorem start (input : Text) (rules : RuleTable) (builder : Builder ω τ) (settings : Settings ω τ)
    (memory : ω) : Tracked input (start input rules builder settings memory) :=
  ⟨⟨rfl, rfl, rfl⟩, fun _ hmem => nomatch hmem⟩

theorem sustained : Sustained (ω := ω) (τ := τ) fun _ s => Tracked input s where
  remember memory h := h.frame _ _ _ _ _ memory
  forget h := h.frame _ _ none _ _ _
  produce h hp := h.produce hp
  push h hp := (h.produce hp).push (h.passable_produce hp)
  pass h _ hp := (h.produce hp).pass (h.passable_produce hp)
  serve h hq := (h.pop hq).2.pass (h.pop hq).1

end Tracked

-- ---------------------------------------------------------------------------
-- The position never decreases
-- ---------------------------------------------------------------------------

theorem position_le_cut (s : Lexer ω τ) (length : Nat) (given : Option Text) :
    s.position ≤ (s.cut length given).2.position := Nat.le_add_right _ _

theorem position_le_pass (s : Lexer ω τ) (e : Entry τ) : s.position ≤ (s.pass e).position :=
  position_le_cut s _ _

theorem position_produce {made : Except Failure (Option (Entry τ))} (hp : s.produce = (made, s')) :
    s'.position = s.position := by
  obtain ⟨_, _, _, _, rfl, -⟩ := produce_frame hp
  rfl

theorem sustained_position (n : Nat) :
    Sustained (ω := ω) (τ := τ) fun _ s => n ≤ s.position where
  remember _ h := h
  forget h := h
  produce h hp := position_produce hp ▸ h
  push {_ _ e s'} h hp := show n ≤ (s'.push e).position from position_produce hp ▸ h
  pass h _ hp := Nat.le_trans (position_produce hp ▸ h) (position_le_pass _ _)
  serve h _ := Nat.le_trans h (position_le_pass _ _)

end PullLexer.Lexer

namespace PullLexer.Operation

open Lexer

variable {ω τ : Type} [TokenLike τ] {input : Text} {s : Lexer ω τ} {operation : Operation ω τ}

/-- Tokens are queued under lexemes that are true of the input, a text given to be consumed is the
one at the cursor, and guards leave the lexer alone. -/
def Truthful (s : Lexer ω τ) : Operation ω τ → Prop
  | .enqueue (some item) given => ∀ l, s.lexemeUnder item given = .ok l → l.StandsIn s.input
  | .consume length (.text t) => ∀ n, length.count = .ok n →
      n ≤ s.remaining.length ∧ t = s.remaining.take n
  | .scanGuarded accepts _ => accepts.LeavesLexer
  | _ => True

theorem upheld_position (n : Nat) :
    Upheld (ω := ω) (τ := τ) Truthful fun s => n ≤ s.position where
  moves := sustained_position n
  guard h := h
  advance h hp := position_produce hp ▸ h
  pop h _ := h
  enqueue h _ _ := h
  discard _ h := h
  cut length h _ := Nat.le_trans h (position_le_cut _ length none)
  cutGiven _ h _ _ := Nat.le_trans h (Nat.le_add_right _ _)
  register _ _ h := h
  verify _ h _ := h

theorem upheld_tracked (input : Text) :
    Upheld (ω := ω) (τ := τ) Truthful (Tracked input) where
  moves := Tracked.sustained
  guard h := h
  advance {_ _ made} h hp := (h.produce hp).frame _ _ made _ _ _
  pop h hq := (h.pop hq).2
  enqueue h hop hl := h.push (.inl (h.input_eq ▸ hop _ hl))
  discard journal h := h.discard journal
  cut length h hq := h.cut hq length
  cutGiven {s _ n _} journal h hop hcount := by
    obtain ⟨hle, rfl⟩ := hop n hcount
    have hleft := (h.discard journal).cut rfl n
    rwa [← cut_given (s := ({ s with queue := [], advanced := none, journal } : Lexer ω τ)) hle]
      at hleft
  register rules journal h := h.frame rules _ _ _ journal _
  verify verified h _ := h.frame _ verified _ _ _ _

-- ---------------------------------------------------------------------------
-- Over whole runs
-- ---------------------------------------------------------------------------

/-- All along a truthful run what was consumed and what remains make up the input, the position is
the length of what was consumed, and it never decreases. -/
theorem cursor_along_run (input : Text) (rules : RuleTable) (builder : Builder ω τ)
    (settings : Settings ω τ) (memory : ω) (operations : List (Operation ω τ))
    (hrun : Along Truthful (start input rules builder settings memory) operations) :
    (∀ t ∈ trail (start input rules builder settings memory) operations,
      t.consumed ++ t.remaining = input ∧ t.position = t.consumed.length) ∧
    (trail (start input rules builder settings memory) operations).Pairwise
      (·.position ≤ ·.position) := by
  have htracked := (upheld_tracked input).trail (.start input rules builder settings memory) hrun
  refine ⟨fun t ht => ⟨(htracked t ht).consumed_append, (htracked t ht).position_eq⟩, ?_⟩
  refine trail_pairwise (R := fun a b => a.position ≤ b.position) (fun _ _ _ => Nat.le_trans)
    (fun t operation hop => ?_) hrun
  exact (upheld_position t.position).step (Nat.le_refl _) hop

/-- A run that queues tokens out of order, so that the second one is stale when it is served. -/
theorem cursor_along_stale_run :
    let token : Item (Token Text) := { value := .plain "W".toList ⟨"ab".toList, 0, [], []⟩ }
    let operations : List (Operation Unit (Token Text)) :=
      [.enqueue (some token) (some ⟨"bc".toList, 1, [], []⟩), .enqueue (some token) none, .scan,
        .scan, .consume (.int 1) (.text "d".toList)]
    let s : Lexer Unit (Token Text) := start "abcd".toList .empty .standard .default ()
    Along Truthful s operations ∧
      (∀ t ∈ trail s operations,
        t.consumed ++ t.remaining = "abcd".toList ∧ t.position = t.consumed.length) ∧
      (trail s operations).Pairwise (·.position ≤ ·.position) := by
  intro token operations s
  have hrun : Along Truthful s operations := by
    refine ⟨?_, ?_, trivial, trivial, ?_, trivial⟩
    · rintro l ⟨⟩
      exact ⟨by decide, by decide, by decide⟩
    · rintro l ⟨⟩
      exact ⟨by decide, by decide, by decide⟩
    · rintro n ⟨⟩
      exact ⟨by decide, by decide⟩
  exact ⟨hrun, cursor_along_run "abcd".toList .empty .standard .default () operations hrun⟩

end PullLexer.Operation
