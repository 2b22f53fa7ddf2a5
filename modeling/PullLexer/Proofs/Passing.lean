import PullLexer.Proofs.Failing
import PullLexer.Proofs.Reentry

/-!
# How far a scan moves the cursor

A scan consumes through the end of the token that it hands out, whatever lies
before the token, and moves nothing for a token that ends at or before the
cursor. As long as tokens are queued under lexemes that are true of the input,
the cursor is then where the token ends (`scan_passes_through`).

A token is passed under its own text where this is as long as the way to its
end. This comes to the same as cutting the remaining text unless a token that
starts at the cursor was queued under a text that is not there
(`pass_eq_cut_iff`), so that it is enough to keep such lexemes from the queue
(`scan_consumes_what_remains`).
-/

namespace PullLexer

namespace Operation

open Lexer

variable {ω τ : Type}

/-- Tokens are queued under lexemes with a property alone, and no text is given to be consumed.
Guards may work on the lexer. -/
def Supplies [TokenLike τ] (sound : Lexer ω τ → Lexeme → Prop) (s : Lexer ω τ) :
    Operation ω τ → Prop
  | .enqueue (some item) given => ∀ l, s.lexemeUnder item given = .ok l → sound s l
  | .consume _ (.text _) => False
  | _ => True

/-- Takes the next token without consuming it. -/
def Skips : Operation ω τ → Prop
  | .dequeue | .nextToken => True
  | _ => False

theorem retracts_tracked (permitted : Lexer ω τ → Operation ω τ → Prop) (input : Text) :
    Retracts permitted (Tracked input) := by
  intro _ _ _ r _ _ v _ _ _ h
  exact ⟨⟨h.input_eq, h.consumed_append, h.position_eq⟩,
    fun e hmem => h.queued e (List.mem_of_mem_take hmem)⟩

end Operation

-- ---------------------------------------------------------------------------
-- Through the end of a token
-- ---------------------------------------------------------------------------

namespace Lexer

variable {ω τ : Type} {s s' t : Lexer ω τ} {e : Entry τ} {item : Item τ} {input : Text}

/-- What a scan that hands out this entry makes of the cursor and the queue. -/
structure PassesThrough (input : Text) (s : Lexer ω τ) (e : Entry τ) (t : Lexer ω τ) : Prop where
  position_eq : (t.position : Int) = max (s.position : Int) e.lexeme.stop
  consumed_eq : t.consumed = input.take t.position
  remaining_eq : t.remaining = input.drop t.position
  queue_eq : t.queue = s.queue.tail
  /-- What lies between the cursor and the end of the token goes with it. -/
  consumed_through : s.position ≤ e.lexeme.stop →
    t.consumed = s.consumed ++ input.between s.position e.lexeme.stop
  unmoved : e.lexeme.stop ≤ s.position → SameCursor s t

theorem Whole.consumed_eq (h : Whole input s) : s.consumed = input.take s.position := by
  rw [← h.consumed_append, h.position_eq, List.take_left]

theorem Whole.position_pass (h : Whole input s) (he : Passable input s.position e) :
    ((s.pass e).position : Int) = max (s.position : Int) e.lexeme.stop := by
  have hsum := h.position_add
  have hstop : e.lexeme.stop ≤ s.position ∨ e.lexeme.stop ≤ input.length :=
    he.symm.imp And.right Lexeme.StandsIn.stop_le
  rw [h.pass he, cut_none]
  simp only [reach]
  omega

theorem nextEntry_of_scan (hscan : s.scan = (.ok (some item), t)) :
    ∃ e u, s.nextEntry = (.ok (some e), u) ∧ e.item = item ∧ u.pass e = t := by
  unfold scan at hscan
  split at hscan <;> rename_i hnext <;> cases hscan
  exact ⟨_, _, hnext, rfl, rfl⟩

namespace Tracked

theorem nextEntry (h : Tracked input s) (hnext : s.nextEntry = (.ok (some e), s')) :
    Tracked input s' ∧ Passable input s'.position e ∧ SameCursor s s' ∧
      s'.queue = s.queue.tail := by
  cases hq : s.queue with
  | nil =>
    rw [nextEntry_of_queue_nil hq] at hnext
    exact ⟨h.produce hnext, h.passable_produce hnext, (intact_produce hnext).toSameCursor,
      (queue_produce hnext).trans hq⟩
  | cons front rest =>
    rw [nextEntry_of_queue_cons hq] at hnext
    cases hnext
    obtain ⟨hfront, hpopped⟩ := h.pop hq
    exact ⟨hpopped, hfront, ⟨rfl, rfl, rfl⟩, rfl⟩

theorem passesThrough (h : Tracked input s) (hscan : s.scan = (.ok (some item), t)) :
    ∃ e, s.nextEntry.1 = .ok (some e) ∧ e.item = item ∧ PassesThrough input s e t := by
  obtain ⟨e, u, hnext, hitem, rfl⟩ := nextEntry_of_scan hscan
  obtain ⟨hu, he, hcursor, hqueue⟩ := h.nextEntry hnext
  have hposition := hu.toWhole.position_pass he
  rw [hcursor.position_eq] at hposition
  have hpassed := (hu.pass he).toWhole
  refine ⟨e, by rw [hnext], hitem, hposition, hpassed.consumed_eq, hpassed.remaining_eq, hqueue,
    fun hle => ?_, fun hle => ?_⟩
  · have hstop : e.lexeme.stop = ((u.pass e).position : Nat) := by omega
    rw [hpassed.consumed_eq, h.toWhole.consumed_eq, hstop, Text.take_append_between (by omega)]
  · have hsame : (u.pass e).position = s.position := by omega
    exact ⟨hsame, by rw [hpassed.consumed_eq, h.toWhole.consumed_eq, hsame],
      by rw [hpassed.remaining_eq, h.toWhole.remaining_eq, hsame]⟩

end Tracked

end Lexer

namespace Operation

open Lexer

variable {ω τ : Type} [TokenLike τ] {s : Lexer ω τ} {operation : Operation ω τ} {input : Text}

theorem Supplies.truthful (h : Supplies (fun s l => l.StandsIn s.input) s operation)
    (hunguarded : operation.Unguarded) : Truthful s operation := by
  cases operation with
  | enqueue item given => cases item <;> exact h
  | consume length given => cases given <;> first | exact h | exact h.elim
  | scanGuarded accepts bound => exact hunguarded.elim
  | _ => trivial

theorem Skips.truthful (h : operation.Skips) (s : Lexer ω τ) : Truthful s operation := by
  cases operation with
  | dequeue => trivial
  | nextToken => trivial
  | _ => exact h.elim

theorem sameCursor_of_skips (h : operation.Skips) (s : Lexer ω τ) :
    SameCursor s (operation.step s) := by
  cases operation with
  | dequeue =>
    simp only [step, perform, snd_dequeue]
    rcases pop_cases s with ⟨-, hpop⟩ | ⟨e, rest, -, hpop⟩ <;> rw [hpop] <;> exact ⟨rfl, rfl, rfl⟩
  | nextToken =>
    simp only [step, perform, Outcome.snd_map]
    rcases nextToken_cases s with ⟨made, hp⟩ | ⟨e, rest, -, hpop⟩
    · exact (intact_produce hp).toSameCursor
    · rw [hpop]
      exact ⟨rfl, rfl, rfl⟩
  | _ => exact h.elim

theorem sameCursor_run_of_skips {skips : List (Operation ω τ)}
    (hskips : ∀ operation ∈ skips, operation.Skips) (s : Lexer ω τ) :
    SameCursor s (run s skips) := by
  induction skips generalizing s with
  | nil => exact .refl s
  | cons operation rest ih =>
    obtain ⟨hskip, hrest⟩ := List.forall_mem_cons.mp hskips
    exact (sameCursor_of_skips hskip s).trans (ih hrest (operation.step s))

/-- Wherever client code has brought a lexer that queues tokens under lexemes true of the input and
gives no text to be consumed, and however many tokens it takes then without consuming them: a scan
that hands out a token puts the cursor at the end of the token, if it is not there or behind it
already, and takes nothing off the queue but the front. -/
theorem scan_passes_through (input : Text) (rules : RuleTable) (builder : Builder ω τ)
    (settings : Settings ω τ) (memory : ω)
    (hmet : Meets (Supplies fun s l => l.StandsIn s.input)
      (start input rules builder settings memory) s)
    (skips : List (Operation ω τ)) (hskips : ∀ operation ∈ skips, operation.Skips) :
    let skipped := run s skips
    SameCursor s skipped ∧ ∀ item t, skipped.scan = (.ok (some item), t) →
      ∃ e, skipped.nextEntry.1 = .ok (some e) ∧ e.item = item ∧
        PassesThrough input skipped e t := by
  have htracked : Tracked input s :=
    hmet.keeps ((upheld_tracked input).mono fun hop => hop.1.truthful hop.2)
      (retracts_tracked _ input) (.start input rules builder settings memory)
  have hskipped : Tracked input (run s skips) :=
    (upheld_tracked input).run htracked
      (along_of_forall fun operation hmem t => (hskips operation hmem).truthful t)
  exact ⟨sameCursor_run_of_skips hskips s, fun item t hscan => hskipped.passesThrough hscan⟩

/-- Two tokens that overlap are taken without being consumed, and the third one is scanned. -/
theorem scan_passes_through_skipped :
    let token : Item (Token Text) := { value := .plain "W".toList ⟨"ab".toList, 0, [], []⟩ }
    let s₀ : Lexer Unit (Token Text) :=
      start "abcd".toList (.ofSources [("letter", "^[a-z]")]) .standard .default ()
    let s := run s₀ [.enqueue (some token) none,
      .enqueue (some token) (some ⟨"bc".toList, 1, [], []⟩), .lookahead (.int 3)]
    let skips := [.dequeue, .nextToken]
    let skipped := run s skips
    Meets (Supplies fun s l => l.StandsIn s.input) s₀ s ∧
      (∀ operation ∈ skips, Skips (ω := Unit) (τ := Token Text) operation) ∧
      skipped.scan.1.isOk ∧ skipped.scan.2.consumed = "abcd".toList ∧
      SameCursor s skipped ∧ ∀ item t, skipped.scan = (.ok (some item), t) →
        ∃ e, skipped.nextEntry.1 = .ok (some e) ∧ e.item = item ∧
          PassesThrough "abcd".toList skipped e t := by
  intro token s₀ s skips skipped
  have hmet : Meets (Supplies fun s l => l.StandsIn s.input) s₀ s := by
    refine .between
      (Works.idle.of_along ⟨⟨?_, trivial⟩, ⟨?_, trivial⟩, ⟨trivial, trivial⟩, trivial⟩)
    · rintro l ⟨⟩
      exact ⟨by decide, by decide, by decide⟩
    · rintro l ⟨⟩
      exact ⟨by decide, by decide, by decide⟩
  have hskips : ∀ operation ∈ skips, Skips operation := by
    intro operation hmem
    rcases List.mem_cons.mp hmem with rfl | hmem
    · trivial
    · rw [List.mem_singleton.mp hmem]
      trivial
  exact ⟨hmet, hskips, by decide +kernel, by decide +kernel,
    scan_passes_through "abcd".toList (.ofSources [("letter", "^[a-z]")]) .standard .default () hmet
      skips hskips⟩

end Operation

-- ---------------------------------------------------------------------------
-- Under the text of a token
-- ---------------------------------------------------------------------------

namespace Lexer

variable {ω τ : Type} {s s' : Lexer ω τ} {e : Entry τ} {input : Text}

/-- The cursor cuts the input in two, and a queued token that starts at the cursor or behind it has
the text that the input has there. -/
structure Fitted (input : Text) (s : Lexer ω τ) : Prop extends Whole input s where
  queued : ∀ e ∈ s.queue, e.lexeme.Fits input s.position

namespace Fitted

theorem moved (h : Fitted input s) (hwhole : Whole input s') (hle : s.position ≤ s'.position)
    (hqueue : ∀ e ∈ s'.queue, e ∈ s.queue ∨ e.lexeme.Fits input s'.position) :
    Fitted input s' := by
  refine ⟨hwhole, fun e hmem => ?_⟩
  rcases hqueue e hmem with hold | hnew
  · exact (h.queued e hold).mono hle
  · exact hnew

theorem frame (h : Fitted input s) (rules : RuleTable) (verified : Verified)
    (advanced : Option (Entry τ)) (issued : Nat) (journal : Journal) (memory : ω) :
    Fitted input { s with rules, verified, advanced, issued, journal, memory } :=
  ⟨⟨h.input_eq, h.consumed_append, h.position_eq⟩, h.queued⟩

theorem keep (h : Fitted input s) {queue : List (Entry τ)} (hsub : queue ⊆ s.queue)
    (advanced : Option (Entry τ)) : Fitted input { s with queue, advanced } :=
  ⟨⟨h.input_eq, h.consumed_append, h.position_eq⟩, fun e hmem => h.queued e (hsub hmem)⟩

theorem produce {made : Except Failure (Option (Entry τ))} (h : Fitted input s)
    (hp : s.produce = (made, s')) : Fitted input s' := by
  obtain ⟨verified, memory, issued, journal, rfl, -⟩ := produce_frame hp
  exact h.frame s.rules verified s.advanced issued journal memory

theorem produced (h : Fitted input s) (hp : s.produce = (.ok (some e), s')) :
    Fitted input s' ∧ e.lexeme.Fits input s'.position :=
  ⟨h.produce hp, position_produce hp ▸ (h.toWhole.passable_produce hp).fits⟩

theorem push (h : Fitted input s) (he : e.lexeme.Fits input s.position) :
    Fitted input (s.push e) := by
  refine h.moved ⟨h.input_eq, h.consumed_append, h.position_eq⟩ (Nat.le_refl _) fun other hmem => ?_
  rcases List.mem_append.mp hmem with hmem | hmem
  · exact .inl hmem
  · exact .inr (List.mem_singleton.mp hmem ▸ he)

theorem cut (h : Fitted input s) (length : Nat) : Fitted input (s.cut length none).2 :=
  h.moved (h.toWhole.cut length) (position_le_cut s length none) fun _ hmem => .inl hmem

theorem pass (h : Fitted input s) (he : e.lexeme.Fits input s.position) :
    Fitted input (s.pass e) :=
  h.toWhole.pass_of_fits he ▸ h.cut (s.reach e)

theorem pop {rest : List (Entry τ)} (h : Fitted input s) (hq : s.queue = e :: rest) :
    e.lexeme.Fits input s.position ∧
      Fitted input ({ s with queue := rest, advanced := none } : Lexer ω τ) :=
  ⟨h.queued e (hq ▸ List.mem_cons_self), h.keep (hq ▸ List.subset_cons_self e rest) none⟩

theorem sustained (input : Text) : Sustained (ω := ω) (τ := τ) fun _ s => Fitted input s where
  remember memory h := h.frame _ _ _ _ _ memory
  forget h := h.frame _ _ none _ _ _
  produce h hp := h.produce hp
  push h hp := (h.produced hp).1.push (h.produced hp).2
  pass h _ hp := (h.produced hp).1.pass (h.produced hp).2
  serve h hq := (h.pop hq).2.pass (h.pop hq).1

theorem nextEntry (h : Fitted input s) (hnext : s.nextEntry = (.ok (some e), s')) :
    Fitted input s' ∧ e.lexeme.Fits input s'.position ∧ SameCursor s s' := by
  cases hq : s.queue with
  | nil =>
    rw [nextEntry_of_queue_nil hq] at hnext
    exact ⟨(h.produced hnext).1, (h.produced hnext).2, (intact_produce hnext).toSameCursor⟩
  | cons front rest =>
    rw [nextEntry_of_queue_cons hq] at hnext
    cases hnext
    exact ⟨(h.pop hq).2, (h.pop hq).1, rfl, rfl, rfl⟩

end Fitted

theorem Whole.cut_moves (h : Whole input s) (length : Nat) :
    ∃ removed, (s.cut length none).2.consumed = s.consumed ++ removed ∧
      s.remaining = removed ++ (s.cut length none).2.remaining ∧
      (s.cut length none).2.position = s.position + removed.length ∧
      (s.cut length none).2.position ≤ input.length := by
  have hsum := (h.cut length).position_add
  refine ⟨s.remaining.take length, ?_, ?_, ?_, by omega⟩
  · rw [cut_none]
  · rw [cut_none, List.take_append_drop]
  · rw [cut_none, List.length_take]

end Lexer

namespace Operation

open Lexer

variable {ω τ : Type} {s : Lexer ω τ}

theorem retracts_fitted (permitted : Lexer ω τ → Operation ω τ → Prop) (input : Text) :
    Retracts permitted (Fitted input) := by
  intro _ _ _ r _ _ v _ _ _ h
  exact h.keep (List.take_subset r.queue.length v.queue) v.advanced

variable [TokenLike τ]

theorem upheld_fitted (input : Text) :
    Upheld (fun s operation => Supplies (fun s l => l.Fits s.input s.position) s operation ∧
      operation.Unguarded) (Fitted (ω := ω) (τ := τ) input) where
  moves := Fitted.sustained input
  guard h := h.2.elim
  advance {_ _ made} h hp := (h.produce hp).frame _ _ made _ _ _
  pop h hq := (h.pop hq).2
  enqueue h hop hl := h.push (h.input_eq ▸ hop.1 _ hl)
  discard journal h := (h.keep (List.nil_subset _) none).frame _ _ _ _ journal _
  cut length h _ := h.cut length
  cutGiven _ _ hop _ := hop.1.elim
  register rules journal h := h.frame rules _ _ _ journal _
  verify verified h _ := h.frame _ verified _ _ _ _

/-- A scan moves the cursor as cutting the remaining text does, unless it passes a token that starts
at the cursor under a text that is not there. Wherever client code has brought a lexer that queues
no token at or behind the cursor under a text that is not there and gives no text to be consumed, a
scan appends to the text consumed what it removes from the remaining text, and moves the position by
its length, never past the end of the input. -/
theorem scan_consumes_what_remains (input : Text) (rules : RuleTable) (builder : Builder ω τ)
    (settings : Settings ω τ) (memory : ω)
    (hmet : Meets (Supplies fun s l => l.Fits s.input s.position)
      (start input rules builder settings memory) s) :
    (∀ (t : Lexer ω τ) (e : Entry τ), t.pass e = (t.cut (t.reach e) none).2 ↔
      (e.lexeme.index = t.position → e.lexeme.text <+: t.remaining)) ∧
    ∀ e t, s.nextEntry = (.ok (some e), t) →
      let passed := (t.cut (t.reach e) none).2
      s.scan = (.ok (some e.item), passed) ∧
        ∃ removed, passed.consumed = s.consumed ++ removed ∧
          s.remaining = removed ++ passed.remaining ∧
          passed.position = s.position + removed.length ∧ passed.position ≤ input.length := by
  have hfitted : Fitted input s :=
    hmet.keeps (upheld_fitted input) (retracts_fitted _ input)
      ⟨⟨rfl, rfl, rfl⟩, fun _ hmem => nomatch hmem⟩
  refine ⟨pass_eq_cut_iff, fun e t hnext => ?_⟩
  obtain ⟨ht, he, hcursor⟩ := hfitted.nextEntry hnext
  have hmoves := ht.toWhole.cut_moves (t.reach e)
  rw [hcursor.consumed_eq, hcursor.remaining_eq, hcursor.position_eq] at hmoves
  refine ⟨?_, hmoves⟩
  simp only [Lexer.scan, hnext, ht.toWhole.pass_of_fits he]

/-- A token that starts before the cursor is queued under a text that is nowhere in the input, and
ends behind the cursor. -/
theorem scan_consumes_what_remains_under_stale_text :
    let token : Item (Token Text) := { value := .plain "W".toList ⟨"zzz".toList, 0, [], []⟩ }
    let s₀ : Lexer Unit (Token Text) := start "abcd".toList .empty .standard .default ()
    let s := run s₀ [.consume (.int 1) .null, .enqueue (some token) none]
    Meets (Supplies fun s l => l.Fits s.input s.position) s₀ s ∧
      s.scan.2.consumed = "abc".toList ∧ ∀ e t, s.nextEntry = (.ok (some e), t) →
        let passed := (t.cut (t.reach e) none).2
        s.scan = (.ok (some e.item), passed) ∧
          ∃ removed, passed.consumed = s.consumed ++ removed ∧
            s.remaining = removed ++ passed.remaining ∧
            passed.position = s.position + removed.length ∧ passed.position ≤ 4 := by
  intro token s₀ s
  have hmet : Meets (Supplies fun s l => l.Fits s.input s.position) s₀ s := by
    refine .between (Works.idle.of_along ⟨⟨trivial, trivial⟩, ⟨?_, trivial⟩, trivial⟩)
    rintro l ⟨⟩ n hplace - hindex
    have hzero : (0 : Int) = n := hindex
    have hone : 1 ≤ n := hplace
    omega
  exact ⟨hmet, by decide +kernel,
    (scan_consumes_what_remains "abcd".toList .empty .standard .default () hmet).2⟩

/-- A token queued at the cursor under a text that is not there, and longer than what is: a scan
consumes that text, and puts the position past the end of the input. -/
theorem invented_text_consumed :
    let token : Item (Token Text) := { value := .plain "W".toList ⟨"xyz".toList, 0, [], []⟩ }
    let s₀ : Lexer Unit (Token Text) := start "ab".toList .empty .standard .default ()
    let s := run s₀ [.enqueue (some token) none]
    Meets (Supplies fun _ _ => True) s₀ s ∧ s.remaining = "ab".toList ∧
      ∃ e t, s.nextEntry = (.ok (some e), t) ∧ s.scan = (.ok (some e.item), t.pass e) ∧
        (t.pass e).consumed = "xyz".toList ∧ (t.pass e).position = 3 ∧
        (t.cut (t.reach e) none).2.consumed = "ab".toList ∧
        (t.cut (t.reach e) none).2.position = 2 := by
  intro token s₀ s
  have hmet : Meets (Supplies fun _ _ => True) s₀ s :=
    .between (Works.idle.of_along ⟨⟨fun _ _ => trivial, trivial⟩, trivial⟩)
  exact ⟨hmet, rfl, _, _, rfl, rfl, by decide, by decide, by decide, by decide⟩

end Operation

end PullLexer
