import PullLexer.Proofs.Ascent
import PullLexer.Proofs.Failing
import PullLexer.Proofs.Transparency

/-!
# Looking ahead predicts scans

A scan that serves the front of the queue leaves a lexer that looks for the
next token where it was looked for before (`Served.sameProspect`), so that
filling the queue before or after the scan comes to the same (`Served.fill`). The
token that comes as number `n` is therefore what the scan with that number would
hand out, and where scans would end or fail before, looking ahead ends or fails
in the same way (`Climbing.lookahead_eq_nthScan`). Looking again finds the same.
-/

namespace PullLexer

namespace Lexer

variable {ω τ : Type} {s s' t t' u : Lexer ω τ} {e : Entry τ} {es : List (Entry τ)}
  {item : Item τ} {input : Text}

-- ---------------------------------------------------------------------------
-- Scanning first or filling first
-- ---------------------------------------------------------------------------

/-- The second lexer is what a scan leaves that serves the front of the first one's queue. -/
def Served (input : Text) (s t : Lexer ω τ) : Prop :=
  Climbing input s ∧ ∃ e rest, s.queue = e :: rest ∧
    t = ({ s with queue := rest, advanced := none } : Lexer ω τ).pass e

namespace Served

theorem head_eq (h : Served input s t) : t.head = s.head := by
  obtain ⟨hs, e, rest, hq, rfl⟩ := h
  obtain ⟨hposition, -⟩ := hs.serve hq
  cases hlast : rest.getLast? with
  | none =>
    -- the front was the last one queued, and the cursor is at its end now
    obtain rfl : rest = [] := List.getLast?_eq_none_iff.mp hlast
    have hfront : s.queue.getLast? = some e := by rw [hq, List.getLast?_singleton]
    rw [head_of_queue_nil (queue_pass _ _), hposition, head_of_getLast? hfront]
  | some last =>
    have hfront : s.queue.getLast? = some last := by
      rw [hq, List.getLast?_cons, hlast]
      rfl
    rw [head_of_getLast? (e := last) hlast, head_of_getLast? hfront]

theorem sameProspect (h : Served input s t) : SameProspect s t := by
  have hhead := h.head_eq
  obtain ⟨hs, e, rest, hq, rfl⟩ := h
  obtain ⟨-, ht⟩ := hs.serve hq
  refine ⟨hhead, ?_, ?_, rfl⟩
  · rw [hs.ahead_eq, ht.ahead_eq, hhead]
  · rw [hs.toWhole.exhausted_iff, ht.toWhole.exhausted_iff, hhead]

theorem produce {made : Except Failure (Option (Entry τ))} (h : Served input s t)
    (hp : s.produce = (made, s')) : ∃ t', t.produce = (made, t') ∧ Served input s' t' := by
  have hproduced := h.sameProspect.produce_eq
  rw [hp] at hproduced
  obtain ⟨hs, e, rest, hq, rfl⟩ := h
  refine ⟨_, hproduced, hs.produce hp, e, rest, (queue_produce hp).trans hq, ?_⟩
  obtain ⟨_, _, _, _, rfl, -⟩ := produce_frame hp
  rfl

theorem push (h : Served input s t) (he : s.Follows input e) :
    Served input (s.push e) (t.push e) := by
  obtain ⟨hs, front, rest, hq, rfl⟩ := h
  refine ⟨hs.push he, front, rest ++ [e], ?_, rfl⟩
  rw [Lexer.push, hq, List.cons_append]

/-- Filling the queue comes to the same whether the front is served before or not. -/
theorem fill (h : Served input s t) (missing : Nat) :
    (t.fill missing).1 = (s.fill missing).1 ∧
      Served input (s.fill missing).2 (t.fill missing).2 := by
  induction missing generalizing s t with
  | zero => exact ⟨rfl, h⟩
  | succ missing ih =>
    unfold Lexer.fill
    rcases hp : s.produce with ⟨⟨f⟩ | ⟨_ | e⟩, s'⟩ <;> obtain ⟨t', hp', hnext⟩ := h.produce hp <;>
      rw [hp']
    · exact ⟨rfl, hnext⟩
    · exact ⟨rfl, hnext⟩
    · exact ih (hnext.push (h.1.follows_produce hp))

theorem queue_eq (h : Served input s t) : ∃ e, s.queue = e :: t.queue := by
  obtain ⟨-, e, rest, hq, rfl⟩ := h
  exact ⟨e, hq⟩

theorem lookahead (h : Served input s t) (n : Nat) :
    (s.lookahead (n + 2)).1 = (t.lookahead (n + 1)).1 := by
  obtain ⟨front, hq⟩ := h.queue_eq
  have hmissing : n + 2 - s.queue.length = n + 1 - t.queue.length := by
    rw [hq, List.length_cons]
    omega
  obtain ⟨hanswer, hfilled⟩ := h.fill (n + 1 - t.queue.length)
  obtain ⟨front', hq'⟩ := hfilled.queue_eq
  unfold Lexer.lookahead
  rw [hmissing]
  generalize s.fill (n + 1 - t.queue.length) = filled, t.fill (n + 1 - t.queue.length) = filled'
    at hanswer hq' ⊢
  obtain ⟨ending, s'⟩ := filled
  obtain ⟨ending', t'⟩ := filled'
  obtain rfl : ending' = ending := hanswer
  cases ending' with
  | error f => rfl
  | ok _ =>
    dsimp only at hq' ⊢
    rw [hq']
    rfl

end Served

-- ---------------------------------------------------------------------------
-- What looking ahead leaves
-- ---------------------------------------------------------------------------

theorem Queues.sameCursor_produce {made : Except Failure (Option (Entry τ))}
    (hqueues : Queues s es t) (hp : t.produce = (made, u)) :
    SameCursor s u ∧ s.queue <+: u.queue := by
  have hextended := hqueues.extended
  have hintact := intact_produce hp
  exact ⟨hextended.toSameCursor.trans hintact.toSameCursor,
    es, (hintact.queue_eq.trans hextended.queue_eq).symm⟩

theorem sameCursor_lookahead (s : Lexer ω τ) (n : Nat) :
    SameCursor s (s.lookahead n).2 ∧ s.queue <+: (s.lookahead n).2.queue := by
  have step := lookStep s n
  generalize s.lookahead n = looked at step ⊢
  cases step with
  | queued hqueues =>
    exact ⟨hqueues.extended.toSameCursor, _, hqueues.extended.queue_eq.symm⟩
  | ended hqueues _ hp => exact hqueues.sameCursor_produce hp
  | failed hqueues _ hp => exact hqueues.sameCursor_produce hp

-- ---------------------------------------------------------------------------
-- Looking again
-- ---------------------------------------------------------------------------

/-- The lexer is the same but for what was remembered and written down. -/
def Undisturbed (s s' : Lexer ω τ) : Prop :=
  ∃ verified memory journal, s' = { s with verified, memory, journal }

theorem undisturbed_of_produce {ending : Except Failure Unit}
    (hp : s.produce = (ending.map fun _ => none, s')) : Undisturbed s s' := by
  have step := hp ▸ produceStep s
  cases ending <;> cases step <;> exact ⟨_, _, _, rfl⟩

theorem fst_produce_of_made {ending : Except Failure Unit}
    (h : s.made = ending.map fun _ => none) : s.produce.1 = ending.map fun _ => none := by
  unfold made at h
  generalize s.produce.1 = answer at h ⊢
  cases ending with
  | error f =>
    cases answer with
    | error g =>
      cases h
      rfl
    | ok _ => cases h
  | ok _ =>
    cases answer with
    | error _ => cases h
    | ok e? =>
      cases e? with
      | none => rfl
      | some _ => cases h

theorem produce_again {ending : Except Failure Unit} (hsteady : s.builder.Steady)
    (hsound : s.verified.Sound) (hp : s.produce = (ending.map fun _ => none, s')) :
    ∃ s'', s'.produce = (ending.map fun _ => none, s'') := by
  have hmade : s'.made = ending.map fun _ => none := by
    have halike : LooksAlike s s' := by
      obtain ⟨_, _, _, rfl⟩ := undisturbed_of_produce hp
      exact ⟨rfl, rfl, rfl, rfl, rfl, Iff.rfl⟩
    obtain ⟨_, _, _, _, hframe, hverified⟩ := produce_frame hp
    have hsound' : s'.verified.Sound := by
      rw [hframe]
      exact hverified.sound hsound
    rw [← halike.made_eq hsteady hsound hsound', made, hp]
    cases ending <;> rfl
  exact ⟨s'.produce.2, Prod.ext (fst_produce_of_made hmade) rfl⟩

theorem Queues.produce_again {ending : Except Failure Unit} (hqueues : Queues s es t)
    (hsteady : s.builder.Steady) (hsound : s.verified.Sound)
    (hp : t.produce = (ending.map fun _ => none, u)) :
    ∃ v, u.produce = (ending.map fun _ => none, v) := by
  obtain ⟨-, hbuilder, -, hsound'⟩ := hqueues.kindred hsound
  exact Lexer.produce_again (hbuilder ▸ hsteady) hsound' hp

theorem lookahead_again (hsteady : s.builder.Steady) (hsound : s.verified.Sound) (n : Nat) :
    ((s.lookahead n).2.lookahead n).1 = (s.lookahead n).1 ∧
      Undisturbed (s.lookahead n).2 ((s.lookahead n).2.lookahead n).2 := by
  have idle {es : List (Entry τ)} {t u : Lexer ω τ} {ending : Except Failure Unit}
      (hqueues : Queues s es t) (hlt : t.queue.length < n)
      (hp : t.produce = (ending.map fun _ => none, u)) :
      (u.lookahead n).1 = (ending.map fun _ => none) ∧ Undisturbed u (u.lookahead n).2 := by
    obtain ⟨v, hp'⟩ := hqueues.produce_again hsteady hsound hp
    rw [lookahead_of_idle hp' (queue_produce hp ▸ hlt)]
    exact ⟨rfl, undisturbed_of_produce hp'⟩
  have step := lookStep s n
  generalize s.lookahead n = looked at step ⊢
  cases step with
  | queued _ hle =>
    rw [lookahead_of_queued hle]
    exact ⟨rfl, _, _, _, rfl⟩
  | ended hqueues hlt hp => exact @idle _ _ _ (.ok ()) hqueues hlt hp
  | @failed _ _ _ f hqueues hlt hp => exact @idle _ _ _ (.error f) hqueues hlt hp

-- ---------------------------------------------------------------------------
-- The scans to come
-- ---------------------------------------------------------------------------

/-- What the scan with this number would come to, counted from zero, or the first scan before it
that hands out no token. -/
def nthScan : Nat → Lexer ω τ → Except Failure (Option (Item τ))
  | 0, s => s.scan.1
  | n + 1, s =>
    match s.scan with
    | (.ok (some _), s) => nthScan n s
    | (answer, _) => answer

theorem lookahead_of_scan {ending : Except Failure Unit}
    (hscan : s.scan = (ending.map fun _ => none, s')) (n : Nat) :
    s.lookahead (n + 1) = (ending.map fun _ => none, s') := by
  obtain ⟨hq, hp⟩ := produce_of_scan hscan
  exact lookahead_of_idle hp (by rw [hq]; exact Nat.succ_pos n)

namespace Climbing

theorem served (h : Climbing input s) (hq : s.queue ≠ [])
    (hscan : s.scan = (.ok (some item), t)) : Served input s t := by
  have step := hscan ▸ scanStep s
  cases step with
  | served hq => exact ⟨h, _, _, hq, rfl⟩
  | made hnil => exact absurd hnil hq

theorem lookahead_of_token (h : Climbing input s) (hscan : s.scan = (.ok (some item), t))
    (n : Nat) : (s.lookahead (n + 2)).1 = (t.lookahead (n + 1)).1 := by
  have step := hscan ▸ scanStep s
  cases step with
  | served hq => exact Served.lookahead ⟨h, _, _, hq, rfl⟩ n
  | @made e s' hq hp =>
    have hpushed : Climbing input (s'.push e) := (h.produce hp).push (h.follows_produce hp)
    have hne : (s'.push e).queue ≠ [] := List.append_ne_nil_of_right_ne_nil _ nofun
    rw [lookahead_of_made hp (by rw [hq]; exact Nat.succ_pos _)]
    exact (hpushed.served hne (scan_push ((queue_produce hp).trans hq))).lookahead n

theorem lookahead_eq_nthScan (h : Climbing input s) (n : Nat) :
    (s.lookahead (n + 1)).1 = s.nthScan n := by
  induction n generalizing s with
  | zero => exact fst_peek s
  | succ n ih =>
    have hnext := @Sustained.scan _ _ s _ [] (sustained input) h
    unfold nthScan
    rcases hscan : s.scan with ⟨⟨f⟩ | ⟨_ | item⟩, t⟩ <;> rw [hscan] at hnext
    · rw [@lookahead_of_scan _ _ s t (.error f) hscan]
      rfl
    · rw [@lookahead_of_scan _ _ s t (.ok ()) hscan]
      rfl
    · rw [h.lookahead_of_token hscan]
      exact ih hnext

end Climbing

theorem lookahead_zero (s : Lexer ω τ) : s.lookahead 0 = (.ok none, s) :=
  lookahead_of_queued (Nat.zero_le _)

theorem lookaheadBy_of_not_count {v : Value} (h : ∀ n : Nat, v ≠ .int n) (s : Lexer ω τ) :
    s.lookaheadBy v = (.error (.ofComplaint (.badCount v)), s) := by
  cases v with
  | int i =>
    cases i with
    | ofNat n => exact absurd rfl (h n)
    | negSucc => rfl
  | _ => rfl

theorem isWritable_badCount (v : Value) :
    Diagnostic.isWritable { complaint := .badCount v } = v.isWritable :=
  Bool.and_true _

theorem lookaheadBy_refused {v : Value} (h : ∀ n : Nat, v ≠ .int n) (s : Lexer ω τ) :
    (v.isWritable = true →
        s.lookaheadBy v = (.error (.diagnostic { complaint := .badCount v }), s)) ∧
      (v.isWritable = false → s.lookaheadBy v = (.error .tooManyDigits, s)) := by
  rw [lookaheadBy_of_not_count h, Failure.ofComplaint]
  refine ⟨fun hwritable => ?_, fun hunwritable => ?_⟩
  · rw [Failure.ofDiagnostic_of_isWritable ((isWritable_badCount v).trans hwritable)]
  · rw [Failure.ofDiagnostic_of_not_isWritable ((isWritable_badCount v).trans hunwritable)]

end Lexer

-- ---------------------------------------------------------------------------
-- Whatever client code did before
-- ---------------------------------------------------------------------------

namespace Operation

open Lexer

variable {ω τ : Type} [TokenLike τ] {s : Lexer ω τ}

/-- Wherever ordinary client code has brought a lexer, the token found by looking ahead is the one
that as many scans would hand out last, and where these would end or fail, looking ahead ends or
fails in the same way. The cursor stays, and the queue is only added to. With a steady builder,
looking again finds the same and adds nothing. What is no count is refused and changes nothing; the
refusal shows it, and where it holds an integer of too many digits it is the writing that fails. -/
theorem lookahead_predicts_scans (input : Text) (rules : RuleTable) (builder : Builder ω τ)
    (settings : Settings ω τ) (memory : ω)
    (hmet : Meets Ordinary (start input rules builder settings memory) s) :
    (∀ n : Nat,
      let looked := s.lookaheadBy (.int (n + 1 : Nat))
      looked.1 = s.nthScan n ∧ SameCursor s looked.2 ∧ s.queue <+: looked.2.queue ∧
        (builder.Steady →
          let again := looked.2.lookaheadBy (.int (n + 1 : Nat))
          again.1 = looked.1 ∧ Undisturbed looked.2 again.2)) ∧
      s.lookaheadBy (.int 0) = (.ok none, s) ∧
      ∀ v, (∀ n : Nat, v ≠ .int n) →
        (v.isWritable = true →
          s.lookaheadBy v = (.error (.diagnostic { complaint := .badCount v }), s)) ∧
        (v.isWritable = false → s.lookaheadBy v = (.error .tooManyDigits, s)) := by
  have hclimbing : Climbing input s :=
    hmet.keeps (upheld_climbing input) (retracts_climbing input)
      (.of_queue_nil ⟨rfl, rfl, rfl⟩ rfl rfl)
  obtain ⟨hbuilder, -, hsound⟩ : Equipped builder settings s :=
    hmet.equipped ⟨rfl, rfl, Verified.sound_nil⟩
  refine ⟨fun n => ?_, lookahead_zero s, fun v hv => lookaheadBy_refused hv s⟩
  simp only [lookaheadBy_int]
  obtain ⟨hcursor, hqueue⟩ := sameCursor_lookahead s (n + 1)
  refine ⟨hclimbing.lookahead_eq_nthScan n, hcursor, hqueue, fun hsteady => ?_⟩
  exact lookahead_again (hbuilder ▸ hsteady) hsound (n + 1)

/-- What is queued comes after a gap and from a rule that was replaced since, and behind it and one
more token looking ahead fails. -/
theorem lookahead_predicts_scans_behind_gap :
    let s₀ : Lexer Unit (Token Text) :=
      start "abcd".toList (.ofSources [("letter", "^[a-z]")]) .standard .default ()
    let s := run s₀ [.lookahead (.int 2), .dequeue,
      .addRule (.text "letter".toList) (.text "^c".toList),
      .addRule (.text "edge".toList) (.text "^(?=d)".toList)]
    Meets Ordinary s₀ s ∧ s.position = 0 ∧ s.queue.map (·.lexeme.index) = [1] ∧
      (s.nthScan 1).isOk ∧ (s.nthScan 2).isOk = false ∧
      (∀ n : Nat,
        let looked := s.lookaheadBy (.int (n + 1 : Nat))
        looked.1 = s.nthScan n ∧ SameCursor s looked.2 ∧ s.queue <+: looked.2.queue ∧
          let again := looked.2.lookaheadBy (.int (n + 1 : Nat))
          again.1 = looked.1 ∧ Undisturbed looked.2 again.2) ∧
      s.lookaheadBy (.int (-1)) = (.error (.diagnostic { complaint := .badCount (.int (-1)) }), s) ∧
      s.lookaheadBy (.int (-Text.unwritten)) = (.error .tooManyDigits, s) := by
  intro s₀ s
  have hmet : Meets Ordinary s₀ s :=
    .between (Works.idle.of_along ⟨⟨trivial, trivial⟩, ⟨trivial, trivial⟩, ⟨trivial, trivial⟩,
      ⟨trivial, trivial⟩, trivial⟩)
  obtain ⟨hlooks, -, hrefuses⟩ :=
    lookahead_predicts_scans "abcd".toList (.ofSources [("letter", "^[a-z]")]) .standard .default ()
      hmet
  refine ⟨hmet, by decide +kernel, by decide +kernel, by decide +kernel, by decide +kernel,
    fun n => ?_, ?_, ?_⟩
  · obtain ⟨hscan, hcursor, hqueue, hagain⟩ := hlooks n
    exact ⟨hscan, hcursor, hqueue, hagain fun _ _ _ _ => rfl⟩
  · exact (hrefuses _ (by nofun)).1 (by decide +kernel)
  · have hpos := Text.unwritten_pos
    have hcount (n : Nat) : Value.int (-Text.unwritten) ≠ .int n := by
      intro h
      injection h with h
      omega
    exact (hrefuses _ hcount).2 (by decide +kernel)

/-- A token that is no count and ends where no place can be written out. The refusal cannot show it,
and is not about an argument. -/
theorem unwritable_count_not_refused :
    let l : Lexeme := ⟨"x".toList, (Text.unwritten - 1 : Nat), [], []⟩
    let v : Value := .token ⟨"W".toList, .text "x".toList, l, l.index, l.stop, []⟩
    (∀ n : Nat, v ≠ .int n) ∧ Failure.tooManyDigits.kind? ≠ some .invalidArgument ∧
      ∀ s : Lexer Unit (Token Text), s.lookaheadBy v = (.error .tooManyDigits, s) := by
  intro l v
  have hcount : ∀ n : Nat, v ≠ .int n := nofun
  have hunwritable : v.isWritable = false := by decide +kernel
  exact ⟨hcount, nofun, fun s => (lookaheadBy_refused hcount s).2 hunwritable⟩

end Operation

end PullLexer
