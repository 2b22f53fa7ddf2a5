import Mathlib.Data.List.Chain
import PullLexer.Proofs.Cursor

/-!
# The queue lines up with the input

As long as nothing is queued but tokens that an advance just made, the queued
lexemes lie one right after the other, from some place at or past the cursor up
to the head (`Tiled`, `Lined`). A dequeue may leave a gap before the first, which
a scan closes, and consuming directly leaves no queue. The rules may change
under way, since nothing is said about which rule made a token.
-/

namespace PullLexer

/-- The rules read from names and sources; a source that cannot be read adds none. -/
def RuleTable.ofSources (entries : List (String × String)) : RuleTable :=
  entries.foldl (fun table entry =>
    match table.add (.text entry.1.toList) (.text entry.2.toList) with
    | .ok (_, table) => table
    | .error _ => table) .empty

variable {ω τ : Type} {input : Text} {P : Entry τ → Prop} {p q : Nat} {e : Entry τ}
  {es : List (Entry τ)}

-- ---------------------------------------------------------------------------
-- Entries one right after the other
-- ---------------------------------------------------------------------------

/-- The lexeme of the entry starts at a place of the input, is not empty, and is true of the
input. -/
structure Entry.LiesAt (input : Text) (p : Nat) (e : Entry τ) : Prop where
  index_eq : e.lexeme.index = p
  text_ne_nil : e.lexeme.text ≠ []
  standsIn : e.lexeme.StandsIn input

namespace Entry.LiesAt

theorem stop_eq (h : e.LiesAt input p) : e.lexeme.stop = (p + e.lexeme.text.length : Nat) := by
  rw [Lexeme.stop, h.index_eq]
  omega

theorem lt (h : e.LiesAt input p) : p < p + e.lexeme.text.length :=
  Nat.lt_add_of_pos_right (List.length_pos_iff.mpr h.text_ne_nil)

theorem le_length (h : e.LiesAt input p) : p + e.lexeme.text.length ≤ input.length := by
  have hstop := h.standsIn.stop_le
  rw [h.stop_eq] at hstop
  omega

end Entry.LiesAt

/-- Entries with some property that cover a text from one place to another, in order and without
gaps. -/
inductive Tiled (input : Text) (P : Entry τ → Prop) : Nat → List (Entry τ) → Nat → Prop
  | nil {p : Nat} : Tiled input P p [] p
  | cons {p q : Nat} {e : Entry τ} {es : List (Entry τ)} : e.LiesAt input p → P e →
      Tiled input P (p + e.lexeme.text.length) es q → Tiled input P p (e :: es) q

namespace Tiled

theorem snoc (h : Tiled input P p es q) (he : e.LiesAt input q) (hP : P e) :
    Tiled input P p (es ++ [e]) (q + e.lexeme.text.length) := by
  induction h with
  | nil => exact .cons he hP .nil
  | cons hfirst hPfirst _ ih => exact .cons hfirst hPfirst (ih he)

theorem le (h : Tiled input P p es q) : p ≤ q := by
  induction h with
  | nil => exact Nat.le_refl _
  | cons he _ _ ih => exact Nat.le_trans (Nat.le_of_lt he.lt) ih

theorem eq_of_nil (h : Tiled input P p [] q) : q = p := by
  cases h
  rfl

theorem index_head (h : Tiled input P p es q) {first : Entry τ} (hfirst : es.head? = some first) :
    first.lexeme.index = p := by
  cases h with
  | nil => cases hfirst
  | cons he _ _ =>
    cases hfirst
    exact he.index_eq

theorem stop_getLast (h : Tiled input P p es q) {last : Entry τ} (hlast : es.getLast? = some last) :
    last.lexeme.stop = q := by
  induction h with
  | nil => cases hlast
  | @cons p q e es he _ hrest ih =>
    cases es with
    | nil =>
      obtain rfl : e = last := by simpa using hlast
      rw [hrest.eq_of_nil, he.stop_eq]
    | cons next rest => exact ih (by rwa [List.getLast?_cons_cons] at hlast)

theorem exists_liesAt (h : Tiled input P p es q) (hmem : e ∈ es) :
    ∃ n, p ≤ n ∧ e.LiesAt input n ∧ P e := by
  induction h with
  | nil => cases hmem
  | cons he hP _ ih =>
    rcases List.mem_cons.mp hmem with rfl | hmem
    · exact ⟨_, Nat.le_refl _, he, hP⟩
    · obtain ⟨n, hle, hn⟩ := ih hmem
      exact ⟨n, Nat.le_trans (Nat.le_of_lt he.lt) hle, hn⟩

theorem take_append_texts (h : Tiled input P p es q) :
    input.take p ++ es.flatMap (·.lexeme.text) = input.take q := by
  induction h with
  | nil => simp
  | cons he _ _ ih =>
    rw [← ih, List.flatMap_cons, ← List.append_assoc, List.take_add,
      ← he.standsIn.text_eq_take he.index_eq]

theorem isChain (h : Tiled input P p es q) :
    es.IsChain fun a b => b.lexeme.index = a.lexeme.stop := by
  induction h with
  | nil => exact .nil
  | cons he _ hrest ih =>
    cases hrest with
    | nil => exact .singleton _
    | cons hnext _ _ => exact .cons_cons (by rw [hnext.index_eq, he.stop_eq]) ih

end Tiled

-- ---------------------------------------------------------------------------
-- The invariant
-- ---------------------------------------------------------------------------

namespace Lexer

variable {s s' : Lexer ω τ}

/-- The queue covers the input from `p`, which is not before the cursor, to `q`, which is the head;
the token remembered lies at the head. -/
structure Lined (input : Text) (P : Entry τ → Prop) (p q : Nat) (s : Lexer ω τ) : Prop
    extends Whole input s where
  position_le : s.position ≤ p
  tiled : Tiled input P p s.queue q
  idle : s.queue = [] → q = s.position
  remembered : ∀ e, s.advanced = some e → e.LiesAt input q ∧ P e ∧ e.item.serial.isSome

theorem Whole.pass_of_liesAt (h : Whole input s) (he : e.LiesAt input p) (hle : s.position ≤ p) :
    Whole input (s.pass e) ∧ (s.pass e).position = p + e.lexeme.text.length := by
  have hpass := h.pass (.inl he.standsIn)
  have hsum := h.position_add
  have hlength := he.le_length
  refine ⟨hpass ▸ h.cut _, ?_⟩
  rw [hpass, cut_none]
  simp only [reach, he.stop_eq]
  omega

namespace Lined

theorem start (P : Entry τ → Prop) (input : Text) (rules : RuleTable) (builder : Builder ω τ)
    (settings : Settings ω τ) (memory : ω) :
    Lined input P 0 0 (start input rules builder settings memory) where
  input_eq := rfl
  consumed_append := rfl
  position_eq := rfl
  position_le := Nat.le_refl _
  tiled := .nil
  idle _ := rfl
  remembered _ h := nomatch h

theorem frame (h : Lined input P p q s) (rules : RuleTable) (verified : Verified) (issued : Nat)
    (journal : Journal) (memory : ω) :
    Lined input P p q { s with rules, verified, issued, journal, memory } where
  input_eq := h.input_eq
  consumed_append := h.consumed_append
  position_eq := h.position_eq
  position_le := h.position_le
  tiled := h.tiled
  idle := h.idle
  remembered := h.remembered

theorem advance (h : Lined input P p q s) {made : Option (Entry τ)}
    (hmade : ∀ e, made = some e → e.LiesAt input q ∧ P e ∧ e.item.serial.isSome) :
    Lined input P p q { s with advanced := made } where
  input_eq := h.input_eq
  consumed_append := h.consumed_append
  position_eq := h.position_eq
  position_le := h.position_le
  tiled := h.tiled
  idle := h.idle
  remembered := hmade

theorem forget (h : Lined input P p q s) : Lined input P p q { s with advanced := none } :=
  h.advance fun _ hnone => nomatch hnone

theorem produce {made : Except Failure (Option (Entry τ))} (h : Lined input P p q s)
    (hp : s.produce = (made, s')) : Lined input P p q s' := by
  obtain ⟨verified, memory, issued, journal, rfl, -⟩ := produce_frame hp
  exact h.frame s.rules verified issued journal memory

theorem head_eq (h : Lined input P p q s) : s.head = q := by
  unfold head headOffset
  split
  · rename_i last hlast
    rw [h.tiled.stop_getLast hlast]
    omega
  · rename_i hnone
    rw [h.idle (List.getLast?_eq_none_iff.mp hnone)]
    omega

theorem position_le_head (h : Lined input P p q s) : s.position ≤ q :=
  Nat.le_trans h.position_le h.tiled.le

theorem head_le_length (h : Lined input P p q s) : q ≤ input.length := by
  rcases List.eq_nil_or_concat s.queue with hq | ⟨init, last, hq⟩
  · have hsum := h.toWhole.position_add
    rw [h.idle hq]
    omega
  · rw [List.concat_eq_append] at hq
    have hlast : s.queue.getLast? = some last := by rw [hq, List.getLast?_concat]
    obtain ⟨n, -, hlies, -⟩ := h.tiled.exists_liesAt (List.mem_of_getLast? hlast)
    have hstop := hlies.standsIn.stop_le
    rw [h.tiled.stop_getLast hlast] at hstop
    omega

theorem ahead_eq (h : Lined input P p q s) : s.ahead = input.drop q := by
  have hhead := h.head_eq
  have hle := h.position_le_head
  rw [h.toWhole.ahead_eq (by unfold head at hhead; omega), hhead, Int.toNat_natCast]

theorem liesAt_produce (h : Lined input P p q s) (hp : s.produce = (.ok (some e), s')) :
    e.LiesAt input q := by
  obtain ⟨hindex, htext, hne⟩ := lexeme_produce hp
  rw [h.head_eq] at hindex
  rw [h.ahead_eq] at htext
  exact ⟨hindex, hne, Lexeme.standsIn_of_prefix hindex htext hne⟩

-- ---------------------------------------------------------------------------
-- Moves
-- ---------------------------------------------------------------------------

theorem push (h : Lined input P p q s) (he : e.LiesAt input q) (hP : P e) :
    Lined input P p (q + e.lexeme.text.length) (s.push e) where
  input_eq := h.input_eq
  consumed_append := h.consumed_append
  position_eq := h.position_eq
  position_le := h.position_le
  tiled := h.tiled.snoc he hP
  idle hq := absurd hq (by simp [Lexer.push])
  remembered _ hnone := nomatch hnone

/-- Taking the front leaves a gap before the rest, or no queue. -/
theorem pop {rest : List (Entry τ)} (h : Lined input P p q s) (hq : s.queue = e :: rest) :
    ∃ p' q', Lined input P p' q' ({ s with queue := rest, advanced := none } : Lexer ω τ) := by
  have htiled := hq ▸ h.tiled
  cases htiled with
  | cons he hP hrest =>
    have hwhole : Whole input ({ s with queue := rest, advanced := none } : Lexer ω τ) :=
      ⟨h.input_eq, h.consumed_append, h.position_eq⟩
    cases rest with
    | nil =>
      exact ⟨s.position, s.position, hwhole, Nat.le_refl _, .nil, fun _ => rfl,
        fun _ hnone => nomatch hnone⟩
    | cons next rest =>
      refine ⟨p + e.lexeme.text.length, q, hwhole, ?_, hrest, fun hnil => (nomatch hnil),
        fun _ hnone => nomatch hnone⟩
      exact Nat.le_trans h.position_le (Nat.le_of_lt he.lt)

theorem of_queue_nil (h : Whole input s) (hq : s.queue = []) (ha : s.advanced = none) :
    Lined input P s.position s.position s where
  toWhole := h
  position_le := Nat.le_refl _
  tiled := hq ▸ .nil
  idle _ := rfl
  remembered _ hsome := by rw [ha] at hsome; cases hsome

theorem front {rest : List (Entry τ)} (h : Lined input P p q s) (hq : s.queue = e :: rest) :
    e.LiesAt input p ∧ P e := by
  have htiled := hq ▸ h.tiled
  cases htiled with
  | cons he hP _ => exact ⟨he, hP⟩

theorem serve {rest : List (Entry τ)} (h : Lined input P p q s) (hq : s.queue = e :: rest) :
    let t := ({ s with queue := rest, advanced := none } : Lexer ω τ).pass e
    t.position = p + e.lexeme.text.length ∧ Lined input P t.position q t := by
  have htiled := hq ▸ h.tiled
  cases htiled with
  | cons he hP hrest =>
    have hpopped : Whole input ({ s with queue := rest, advanced := none } : Lexer ω τ) :=
      ⟨h.input_eq, h.consumed_append, h.position_eq⟩
    obtain ⟨hwhole, hposition⟩ := hpopped.pass_of_liesAt he h.position_le
    refine ⟨hposition, hwhole, Nat.le_refl _, hposition ▸ hrest, fun hnil => ?_,
      fun _ hnone => nomatch hnone⟩
    obtain rfl : rest = [] := hnil
    rw [hposition, hrest.eq_of_nil]

theorem pass (h : Lined input P p q s) (hq : s.queue = []) (he : e.LiesAt input q) :
    (s.pass e).position = q + e.lexeme.text.length ∧
      Lined input P (s.pass e).position (s.pass e).position (s.pass e) := by
  obtain ⟨hwhole, hposition⟩ := h.toWhole.pass_of_liesAt he h.position_le_head
  exact ⟨hposition, of_queue_nil hwhole hq rfl⟩

end Lined

end Lexer

-- ---------------------------------------------------------------------------
-- What it comes to
-- ---------------------------------------------------------------------------

namespace Lexer

variable {s s' : Lexer ω τ}

structure Aligned (input : Text) (s : Lexer ω τ) : Prop where
  queued : ∀ e ∈ s.queue, e.lexeme.text ≠ [] ∧ e.lexeme.StandsIn input
  contiguous : s.queue.IsChain fun a b => b.lexeme.index = a.lexeme.stop
  le_first : ∀ first, s.queue.head? = some first → (s.position : Int) ≤ first.lexeme.index
  last_le : ∀ last, s.queue.getLast? = some last → last.lexeme.stop ≤ input.length
  /-- The token that an advance makes starts where the queue ends, or at the cursor. -/
  advance_index : ∀ item s', s.advance = (.ok (some item), s') →
    ∃ e, s'.advanced = some e ∧ e.item = item ∧
      (∀ last, s.queue.getLast? = some last → e.lexeme.index = last.lexeme.stop) ∧
      (s.queue = [] → e.lexeme.index = s.position)
  queue_nil : s.remaining = [] → s.queue = []
  atEnd_iff : s.atEnd ↔ s.position = input.length

namespace Lined

theorem queue_nil (h : Lined input P p q s) (hr : s.remaining = []) : s.queue = [] := by
  have hsum := h.toWhole.position_add
  cases hq : s.queue with
  | nil => rfl
  | cons e rest =>
    obtain ⟨he, -⟩ := h.front hq
    have hlt := he.lt
    have hlength := he.le_length
    have hle := h.position_le
    rw [hr, List.length_nil] at hsum
    omega

theorem advance_index (h : Lined input P p q s) {item : Item τ}
    (hadvance : s.advance = (.ok (some item), s')) :
    ∃ e, s'.advanced = some e ∧ e.item = item ∧ e.lexeme.index = q := by
  rcases advance_cases s with ⟨made, t, hp, ha⟩ | ⟨f, t, -, ha⟩ <;> rw [ha] at hadvance
  · cases made with
    | none => cases hadvance
    | some e =>
      cases hadvance
      exact ⟨e, rfl, rfl, (h.liesAt_produce hp).index_eq⟩
  · cases hadvance

theorem atEnd_iff (h : Lined input P p q s) : s.atEnd ↔ s.position = input.length := by
  have hsum := h.toWhole.position_add
  constructor
  · intro hend
    have hr : s.remaining = [] := by simpa [atEnd] using (Bool.and_eq_true_iff.mp hend).1
    rw [hr, List.length_nil] at hsum
    omega
  · intro hposition
    have hr : s.remaining = [] := List.length_eq_zero_iff.mp (by omega)
    simp [atEnd, hr, h.queue_nil hr]

theorem aligned (h : Lined input P p q s) : Aligned input s where
  queued e hmem := by
    obtain ⟨n, -, he, -⟩ := h.tiled.exists_liesAt hmem
    exact ⟨he.text_ne_nil, he.standsIn⟩
  contiguous := h.tiled.isChain
  le_first first hfirst := by
    obtain ⟨n, hle, he, -⟩ := h.tiled.exists_liesAt (List.mem_of_head? hfirst)
    have hposition := h.position_le
    rw [he.index_eq]
    omega
  last_le last hlast := by
    have hle := h.head_le_length
    rw [h.tiled.stop_getLast hlast]
    omega
  advance_index item s' hadvance := by
    obtain ⟨e, hremembered, hitem, hindex⟩ := h.advance_index hadvance
    refine ⟨e, hremembered, hitem, fun last hlast => ?_, fun hq => ?_⟩
    · rw [hindex, h.tiled.stop_getLast hlast]
    · rw [hindex, h.idle hq]
  queue_nil := h.queue_nil
  atEnd_iff := h.atEnd_iff

theorem lexemeUnder_eq [TokenLike τ] (h : Lined input P p q s) (ha : s.advanced = some e) :
    s.lexemeUnder e.item none = .ok e.lexeme :=
  lexemeUnder_advanced ha (h.remembered e ha).2.2

theorem sustained (input : Text) : Sustained (ω := ω) (τ := τ) fun _ s =>
    ∃ p q, Lined input (fun _ => True) p q s where
  remember memory := fun ⟨p, q, h⟩ => ⟨p, q, h.frame _ _ _ _ memory⟩
  forget := fun ⟨p, q, h⟩ => ⟨p, q, h.forget⟩
  produce := fun ⟨p, q, h⟩ hp => ⟨p, q, h.produce hp⟩
  push := fun ⟨p, _, h⟩ hp => ⟨p, _, (h.produce hp).push (h.liesAt_produce hp) trivial⟩
  pass := fun ⟨_, _, h⟩ hq hp =>
    ⟨_, _, ((h.produce hp).pass (queue_produce hp ▸ hq) (h.liesAt_produce hp)).2⟩
  serve := fun ⟨_, q, h⟩ hq => ⟨_, q, (h.serve hq).2⟩

end Lined

end Lexer

-- ---------------------------------------------------------------------------
-- Over whole runs
-- ---------------------------------------------------------------------------

namespace Operation

open Lexer

variable [TokenLike τ]

/-- Only the token that an advance just made is queued, nothing is consumed as a given text, and
guards leave the lexer alone. -/
def Orderly (s : Lexer ω τ) : Operation ω τ → Prop
  | .enqueue (some item) given => given = none ∧ ∃ e, s.advanced = some e ∧ item = e.item
  | .consume _ (.text _) => False
  | .scanGuarded accepts _ => accepts.LeavesLexer
  | _ => True

theorem upheld_lined (input : Text) : Upheld (ω := ω) (τ := τ) Orderly fun s =>
    ∃ p q, Lined input (fun _ => True) p q s where
  moves := Lined.sustained input
  guard h := h
  advance {_ _ made} := fun ⟨p, q, h⟩ hp => by
    refine ⟨p, q, (h.produce hp).advance fun e he => ?_⟩
    subst he
    exact ⟨h.liesAt_produce hp, trivial, by rw [(produce_some hp).2.1, Option.isSome_some]⟩
  pop := fun ⟨_, _, h⟩ hq => h.pop hq
  enqueue := fun ⟨p, _, h⟩ hop hl => by
    obtain ⟨rfl, e, ha, rfl⟩ := hop
    obtain ⟨he, hP, -⟩ := h.remembered e ha
    rw [h.lexemeUnder_eq ha] at hl
    cases hl
    exact ⟨p, _, h.push he hP⟩
  discard {s} journal := fun ⟨_, _, h⟩ =>
    ⟨_, _, .of_queue_nil ⟨h.input_eq, h.consumed_append, h.position_eq⟩ rfl rfl⟩
  cut length := fun ⟨_, _, h⟩ hq => ⟨_, _, .of_queue_nil (h.toWhole.cut length) hq rfl⟩
  cutGiven _ _ hop _ := hop.elim
  register rules journal := fun ⟨p, q, h⟩ => ⟨p, q, h.frame rules _ _ journal _⟩
  verify verified := fun ⟨p, q, h⟩ _ => ⟨p, q, h.frame _ verified _ _ _⟩

/-- All along an orderly run the queue is aligned with the input. -/
theorem aligned_along_run (input : Text) (rules : RuleTable) (builder : Builder ω τ)
    (settings : Settings ω τ) (memory : ω) (operations : List (Operation ω τ))
    (hrun : Along Orderly (start input rules builder settings memory) operations) :
    ∀ t ∈ trail (start input rules builder settings memory) operations, Aligned input t := by
  intro t ht
  obtain ⟨p, q, h⟩ :=
    (upheld_lined input).trail ⟨0, 0, .start _ input rules builder settings memory⟩ hrun t ht
  exact h.aligned

/-- A run that queues a token made by an advance behind one that was looked at. -/
theorem aligned_along_advancing_run :
    let token (serial : Nat) (index : Int) : Item (Token Text) :=
      ⟨.plain "A".toList ⟨"a".toList, index, [], []⟩, some serial, none⟩
    let operations : List (Operation Unit (Token Text)) :=
      [.peek, .advance, .enqueue (some (token 1 1)) none, .dequeue, .scan, .consume (.int 1) .null]
    let s : Lexer Unit (Token Text) :=
      start "aaab".toList (.ofSources [("A", "^a")]) .standard .default ()
    Along Orderly s operations ∧ ∀ t ∈ trail s operations, Aligned "aaab".toList t := by
  intro token operations s
  have hrun : Along Orderly s operations :=
    ⟨trivial, trivial, ⟨rfl, ⟨token 1 1, ⟨"a".toList, 1, [], []⟩⟩, rfl, rfl⟩, trivial, trivial,
      trivial, trivial⟩
  exact ⟨hrun, aligned_along_run "aaab".toList _ .standard .default () operations hrun⟩

end Operation

end PullLexer
