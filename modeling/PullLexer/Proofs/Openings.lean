import Mathlib.Algebra.BigOperators.Group.List.Basic
import Mathlib.Computability.Language
import PullLexer.Pattern.Basic

/-!
# Openings of a text

An expression of character tests, sequences, alternatives and greedy loops is
plain: it looks at nothing but the characters it reads. What it can read is a
language (`Expr.language`), and backtracking leaves no word of it untried
(`Expr.reads_attempt`). A plain pattern therefore matches exactly the texts that
open with a word of its language.
-/

namespace PullLexer.Pattern

variable {p : Place} {rest : Rest} {body first second : Step} {L M : Language Char} {u v : Text}

-- ---------------------------------------------------------------------------
-- Places further on
-- ---------------------------------------------------------------------------

namespace Place

/-- The place behind `u`, where `v` is left. -/
def past (p : Place) (u v : Text) : Place :=
  { p with before := u.reverse ++ p.before, after := v, offset := p.offset + u.length }

/-- As many characters lie ahead as the size says. -/
def Fits (p : Place) : Prop := p.offset + p.after.length = p.size

theorem fits_start (t : Text) : (start t).Fits := Nat.zero_add _

theorem Fits.past (h : p.Fits) (hsplit : p.after = u ++ v) : (p.past u v).Fits := by
  rw [Fits, hsplit, List.length_append, ← Nat.add_assoc] at h
  exact h

theorem past_past (p : Place) (u v u' v' : Text) :
    (p.past u v).past u' v' = p.past (u ++ u') v' := by
  simp only [past, List.reverse_append, List.append_assoc, List.length_append, Nat.add_assoc]

end Place

-- ---------------------------------------------------------------------------
-- Words ahead
-- ---------------------------------------------------------------------------

/-- A word of the language lies ahead, and the place behind it is accepted. -/
def Opens (L : Language Char) (p : Place) (accepts : Place → Prop) : Prop :=
  ∃ u v, p.after = u ++ v ∧ u ∈ L ∧ accepts (p.past u v)

section

variable {accepts accepts' : Place → Prop}

theorem opens_one : Opens 1 p accepts ↔ accepts p := by
  constructor
  · rintro ⟨_, v, hsplit, rfl, haccepted⟩
    obtain rfl : p.after = v := hsplit
    exact haccepted
  · exact fun haccepted => ⟨[], p.after, rfl, rfl, haccepted⟩

theorem opens_zero : ¬ Opens 0 p accepts := fun ⟨u, _, _, hu, _⟩ => Language.notMem_zero u hu

theorem opens_add : Opens (L + M) p accepts ↔ Opens L p accepts ∨ Opens M p accepts := by
  simp only [Opens, Language.mem_add, or_and_right, and_or_left, exists_or]

theorem opens_mul : Opens (L * M) p accepts ↔ Opens L p fun q => Opens M q accepts := by
  constructor
  · rintro ⟨_, v, hsplit, ⟨u, hu, u', hu', rfl⟩, haccepted⟩
    refine ⟨u, u' ++ v, by simpa using hsplit, hu, u', v, rfl, hu', ?_⟩
    rwa [Place.past_past]
  · rintro ⟨u, _, hsplit, hu, u', v, rfl, hu', haccepted⟩
    rw [Place.past_past] at haccepted
    exact ⟨u ++ u', v, by simpa using hsplit, Language.append_mem_mul hu hu', haccepted⟩

theorem opens_congr (hp : p.Fits) (h : ∀ q : Place, q.Fits → (accepts q ↔ accepts' q)) :
    Opens L p accepts ↔ Opens L p accepts' := by
  refine exists_congr fun u => exists_congr fun v => and_congr_right fun hsplit => ?_
  rw [h _ (hp.past hsplit)]

end

-- ---------------------------------------------------------------------------
-- Steps that read a language
-- ---------------------------------------------------------------------------

/-- The step tries every word of the language ahead, and nothing else. -/
def Reads (step : Step) (L : Language Char) : Prop :=
  ∀ p rest, p.Fits → ((step p rest).isSome ↔ Opens L p fun q => (rest q).isSome)

theorem Reads.seq (hfirst : Reads first L) (hsecond : Reads second M) :
    Reads (fun p rest => first p fun q => second q rest) (L * M) := by
  intro p rest hp
  rw [hfirst _ _ hp, opens_mul]
  exact opens_congr hp fun q hq => hsecond q rest hq

theorem Reads.times (hbody : Reads body L) (n : Nat) : Reads (times body n) (L ^ n) := by
  induction n with
  | zero =>
    intro p rest _
    rw [pow_zero, opens_one]
    rfl
  | succ n ih =>
    rw [pow_succ']
    exact hbody.seq ih

namespace Reads

theorem exists_pow_of_greedyRounds (hbody : Reads body L) (hp : p.Fits) {rounds : Nat}
    {last : Option Nat} (h : (greedyRounds body rounds last p rest).isSome) :
    ∃ k ≤ rounds, Opens (L ^ k) p fun q => (rest q).isSome := by
  have stop {rounds : Nat} {p : Place} (haccepted : (rest p).isSome) :
      ∃ k ≤ rounds, Opens (L ^ k) p fun q => (rest q).isSome :=
    ⟨0, Nat.zero_le _, by rwa [pow_zero, opens_one]⟩
  induction rounds generalizing last p with
  | zero => exact stop h
  | succ rounds ih =>
    unfold greedyRounds at h
    split at h
    · exact stop h
    · split at h
      · rename_i found hround
        obtain ⟨u, v, hsplit, hu, hmore⟩ := (hbody _ _ hp).mp (Option.isSome_of_eq_some hround)
        obtain ⟨k, hk, hopens⟩ := ih (hp.past hsplit) hmore
        refine ⟨k + 1, Nat.succ_le_succ hk, ?_⟩
        rw [pow_succ', opens_mul]
        exact ⟨u, v, hsplit, hu, hopens⟩
      · exact stop h

/-- A loop reads any words within its bound, as long as none of them is empty: after an empty one no
further round is tried. -/
theorem greedyRounds_of_words (hbody : Reads body L) (hp : p.Fits) {words : List Text}
    (hwords : ∀ w ∈ words, w ∈ L ∧ w ≠ []) (hsplit : p.after = words.flatten ++ v)
    (haccepted : (rest (p.past words.flatten v)).isSome) {rounds : Nat}
    (hrounds : words.length ≤ rounds) {last : Option Nat} (hlast : last ≠ some p.offset) :
    (greedyRounds body rounds last p rest).isSome := by
  induction words generalizing p rounds last with
  | nil =>
    obtain rfl : p.after = v := hsplit
    cases rounds with
    | zero => exact haccepted
    | succ rounds =>
      rw [greedyRounds, if_neg hlast]
      split
      · rfl
      · exact haccepted
  | cons w words ih =>
    obtain ⟨⟨hw, hne⟩, hwords⟩ := List.forall_mem_cons.mp hwords
    obtain ⟨rounds, rfl⟩ := Nat.exists_eq_succ_of_ne_zero (Nat.ne_zero_of_lt hrounds)
    rw [List.flatten_cons, List.append_assoc] at hsplit
    rw [List.flatten_cons, ← Place.past_past p w (words.flatten ++ v)] at haccepted
    have hmoved : some p.offset ≠ some (p.past w (words.flatten ++ v)).offset := by
      have := List.length_pos_iff.mpr hne
      simp only [Place.past, ne_eq, Option.some.injEq]
      omega
    have hround : (body p fun q => greedyRounds body rounds (some p.offset) q rest).isSome :=
      (hbody _ _ hp).mpr ⟨w, words.flatten ++ v, hsplit, hw,
        ih (hp.past hsplit) hwords rfl haccepted (Nat.le_of_succ_le_succ hrounds) hmoved⟩
    rw [greedyRounds, if_neg hlast]
    split
    · rfl
    · rename_i hfailed
      rw [hfailed] at hround
      cases hround

/-- The bound on the rounds of a loop that counts the characters left cuts off no word: what many
words read, no more of them than there are characters left read as well. -/
theorem greedyRounds_iff (hbody : Reads body L) (hp : p.Fits) (least : Nat) (most : Option Nat) :
    (greedyRounds body (p.rounds least most) none p rest).isSome ↔
      ∃ k, (∀ m ∈ most, k ≤ m - least) ∧ Opens (L ^ k) p fun q => (rest q).isSome := by
  constructor
  · intro h
    obtain ⟨k, hk, hopens⟩ := hbody.exists_pow_of_greedyRounds hp h
    refine ⟨k, ?_, hopens⟩
    rintro m ⟨⟩
    exact hk.trans (Nat.min_le_left _ _)
  · rintro ⟨k, hk, u, v, hsplit, hu, haccepted⟩
    obtain ⟨words, rfl, rfl, hwords⟩ := Language.mem_pow.mp hu
    let proper := words.filter (!·.isEmpty)
    have hproper : ∀ w ∈ proper, w ∈ L ∧ w ≠ [] := fun w hw => by
      have := List.mem_filter.mp hw
      exact ⟨hwords w this.1, by simpa using this.2⟩
    have hflatten : words.flatten = proper.flatten := List.flatten_filter_not_isEmpty.symm
    rw [hflatten] at hsplit haccepted
    refine hbody.greedyRounds_of_words hp hproper hsplit haccepted ?_ (by nofun)
    have hfew : proper.length ≤ words.length := List.length_filter_le _ _
    have hshort : proper.length ≤ proper.flatten.length := by
      have hpos : ∀ n ∈ proper.map List.length, 1 ≤ n :=
        List.forall_mem_map.mpr fun w hw => List.length_pos_iff.mpr (hproper w hw).2
      simpa [List.length_flatten] using List.length_le_sum_of_one_le _ hpos
    have hleft := congrArg List.length hsplit
    rw [Place.Fits] at hp
    rw [List.length_append] at hleft
    cases most with
    | none => simp only [Place.rounds]; omega
    | some m =>
      have := hk m rfl
      simp only [Place.rounds]
      omega

theorem loop (hbody : Reads body L) (least : Nat) (most : Option Nat) :
    Reads (repeated body least most .greedy)
      {u | ∃ k, (∀ m ∈ most, k ≤ m - least) ∧ u ∈ L ^ (least + k)} := by
  intro p rest hp
  have hrounds : (repeated body least most .greedy p rest).isSome ↔
      Opens (L ^ least) p fun q =>
        ∃ k, (∀ m ∈ most, k ≤ m - least) ∧ Opens (L ^ k) q fun q => (rest q).isSome :=
    (hbody.times least _ _ hp).trans
      (opens_congr hp fun q hq => hbody.greedyRounds_iff hq least most)
  rw [hrounds]
  constructor
  · rintro ⟨u, v, hsplit, hu, k, hk, hopens⟩
    have hboth := opens_mul.mpr ⟨u, v, hsplit, hu, hopens⟩
    rw [← pow_add] at hboth
    obtain ⟨w, v, hsplit, hw, haccepted⟩ := hboth
    exact ⟨w, v, hsplit, ⟨k, hk, hw⟩, haccepted⟩
  · rintro ⟨w, v, hsplit, ⟨k, hk, hw⟩, haccepted⟩
    rw [pow_add] at hw
    have hboth : Opens (L ^ least * L ^ k) p fun q => (rest q).isSome :=
      ⟨w, v, hsplit, hw, haccepted⟩
    obtain ⟨u, v, hsplit, hu, hopens⟩ := opens_mul.mp hboth
    exact ⟨u, v, hsplit, hu, k, hk, hopens⟩

end Reads

-- ---------------------------------------------------------------------------
-- Plain expressions
-- ---------------------------------------------------------------------------

namespace Expr

/-- Made of character tests, sequences, alternatives and greedy loops. -/
def plain : Expr → Bool
  | .empty | .never | .one _ => true
  | .seq first second | .alt first second => first.plain && second.plain
  | .loop _ _ .greedy body => body.plain
  | _ => false

/-- The words that a plain expression stands for. -/
def language : Expr → Language Char
  | .empty => 1
  | .one test => {u | ∃ c : Char, test.accepts c.toNat ∧ u = [c]}
  | .seq first second => first.language * second.language
  | .alt first second => first.language + second.language
  | .loop least most _ body =>
    {u | ∃ k, (∀ m ∈ most, k ≤ m - least) ∧ u ∈ body.language ^ (least + k)}
  | _ => 0

theorem reads_empty : Reads empty.attempt empty.language := by
  intro p rest _
  show (rest p).isSome ↔ Opens 1 p fun q => (rest q).isSome
  rw [opens_one]

theorem reads_never : Reads never.attempt never.language := by
  intro p rest _
  exact iff_of_false nofun opens_zero

theorem reads_one (test : CharTest) : Reads (one test).attempt (one test).language := by
  intro p rest _
  simp only [attempt]
  constructor
  · intro h
    split at h
    · cases h
    · rename_i c after hafter
      split at h
      · rename_i haccepts
        exact ⟨[c], after, hafter, ⟨c, haccepts, rfl⟩, h⟩
      · cases h
  · rintro ⟨_, v, hsplit, ⟨c, haccepts, rfl⟩, haccepted⟩
    have hafter : p.after = c :: v := hsplit
    simp only [hafter, if_pos haccepts]
    exact haccepted

theorem reads_alt {e₁ e₂ : Expr} (h₁ : Reads e₁.attempt L) (h₂ : Reads e₂.attempt M) :
    Reads (alt e₁ e₂).attempt (L + M) := by
  intro p rest hp
  have hor : (alt e₁ e₂).attempt p rest = (e₁.attempt p rest).or (e₂.attempt p rest) := by
    rw [attempt]
    cases e₁.attempt p rest <;> rfl
  rw [hor, Option.isSome_or, Bool.or_eq_true, h₁ p rest hp, h₂ p rest hp, opens_add]

theorem reads_attempt {e : Expr} (h : e.plain) : Reads e.attempt e.language := by
  induction e with
  | empty => exact reads_empty
  | never => exact reads_never
  | one test => exact reads_one test
  | seq first second ihfirst ihsecond =>
    rw [plain, Bool.and_eq_true] at h
    exact (ihfirst h.1).seq (ihsecond h.2)
  | alt first second ihfirst ihsecond =>
    rw [plain, Bool.and_eq_true] at h
    exact reads_alt (ihfirst h.1) (ihsecond h.2)
  | loop least most greed body ih =>
    cases greed with
    | greedy => exact (ih h).loop least most
    | _ => cases h
  | _ => cases h

theorem mem_language_literal {c : Char} :
    u ∈ (one (.literal .exact c.toNat)).language ↔ u = [c] := by
  constructor
  · rintro ⟨d, haccepts, rfl⟩
    have hcode : c.toNat = d.toNat := beq_iff_eq.mp haccepts
    rw [Char.toNat_inj.mp hcode]
  · rintro rfl
    exact ⟨c, Casing.same_refl .exact _, rfl⟩

theorem mem_language_optional {e : Expr} :
    u ∈ (loop 0 (some 1) .greedy e).language ↔ u = [] ∨ u ∈ e.language := by
  constructor
  · rintro ⟨k, hk, hu⟩
    obtain rfl | rfl : k = 0 ∨ k = 1 := Nat.le_one_iff_eq_zero_or_eq_one.mp (hk 1 rfl)
    · exact .inl hu
    · exact .inr (by simpa using hu)
  · rintro (rfl | hu)
    · exact ⟨0, by simp, by simp⟩
    · exact ⟨1, by simp, by simpa using hu⟩

theorem mem_language_pow {test : CharTest} {n : Nat} :
    u ∈ (one test).language ^ n ↔ u.length = n ∧ ∀ c ∈ u, test.accepts c.toNat := by
  induction n generalizing u with
  | zero =>
    rw [pow_zero, Language.mem_one, List.length_eq_zero_iff]
    exact ⟨fun h => ⟨h, h ▸ List.forall_mem_nil _⟩, And.left⟩
  | succ n ih =>
    rw [pow_succ', Language.mem_mul]
    constructor
    · rintro ⟨_, ⟨c, haccepts, rfl⟩, v, hv, rfl⟩
      obtain ⟨hlength, hv⟩ := ih.mp hv
      exact ⟨congrArg Nat.succ hlength, List.forall_mem_cons.mpr ⟨haccepts, hv⟩⟩
    · rintro ⟨hlength, hu⟩
      obtain ⟨c, v, rfl⟩ := List.exists_cons_of_length_eq_add_one hlength
      obtain ⟨haccepts, hv⟩ := List.forall_mem_cons.mp hu
      exact ⟨[c], ⟨c, haccepts, rfl⟩, v, ih.mpr ⟨Nat.succ.inj hlength, hv⟩, rfl⟩

theorem mem_language_many {test : CharTest} :
    u ∈ (loop 1 none .greedy (one test)).language ↔
      u ≠ [] ∧ ∀ c ∈ u, test.accepts c.toNat := by
  constructor
  · rintro ⟨k, -, hu⟩
    obtain ⟨hlength, hu⟩ := mem_language_pow.mp hu
    exact ⟨List.ne_nil_of_length_pos (by omega), hu⟩
  · rintro ⟨hne, hu⟩
    have hpos := List.length_pos_iff.mpr hne
    exact ⟨u.length - 1, nofun, mem_language_pow.mpr ⟨by omega, hu⟩⟩

end Expr

theorem isSome_matchStart_iff {q : Pattern} (h : q.expr.plain) (t : Text) :
    (q.matchStart? t).isSome ↔ ∃ u ∈ q.expr.language, u <+: t := by
  rw [matchStart?, matchAt?, Option.isSome_map, Expr.reads_attempt h _ _ (Place.fits_start t)]
  constructor
  · rintro ⟨u, v, hsplit, hu, -⟩
    exact ⟨u, hu, v, hsplit.symm⟩
  · rintro ⟨u, hu, v, rfl⟩
    exact ⟨u, v, rfl, hu, rfl⟩

end PullLexer.Pattern
