import Mathlib.Algebra.Order.Ring.Int
import Mathlib.Tactic.SplitIfs
import PullLexer.Lexeme.Lookup

/-!
# What the groups of a match captured

A lexeme keeps what the groups of a match captured twice: in a row, where the
first group stands in place zero, and in a table of names. A lookup by name or
by a number that is not negative answers as the match does, and is a failed
lookup where the pattern has no such group (`Lookup`). A negative number is a
place from the end of the row: where the row is long enough it leads to a group,
though the match has none of that number (`Lexeme.group_ofMatch_of_neg`).
-/

namespace PullLexer

def Failure.IsLookup : Failure → Prop
  | .noSuchIndex | .indexTooLarge | .noSuchKey _ => True
  | _ => False

/-- What looking up a group comes to, by what the match says of it. -/
inductive Lookup : Option (Option Text) → Except Failure (Option Text) → Prop
  | captured (t : Option Text) : Lookup (some t) (.ok t)
  | missing {f : Failure} : f.IsLookup → Lookup none (.error f)

namespace Pattern.Match

theorem group_of_pos (m : Match) {n : Int} (h : 0 < n) :
    m.group? n = m.groups[(n - 1).toNat]? := by
  simp only [group?, if_neg h.ne', if_pos h]

theorem group_of_neg (m : Match) {n : Int} (h : n < 0) : m.group? n = none := by
  simp only [group?, if_neg h.ne, if_neg h.not_gt]

theorem isSome_group_iff (m : Match) (n : Int) :
    (m.group? n).isSome ↔ 0 ≤ n ∧ n ≤ m.groups.length := by
  unfold group?
  split_ifs with hzero hpos
  · simp only [Option.isSome_some, true_iff]
    omega
  · rw [isSome_getElem?]
    omega
  · simp only [Option.isSome_none, Bool.false_eq_true, false_iff]
    omega

theorem group_of_mem_names {m : Match} {entry : Text × Nat} (h : entry ∈ m.names) :
    m.group? entry.2 = some (m.group? entry.2).join := by
  obtain ⟨hpos, hle⟩ := m.names_le entry h
  obtain ⟨captured, hcaptured⟩ :=
    Option.isSome_iff_exists.mp ((m.isSome_group_iff entry.2).mpr (by omega))
  rw [hcaptured]
  rfl

theorem isSome_named_iff (m : Match) (name : Text) :
    (m.named? name).isSome ↔ ∃ n, (name, n) ∈ m.names := by
  unfold named?
  split
  · rename_i entry hfind
    have hmem := List.mem_of_find?_eq_some hfind
    have hname : entry.1 = name := by simpa using List.find?_some hfind
    rw [group_of_mem_names hmem]
    exact iff_of_true rfl ⟨entry.2, hname ▸ hmem⟩
  · rename_i hfind
    refine iff_of_false (by simp) ?_
    rintro ⟨n, hmem⟩
    simpa using List.find?_eq_none.mp hfind (name, n) hmem

end Pattern.Match

namespace Lexeme

open Pattern (Match Place)

theorem named_ofMatch (m : Match) (index : Int) (name : Text) :
    (ofMatch m index).named? name = m.named? name := by
  simp only [named?, ofMatch, Match.named, List.find?_map, Option.map_map, Match.named?]
  have hfind : m.names.find? ((fun entry => entry.1 == name) ∘
      fun entry : Text × Nat => (entry.1, (m.group? entry.2).join)) =
        m.names.find? (·.1 == name) := rfl
  rw [hfind]
  split
  · rename_i entry hentry
    rw [hentry, Match.group_of_mem_names (List.mem_of_find?_eq_some hentry)]
    rfl
  · rename_i hnone
    rw [hnone]
    rfl

/-- A positive number is a place in the row, counted from one. -/
theorem group_of_pos (l : Lexeme) {n : Int} (h : 0 < n) :
    l.group? n = l.groups[(n - 1).toNat]? := by
  have hplace : ¬ n - 1 < 0 := by omega
  simp only [group?, if_neg h.ne', if_neg hplace]

/-- A negative number is a place from the end of the row, one before it. -/
theorem group_of_neg (l : Lexeme) {n : Int} (h : n < 0) :
    l.group? n =
      if -(l.groups.length : Int) < n then l.groups[(n + l.groups.length - 1).toNat]?
      else none := by
  have hplace : n - 1 < 0 := by omega
  have hswap : n - 1 + l.groups.length = n + l.groups.length - 1 := by omega
  simp only [group?, if_neg h.ne, if_pos hplace, hswap]
  by_cases hrow : -(l.groups.length : Int) < n
  · rw [if_pos hrow, if_neg (by omega)]
  · rw [if_neg hrow, if_pos (by omega)]

theorem group_ofMatch (m : Match) (index : Int) {n : Int} (h : 0 ≤ n ∨ n ≤ -m.groups.length) :
    (ofMatch m index).group? n = m.group? n := by
  rcases Int.lt_trichotomy n 0 with hneg | rfl | hpos
  · have hrow : ¬ -(m.groups.length : Int) < n := by omega
    rw [group_of_neg _ hneg, m.group_of_neg hneg]
    exact if_neg hrow
  · rfl
  · rw [group_of_pos _ hpos, m.group_of_pos hpos]
    rfl

theorem group_ofMatch_of_neg (m : Match) (index : Int) {n : Int} (hneg : n < 0)
    (hrow : -(m.groups.length : Int) < n) :
    (ofMatch m index).group? n = m.group? (n + m.groups.length) := by
  have hpos : 0 < n + m.groups.length := by omega
  rw [group_of_neg _ hneg, m.group_of_pos hpos]
  exact if_pos hrow

theorem lookup_groupByNumber (l : Lexeme) (n : Int) : Lookup (l.group? n) (l.groupByNumber n) := by
  unfold groupByNumber
  cases l.group? n with
  | some captured => exact .captured captured
  | none =>
    refine .missing ?_
    split_ifs <;> trivial

theorem lookup_group_text (l : Lexeme) (name : Text) :
    Lookup (l.named? name) (l.group (.text name)) := by
  dsimp only [group]
  cases l.named? name with
  | some captured => exact .captured captured
  | none => exact .missing trivial

theorem group_int_of_some {l : Lexeme} {n : Int} {captured : Option Text}
    (h : l.group? n = some captured) : l.group (.int n) = .ok captured := by
  show l.groupByNumber n = _
  simp only [groupByNumber, h]

/-- Whatever a pattern matched between two places, its lexeme has the text of the match at the index
of the match, and a lookup by name answers as the match does, where the names are those of the
pattern. So does a lookup by number, where the groups are those of the pattern, except that a
negative number above minus their count leads to a group, which is the one that many numbers on. -/
theorem groups_of_match (p : Pattern) (place finish : Place) (index : Int) :
    let m := p.matchBetween place finish
    let l := ofMatch m index
    (m.group? 0 = some (some l.text) ∧ l.index = index + m.start ∧
        l.stop - l.index = l.text.length) ∧
      (∀ name, ((m.named? name).isSome ↔ ∃ n, (name, n) ∈ p.groupNames) ∧
        Lookup (m.named? name) (l.group (.text name))) ∧
      ∀ n : Int, ((m.group? n).isSome ↔ 0 ≤ n ∧ n ≤ p.groupCount) ∧
        (0 ≤ n ∨ n ≤ -p.groupCount → Lookup (m.group? n) (l.group (.int n))) ∧
        (n < 0 → -p.groupCount < n → Lookup (m.group? (n + p.groupCount)) (l.group (.int n))) := by
  intro m l
  have hcount : m.groups.length = p.groupCount := by
    simp [m, Pattern.matchBetween]
  refine ⟨⟨rfl, rfl, ?_⟩, fun name => ⟨m.isSome_named_iff name, ?_⟩, fun n => ⟨?_, fun h => ?_,
    fun hneg hrow => ?_⟩⟩
  · show index + m.start + l.text.length - (index + m.start) = l.text.length
    omega
  · rw [← named_ofMatch m index]
    exact lookup_group_text l name
  · rw [m.isSome_group_iff, hcount]
  · rw [← hcount] at h
    rw [← group_ofMatch m index h]
    exact lookup_groupByNumber l n
  · rw [← hcount] at hrow ⊢
    rw [← group_ofMatch_of_neg m index hneg hrow]
    exact lookup_groupByNumber l n

/-- Two groups of which the second takes no part in the match, so that minus one leads to the
first. -/
theorem groups_of_match_in_part :
    let p := (Pattern.compile "^(?P<head>\\w)(\\w+)?".toList .none).toOption.getD default
    let place := Place.start "x".toList
    let finish := (p.expr.attempt place some).getD place
    let m := p.matchBetween place finish
    let l := ofMatch m 7
    p.matchStart? "x".toList = some m ∧ m.named? "head".toList = some (some "x".toList) ∧
      Lookup (m.named? "head".toList) (l.group (.text "head".toList)) ∧
      m.group? 2 = some none ∧ Lookup (m.group? 2) (l.group (.int 2)) ∧
      m.group? (-2) = none ∧ Lookup (m.group? (-2)) (l.group (.int (-2))) ∧
      m.group? (-1 + 2) = some (some "x".toList) ∧
      Lookup (m.group? (-1 + 2)) (l.group (.int (-1))) := by
  intro p place finish m l
  have hcount : p.groupCount = 2 := by decide +kernel
  obtain ⟨-, hname, hnumber⟩ := groups_of_match p place finish 7
  have hrow := (hnumber (-1)).2.2 (by omega) (by omega)
  rw [hcount] at hrow
  exact ⟨by decide +kernel, by decide +kernel, (hname _).2, by decide +kernel,
    (hnumber 2).2.1 (.inl (by omega)), by decide +kernel, (hnumber (-2)).2.1 (.inr (by omega)),
    by decide +kernel, hrow⟩

/-- The match has no group minus one, but the lookup answers with what the first group captured. -/
theorem negative_number_answered :
    let p := (Pattern.compile "^(a)(b)".toList .none).toOption.getD default
    ∃ m, p.matchStart? "ab".toList = some m ∧ m.group? (-1) = none ∧
      (ofMatch m 0).group (.int (-1)) = .ok (some "a".toList) ∧
      ¬ Lookup (m.group? (-1)) ((ofMatch m 0).group (.int (-1))) := by
  intro p
  have hmatch : (p.matchStart? "ab".toList).any
      (fun m => m.group? (-1) == none && (ofMatch m 0).group? (-1) == some (some ['a'])) =
        true := by
    decide +kernel
  obtain ⟨m, hm, hgroups⟩ := (Option.any_eq_true _ _).mp hmatch
  simp only [Bool.and_eq_true, beq_iff_eq] at hgroups
  obtain ⟨hnone, hsome⟩ := hgroups
  have hanswer := group_int_of_some hsome
  refine ⟨m, hm, hnone, hanswer, ?_⟩
  rw [hnone, hanswer]
  intro h
  cases h

end Lexeme

end PullLexer
