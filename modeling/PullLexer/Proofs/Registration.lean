import Mathlib.Data.List.Forall2
import Mathlib.Data.List.Induction
import Mathlib.Data.List.Nodup
import PullLexer.Rule.Spec

/-!
# What a rule table comes to

A rule as written is accepted if its name is a text and each of its patterns can
be compiled (`Rule.ofValues_eq_ok_iff`); nothing of it depends on the table.
However many additions are made to an empty table, those that are refused leave
no trace, and the table is the ordered map that the accepted rules come to:
names stand in the order in which they were first added, each with the rule that
was added last (`RuleTable.ComesTo`).
-/

namespace PullLexer

open List (Forall₂)

-- ---------------------------------------------------------------------------
-- Rules as written
-- ---------------------------------------------------------------------------

namespace Rule

variable {rule name patterns : Value} {values : List Value} {ps : List Pattern} {r : Rule}

/-- The patterns that a value holds, each as it was written: those gone through, or else the value
alone. A text is one pattern, though its characters could be gone through. -/
def written : Value → List Value
  | .text source => [.text source]
  | v => v.items?.getD [v]

theorem compilePatterns_eq (rule : Option Value) (v : Value) :
    compilePatterns rule v = compileEach rule (written v) := by
  unfold compilePatterns written
  split
  · rfl
  · split <;> rename_i hitems <;> simp only [hitems, Option.getD_some, Option.getD_none]

theorem compileEach_eq_ok_iff {rule : Option Value} :
    compileEach rule values = .ok ps ↔
      Forall₂ (fun v p => compilePattern rule v = .ok p) values ps := by
  induction values generalizing ps with
  | nil => simp [compileEach, eq_comm]
  | cons v rest ih =>
    simp only [List.forall₂_cons_left_iff, ← ih, compileEach]
    cases compilePattern rule v with
    | error f => simp
    | ok p =>
      cases compileEach rule rest with
      | error f => simp
      | ok more => simp [eq_comm]

theorem compileEach_eq_error_iff {rule : Option Value} :
    (∃ f, compileEach rule values = .error f) ↔
      ∃ v ∈ values, ∃ f, compilePattern rule v = .error f := by
  induction values with
  | nil => simp [compileEach]
  | cons v rest ih =>
    rw [List.exists_mem_cons_iff, ← ih, compileEach]
    cases compilePattern rule v with
    | error f => simp
    | ok p => cases compileEach rule rest <;> simp

theorem ofValues_eq_ok_iff :
    ofValues name patterns = .ok r ↔ name = .text r.name ∧
      Forall₂ (fun v p => compilePattern (some name) v = .ok p) (written patterns) r.patterns := by
  unfold ofValues
  cases name with
  | text n =>
    dsimp only
    rw [compilePatterns_eq, ← compileEach_eq_ok_iff]
    cases compileEach (some (.text n)) (written patterns) with
    | error f => simp
    | ok ps =>
      obtain ⟨n', ps'⟩ := r
      simp
  | _ => simp

theorem ofValues_eq_error_iff :
    (∃ f, ofValues name patterns = .error f) ↔ (∀ n, name ≠ .text n) ∨
      ∃ v ∈ written patterns, ∃ f, compilePattern (some name) v = .error f := by
  unfold ofValues
  cases name with
  | text n =>
    dsimp only
    rw [compilePatterns_eq, ← compileEach_eq_error_iff]
    cases compileEach (some (.text n)) (written patterns) <;> simp
  | _ => simp

/-- The rules that are accepted of those written, in order. -/
def accepted (additions : List (Value × Value)) : List Rule :=
  additions.filterMap fun a => (ofValues a.1 a.2).toOption

end Rule

-- ---------------------------------------------------------------------------
-- Tables
-- ---------------------------------------------------------------------------

namespace RuleTable

variable {table : RuleTable} {rules : List Rule} {name patterns : Value} {r : Rule} {n : Text}

/-- The table that additions leave, one after the other, whether they are refused or not. -/
def addAll (table : RuleTable) (additions : List (Value × Value)) : RuleTable :=
  additions.foldl (fun table a =>
    match table.add a.1 a.2 with
    | .ok (_, table) => table
    | .error _ => table) table

theorem addAll_concat (table : RuleTable) (additions : List (Value × Value)) :
    table.addAll (additions ++ [(name, patterns)]) =
      match (table.addAll additions).add name patterns with
      | .ok (_, table') => table'
      | .error _ => table.addAll additions := by
  rw [addAll, List.foldl_concat]
  rfl

theorem add_eq_ok_iff {table' : RuleTable} :
    table.add name patterns = .ok (r, table') ↔
      Rule.ofValues name patterns = .ok r ∧ table' = table.insert r := by
  unfold add
  cases Rule.ofValues name patterns with
  | error f => simp
  | ok made =>
    simp only [Except.ok.injEq, Prod.mk.injEq]
    constructor
    · rintro ⟨rfl, rfl⟩
      exact ⟨rfl, rfl⟩
    · rintro ⟨rfl, rfl⟩
      exact ⟨rfl, rfl⟩

theorem add_eq_error_iff {f : Failure} :
    table.add name patterns = .error f ↔ Rule.ofValues name patterns = .error f := by
  unfold add
  cases Rule.ofValues name patterns <;> simp

/-- What is refused leaves no trace. -/
theorem addAll_eq (table : RuleTable) (additions : List (Value × Value)) :
    table.addAll additions = (Rule.accepted additions).foldl insert table := by
  induction additions generalizing table with
  | nil => rfl
  | cons a rest ih =>
    rw [addAll, List.foldl_cons, ← addAll, ih]
    unfold add
    cases hmade : Rule.ofValues a.1 a.2 <;> simp [Rule.accepted, hmade, Except.toOption]

theorem mem_rules_iff : r ∈ table.rules ↔ table.get? r.name = some r := by
  constructor
  · intro hmem
    -- names are distinct, so that the first rule found under the name is this one
    obtain ⟨found, hfound⟩ : ∃ found, table.get? r.name = some found := by
      refine Option.isSome_iff_exists.mp (List.find?_isSome.mpr ⟨r, hmem, ?_⟩)
      exact beq_self_eq_true _
    have hname : found.name = r.name := by simpa using List.find?_some hfound
    have hfoundMem := List.mem_of_find?_eq_some hfound
    rw [hfound, List.inj_on_of_nodup_map table.nodup hfoundMem hmem hname]
  · exact List.mem_of_find?_eq_some

theorem rules_map_some (table : RuleTable) :
    table.rules.map some = table.names.map table.get? := by
  rw [names, List.map_map]
  exact List.map_congr_left fun r hmem => (mem_rules_iff.mp hmem).symm

theorem lookup_eq_some_iff {key : Value} :
    table.lookup key = .ok (some r) ↔ key = .text r.name ∧ r ∈ table.rules := by
  unfold lookup
  cases hkey : key.checkKey with
  | error f =>
    refine ⟨fun h => (nomatch h), ?_⟩
    rintro ⟨rfl, -⟩
    cases hkey
  | ok _ =>
    cases key with
    | text n =>
      dsimp only
      rw [mem_rules_iff, Except.ok.injEq, Value.text.injEq]
      constructor
      · intro hget
        have hname : r.name = n := by simpa using List.find?_some hget
        exact ⟨hname.symm, hname ▸ hget⟩
      · rintro ⟨rfl, hget⟩
        exact hget
    | _ => simp

theorem names_foldl_insert (rules : List Rule) :
    (rules.foldl insert empty).names = (rules.map Rule.name).eraseDups := by
  induction rules using List.reverseRecOn with
  | nil => rfl
  | append_singleton rules r ih =>
    rw [List.foldl_concat, names_insert, ih, List.map_append, List.eraseDups_append,
      List.map_singleton, List.cons_removeAll, List.nil_removeAll]
    by_cases hmem : r.name ∈ rules.map Rule.name
    · rw [if_pos (List.mem_eraseDups.mpr hmem), if_neg (by simpa using hmem)]
      exact (List.append_nil _).symm
    · rw [if_neg (mt List.mem_eraseDups.mp hmem), if_pos (by simpa using hmem)]
      rfl

theorem get_foldl_insert (rules : List Rule) (n : Text) :
    (rules.foldl insert empty).get? n = (rules.filter (·.name == n)).getLast? := by
  induction rules using List.reverseRecOn with
  | nil => rfl
  | append_singleton rules r ih =>
    rw [List.foldl_concat, get_insert, ih, List.filter_append]
    by_cases hname : r.name = n <;> simp [hname]

/-- The table is the ordered map that these rules come to, added one after the other: a name stands
where it was first added, with the rule that was last added under it, and whatever is read off the
table agrees. -/
structure ComesTo (table : RuleTable) (rules : List Rule) : Prop where
  names_eq : table.names = (rules.map Rule.name).eraseDups
  get_eq : ∀ n, table.get? n = (rules.filter (·.name == n)).getLast?
  rules_eq : table.rules.map some = table.names.map table.get?
  size_eq : table.size = table.names.length
  lookup_iff : ∀ key r, table.lookup key = .ok (some r) ↔ key = .text r.name ∧ r ∈ table.rules

theorem comesTo_foldl_insert (rules : List Rule) : (rules.foldl insert empty).ComesTo rules where
  names_eq := names_foldl_insert rules
  get_eq := get_foldl_insert rules
  rules_eq := rules_map_some _
  size_eq := (List.length_map _).symm
  lookup_iff _ _ := lookup_eq_some_iff

/-- Whatever additions are made to an empty table, it is the ordered map of the accepted rules. One
more is refused exactly if its name is no text or some pattern of it cannot be compiled, and then
leaves the table as it is; otherwise the name has its patterns, in order, and they may be none. -/
theorem ordered_map_of_additions (additions : List (Value × Value)) :
    let table := empty.addAll additions
    table.ComesTo (Rule.accepted additions) ∧
      ∀ name patterns,
        let next := empty.addAll (additions ++ [(name, patterns)])
        ((∃ f, table.add name patterns = .error f) ↔ (∀ n, name ≠ .text n) ∨
          ∃ v ∈ Rule.written patterns, ∃ f, Rule.compilePattern (some name) v = .error f) ∧
        (∀ f, table.add name patterns = .error f → next = table) ∧
        (∀ r table', table.add name patterns = .ok (r, table') →
          next = table' ∧ next.get? r.name = some r ∧ name = .text r.name ∧
            Forall₂ (fun v p => Rule.compilePattern (some name) v = .ok p)
              (Rule.written patterns) r.patterns) ∧
        ∀ n, name = .text n → Rule.written patterns = [] → next.get? n = some ⟨n, []⟩ := by
  intro table
  have htable : table = (Rule.accepted additions).foldl insert empty := addAll_eq empty additions
  refine ⟨htable ▸ comesTo_foldl_insert _, fun name patterns => ?_⟩
  intro next
  have refused {f : Failure} (h : table.add name patterns = .error f) : next = table := by
    simp only [next, addAll_concat, table, h]
  have made {r : Rule} (h : Rule.ofValues name patterns = .ok r) : next = table.insert r := by
    simp only [next, addAll_concat, table, add_eq_ok_iff.mpr ⟨h, rfl⟩]
  have found {r : Rule} (h : Rule.ofValues name patterns = .ok r) :
      next.get? r.name = some r := by
    rw [made h, get_insert, if_pos rfl]
  refine ⟨?_, fun f h => refused h, fun r table' h => ?_, fun n hname hnone => ?_⟩
  · simp only [add_eq_error_iff]
    exact Rule.ofValues_eq_error_iff
  · obtain ⟨hr, rfl⟩ := add_eq_ok_iff.mp h
    obtain ⟨hname, hpatterns⟩ := Rule.ofValues_eq_ok_iff.mp hr
    exact ⟨made hr, found hr, hname, hpatterns⟩
  · have hr : Rule.ofValues name patterns = .ok ⟨n, []⟩ :=
      Rule.ofValues_eq_ok_iff.mpr ⟨hname, hnone ▸ .nil⟩
    exact found hr

/-- Two rules, of which the second is refused at first for its second pattern, and the first is
replaced by one without patterns; then a rule that is refused, one that replaces the second rule,
and one without patterns. -/
theorem ordered_map_of_replaced_rules :
    let additions : List (Value × Value) :=
      [(.text "A".toList, .text "^a".toList),
        (.text "B".toList, .stream [.text "^b".toList, .text "^(".toList]),
        (.text "B".toList, .stream [.text "^b".toList, .text "^bb".toList]),
        (.int 5, .text "^c".toList), (.text "A".toList, .tuple [])]
    let table := empty.addAll additions
    let next (name patterns : Value) := empty.addAll (additions ++ [(name, patterns)])
    table.names = ["A".toList, "B".toList] ∧ table.ComesTo (Rule.accepted additions) ∧
      (let patterns : Value := .list [.text "^c".toList, .null]
        ∃ f, table.add (.text "C".toList) patterns = .error f ∧
          next (.text "C".toList) patterns = table) ∧
      (let patterns : Value := .text "^b+".toList
        ∃ r table', table.add (.text "B".toList) patterns = .ok (r, table') ∧
          next (.text "B".toList) patterns = table' ∧ table'.get? r.name = some r) ∧
      (next (.text "C".toList) (.list [])).get? "C".toList = some ⟨"C".toList, []⟩ := by
  intro additions table next
  obtain ⟨hcomes, hadds⟩ := ordered_map_of_additions additions
  refine ⟨by decide +kernel, hcomes, ?_, ?_, ?_⟩
  · intro patterns
    have hfails : (table.add (.text "C".toList) patterns).isOk = false := by decide +kernel
    cases hadd : table.add (.text "C".toList) patterns with
    | ok made => rw [hadd] at hfails; cases hfails
    | error f => exact ⟨f, rfl, (hadds _ _).2.1 f hadd⟩
  · intro patterns
    have hsucceeds : (table.add (.text "B".toList) patterns).isOk = true := by decide +kernel
    cases hadd : table.add (.text "B".toList) patterns with
    | error f => rw [hadd] at hsucceeds; cases hsucceeds
    | ok made =>
      obtain ⟨hnext, hget, -⟩ := (hadds _ _).2.2.1 made.1 made.2 hadd
      exact ⟨made.1, made.2, rfl, hnext, hnext ▸ hget⟩
  · exact (hadds _ _).2.2.2 _ rfl rfl

end RuleTable

end PullLexer
