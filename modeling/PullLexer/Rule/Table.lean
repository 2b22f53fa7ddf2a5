import PullLexer.Pattern.Basic

/-!
# Rules and rule tables

A rule is a name and the patterns that are tried for it, in order. A table
keeps one rule a name, in the order in which the names were first added; a
rule added again takes the place of the old one.
-/

namespace PullLexer

structure Rule where
  name : Text
  patterns : List Pattern
deriving DecidableEq

namespace Rule

/-- Puts a rule in the place of the one with its name, or at the end. -/
def place (r : Rule) : List Rule → List Rule
  | [] => [r]
  | other :: rest => if other.name = r.name then r :: rest else other :: r.place rest

theorem names_place (r : Rule) (rules : List Rule) :
    (r.place rules).map name =
      if r.name ∈ rules.map name then rules.map name else rules.map name ++ [r.name] := by
  induction rules with
  | nil => rfl
  | cons other rest ih =>
    by_cases h : other.name = r.name
    · simp [place, h]
    · have h' : ¬r.name = other.name := fun e => h e.symm
      by_cases hr : r.name ∈ rest.map name
      · rw [if_pos hr] at ih
        have hc : r.name ∈ (other :: rest).map name := by
          simp only [List.map_cons]
          exact .tail _ hr
        rw [if_pos hc]
        simp [place, h, ih]
      · rw [if_neg hr] at ih
        have hc : r.name ∉ (other :: rest).map name := by
          simp only [List.map_cons, List.mem_cons, not_or]
          exact ⟨h', hr⟩
        rw [if_neg hc]
        simp [place, h, ih]

theorem find_place (r : Rule) (rules : List Rule) (n : Text) :
    (r.place rules).find? (·.name == n) =
      if r.name = n then some r else rules.find? (·.name == n) := by
  induction rules with
  | nil => by_cases h : r.name = n <;> simp [place, h]
  | cons other rest ih =>
    by_cases h : other.name = r.name
    · by_cases hn : r.name = n <;> simp [place, h, hn]
    · rw [place, if_neg h, List.find?_cons, List.find?_cons, ih]
      by_cases ho : other.name = n
      · have hn : ¬r.name = n := fun e => h (ho.trans e.symm)
        simp [ho, hn]
      · have hb : (other.name == n) = false := by simp [ho]
        rw [hb]

end Rule

structure RuleTable where
  rules : List Rule
  nodup : (rules.map Rule.name).Nodup

namespace RuleTable

def empty : RuleTable := ⟨[], by simp⟩

instance : Inhabited RuleTable := ⟨empty⟩

def names (table : RuleTable) : List Text := table.rules.map Rule.name

/-- Adds a rule, in the place of the one with its name if there is one. -/
def insert (table : RuleTable) (r : Rule) : RuleTable where
  rules := r.place table.rules
  nodup := by
    rw [Rule.names_place]
    split
    · exact table.nodup
    · rename_i h
      exact List.nodup_append.mpr ⟨table.nodup, by simp, by
        intro a ha b hb e
        simp only [List.mem_singleton] at hb
        exact h (hb ▸ e ▸ ha)⟩

def get? (table : RuleTable) (name : Text) : Option Rule := table.rules.find? (·.name == name)

def size (table : RuleTable) : Nat := table.rules.length

/-- Every pattern with the name of its rule, in the order in which they are tried. -/
def candidates (table : RuleTable) : List (Text × Pattern) :=
  table.rules.flatMap fun r => r.patterns.map (r.name, ·)

theorem ext_rules {a b : RuleTable} (h : a.rules = b.rules) : a = b := by
  cases a; cases b; cases h; rfl

theorem names_insert (table : RuleTable) (r : Rule) :
    (table.insert r).names =
      if r.name ∈ table.names then table.names else table.names ++ [r.name] :=
  Rule.names_place r table.rules

theorem get_insert (table : RuleTable) (r : Rule) (name : Text) :
    (table.insert r).get? name = if r.name = name then some r else table.get? name :=
  Rule.find_place r table.rules name

end RuleTable

end PullLexer
