import PullLexer.Failure.Report

/-!
# Annotating a report

Whatever was first said about rule and excerpt, each on its own, stays however
many annotations follow (`Diagnostic.filled`), the complaint never changes, and
the text shown is the one written from these three (`Diagnostic.written`).
-/

namespace PullLexer.Diagnostic

/-- What is known of rule and excerpt, each with the word that introduces it. -/
def contexts (rule excerpt : Option Value) : List Text :=
  (rule.map ("rule ".toList ++ ·.literal)).toList ++
    (excerpt.map ("at ".toList ++ ·.literal)).toList

/-- A message alone, or followed by what is known in parentheses. -/
def written (message : Text) (rule excerpt : Option Value) : Text :=
  match contexts rule excerpt with
  | [] => message
  | known => message ++ " (".toList ++ List.intercalate ", ".toList known ++ [')']

theorem render_eq_written (d : Diagnostic) :
    d.render = written d.message d.rule d.excerpt := by
  obtain ⟨complaint, rule, excerpt⟩ := d
  cases rule <;> cases excerpt <;>
    simp [render, written, contexts, List.intercalate, List.intersperse]

/-- The diagnostic with rule and excerpt from the first of the notes that know them, where they are
missing. -/
def filled (d : Diagnostic) (notes : List Note) : Diagnostic :=
  { d with
    rule := d.rule.or (notes.findSome? (·.rule))
    excerpt := d.excerpt.or (notes.findSome? (·.excerpt)) }

theorem filled_nil (d : Diagnostic) : d.filled [] = d := by
  simp [filled]

theorem filled_annotate (d : Diagnostic) (note : Note) (notes : List Note) :
    (d.annotate note.rule note.excerpt).filled notes = d.filled (note :: notes) := by
  cases hrule : note.rule <;> cases hexcerpt : note.excerpt <;>
    simp [filled, annotate, hrule, hexcerpt]

/-- A diagnostic made with a note is one made without, filled from the note first. -/
theorem filled_made (complaint : Complaint) (made : Note) (notes : List Note) :
    filled ⟨complaint, made.rule, made.excerpt⟩ notes =
      ⟨complaint, (made :: notes).findSome? (·.rule), (made :: notes).findSome? (·.excerpt)⟩ := by
  have h := filled_annotate ⟨complaint, none, none⟩ made notes
  simpa only [annotate, filled, Option.none_or] using h

theorem filled_of_mem {note : Note} {notes : List Note} (d : Diagnostic) (h : note ∈ notes) :
    (d.filled notes).annotate note.rule note.excerpt = d.filled notes := by
  have known {part : Note → Option Value} {given : Option Value} :
      (given.or (notes.findSome? part)).or (part note) = given.or (notes.findSome? part) := by
    cases hfirst : notes.findSome? part with
    | none =>
      rw [List.findSome?_eq_none_iff.mp hfirst note h]
      simp
    | some v => cases given <;> rfl
  simp only [annotate, filled, known]

namespace Report

theorem annotateAll_of (d : Diagnostic) (notes : List Note) :
    (of d).annotateAll notes = of (d.filled notes) := by
  induction notes generalizing d with
  | nil => rw [filled_nil]; rfl
  | cons note rest ih =>
    rw [annotateAll_cons, ← filled_annotate]
    exact ih _

/-- However often a report is annotated, its complaint stays, rule and excerpt are the first ones
given, each on its own and counting what the report was made with, and the text shown is the one
written from them. An annotation that was given once has nothing to add later. -/
theorem first_given_stays (complaint : Complaint) (made : Note) (notes : List Note) :
    let r := (of ⟨complaint, made.rule, made.excerpt⟩).annotateAll notes
    let rule := (made :: notes).findSome? (·.rule)
    let excerpt := (made :: notes).findSome? (·.excerpt)
    r.diagnostic.complaint = complaint ∧ r.diagnostic.message = complaint.message ∧
      r.diagnostic.rule = rule ∧ r.diagnostic.excerpt = excerpt ∧
      r.shown = written complaint.message rule excerpt ∧
      ∀ note later,
        (r.annotateAll (note :: later)).annotate note = r.annotateAll (note :: later) := by
  intro r rule excerpt
  have hr : r = of ⟨complaint, rule, excerpt⟩ := by
    show (of _).annotateAll notes = _
    rw [annotateAll_of, filled_made]
  refine ⟨?_, ?_, ?_, ?_, ?_, fun note later => ?_⟩ <;> rw [hr]
  · rfl
  · rfl
  · rfl
  · rfl
  · exact render_eq_written _
  · rw [annotateAll_of, annotate_of, filled_of_mem _ List.mem_cons_self]

/-- An empty rule counts as known, so that the one named later is not taken. -/
example :
    ((of ⟨.stated .plain "m".toList, none, none⟩).annotateAll
      [⟨some (.text []), none⟩, ⟨some (.text ['r']), some (.text ['x'])⟩]).shown =
      "m (rule '', at 'x')".toList := by decide

end Report

end PullLexer.Diagnostic
