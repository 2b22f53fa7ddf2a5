import PullLexer.Failure

/-!
# Reports

A diagnostic as client code gets hold of it, with the text that it is shown by.
The text is kept and not made out on demand, so that every annotation has to
write it anew.
-/

namespace PullLexer.Diagnostic

/-- What an annotation has to say, each part only if it is known. -/
structure Note where
  rule : Option Value := none
  excerpt : Option Value := none

structure Report where
  diagnostic : Diagnostic
  shown : Text

namespace Report

def of (d : Diagnostic) : Report := ⟨d, d.render⟩

def annotate (r : Report) (note : Note) : Report :=
  of (r.diagnostic.annotate note.rule note.excerpt)

def annotateAll (r : Report) (notes : List Note) : Report := notes.foldl annotate r

theorem annotate_of (d : Diagnostic) (note : Note) :
    (of d).annotate note = of (d.annotate note.rule note.excerpt) := rfl

theorem annotateAll_cons (r : Report) (note : Note) (notes : List Note) :
    r.annotateAll (note :: notes) = (r.annotate note).annotateAll notes := rfl

end Report

end PullLexer.Diagnostic
