import TemplateMarkup.Source.Position

/-!
# Parse errors

The structural faults that stop the reading of a template, each with the tag that causes it.
-/

namespace TemplateMarkup

/-- What is wrong with the nesting of a template. -/
inductive StructuralFault where
  /-- A closing tag matches no open element. -/
  | unmatchedClosingTag (name : String)
  /-- A closing `template` tag stands outside of every inline component. -/
  | unexpectedScopeClose
  /-- Two inline components have the same name. -/
  | duplicateComponent (name : String)
  deriving DecidableEq, Repr

namespace StructuralFault

/-- A stable short name for the kind of fault. -/
def code : StructuralFault → String
  | unmatchedClosingTag _ => "unmatched-closing-tag"
  | unexpectedScopeClose => "unexpected-scope-close"
  | duplicateComponent _ => "duplicate-component"

def message : StructuralFault → String
  | unmatchedClosingTag name =>
      "Unexpected closing tag </" ++ name ++ "> with no matching open element"
  | unexpectedScopeClose =>
      "Unexpected closing </template> tag outside of an inline component"
  | duplicateComponent name => "Duplicate inline component name: " ++ name

end StructuralFault

/-- A structural fault and the tag at which it shows. -/
structure ParseError where
  fault : StructuralFault
  position : Position
  span : Span
  deriving DecidableEq, Repr

namespace ParseError

def render (error : ParseError) : String :=
  error.fault.message ++ " at " ++ error.position.render

end ParseError

end TemplateMarkup
