import TemplateMarkup.Assembly.Destination
import TemplateMarkup.Assembly.Scope
import TemplateMarkup.Document.ParseError

/-!
# Assembly of a template

A template of which some tokens have been read.  Each token is one step, and a step may find a
structural fault.  The scope of an inline component is apart from the scopes around it: its nodes
never become nodes of theirs.
-/

namespace TemplateMarkup

/-- A template that is being put together. -/
structure Assembly where
  /-- The scope of the file's own markup. -/
  main : Scope
  /-- The scopes of the open inline components with their names, innermost first. -/
  inline : List (String × Scope)
  /-- The inline components declared so far.  An open one has no value yet. -/
  components : NameMap (Option Component)
  buckets : NameMap Bucket
  imports : List ComponentImport
  deriving Repr

namespace Assembly

/-- Nothing has been read.  The root of the file's own markup has an empty name. -/
def initial (start : Position) : Assembly :=
  ⟨.ofRoot (.bare "" start), [], .empty, .empty, []⟩

def current (assembly : Assembly) : Scope :=
  match assembly.inline with
  | [] => assembly.main
  | (_, scope) :: _ => scope

def modifyCurrent (assembly : Assembly) (change : Scope → Scope) : Assembly :=
  match assembly.inline with
  | [] => { assembly with main := change assembly.main }
  | (name, scope) :: outer => { assembly with inline := (name, change scope) :: outer }

/-- White space is kept if any scope asks for it. -/
def keepsWhitespace (assembly : Assembly) : Bool :=
  assembly.main.keepsWhitespace || assembly.inline.any (·.2.keepsWhitespace)

/-- Add a text run to the innermost open element, unless nothing remains of it. -/
def addText (assembly : Assembly) (run : TextRun) : Assembly :=
  let isFirst := assembly.current.innermost.latest.isEmpty
  let policy := WhitespacePolicy.between isFirst (run.ending ≠ .openingTag)
  let text :=
    if assembly.keepsWhitespace then run.text
    else String.ofList (policy.apply run.text.toList)
  if text.isEmpty then assembly
  else assembly.modifyCurrent (·.append (.text text run.position))

/-- Close the innermost inline component and put it down under its name. -/
def closeScope (assembly : Assembly) : Assembly :=
  match assembly.inline with
  | [] => assembly
  | (name, scope) :: outer =>
      { assembly with
        inline := outer
        components := assembly.components.insert name (some scope.toComponent) }

/-- Declare an inline component and open its scope, unless the tag closes itself. -/
def openComponent (assembly : Assembly) (name : String) (opening : OpeningTag) :
    Except ParseError Assembly :=
  if assembly.components.contains name then
    .error ⟨.duplicateComponent name, opening.tag.position, opening.span⟩
  else
    let opened :=
      { assembly with
        inline := (name, .ofRoot opening.tag) :: assembly.inline
        components := assembly.components.insert name none }
    .ok (if opening.isSelfClosing then opened.closeScope else opened)

/-- Add an element whose body, if any, is raw. -/
def addClosed (assembly : Assembly) (tag : Tag) (body : Option RawBody) : Assembly :=
  assembly.modifyCurrent (·.append (.element tag (RawBody.children body)))

def addScript (assembly : Assembly) (bucket : String) (script : Script) : Assembly :=
  { assembly with
    buckets := assembly.buckets.update bucket .empty fun gathered =>
      { gathered with scripts := gathered.scripts ++ [script] } }

def addStyle (assembly : Assembly) (bucket : String) (style : Style) : Assembly :=
  { assembly with
    buckets := assembly.buckets.update bucket .empty fun gathered =>
      { gathered with styles := gathered.styles ++ [style] } }

/-- Put a link, a script or a style sheet where it goes. -/
def place (assembly : Assembly) (tag : Tag) (body : Option RawBody) : Assembly :=
  match Destination.ofElement tag body with
  | .tree => assembly.addClosed tag body
  | .imports imported => { assembly with imports := assembly.imports ++ [imported] }
  | .script bucket script => assembly.addScript bucket script
  | .style bucket style => assembly.addStyle bucket style
  | .propTypes text => assembly.modifyCurrent fun scope => { scope with propTypes := some text }
  | .nowhere => assembly

/-- Add an element that is neither collected nor a component.  It is opened if its body is markup. -/
def addElement (assembly : Assembly) (opening : OpeningTag) (body : Option RawBody) : Assembly :=
  let noted :=
    if opening.tag.name == "slot" then assembly.modifyCurrent (·.recordSlot opening.tag)
    else assembly
  if opening.isSelfClosing || opening.tag.isVoid || body.isSome then
    noted.addClosed opening.tag body
  else
    noted.modifyCurrent (·.push opening.tag)

/-- Take up an opening tag and the raw body after it. -/
def openTag (assembly : Assembly) (opening : OpeningTag) (body : Option RawBody) :
    Except ParseError Assembly :=
  if opening.tag.name == "link" || TagName.hasForeignBody opening.tag.name then
    .ok (assembly.place opening.tag body)
  else
    match opening.tag.componentName? with
    | some name => assembly.openComponent name opening
    | none => .ok (assembly.addElement opening body)

/-- What is wrong with a closing tag that closes nothing. -/
def unmatched (closing : ClosingTag) : ParseError :=
  let fault :=
    if closing.name = "template" then .unexpectedScopeClose
    else .unmatchedClosingTag closing.name
  ⟨fault, closing.position, closing.span⟩

/-- Search the scopes, innermost first, for what a closing tag closes.  A scope that has no open
element of the name is closed on the way, and a closing `template` tag goes no further than that.
The first argument lists the open inline scopes. -/
def closeWithin (closing : ClosingTag) :
    List (String × Scope) → Assembly → Except ParseError Assembly
  | [], assembly =>
      match assembly.main.depthOf? closing.name with
      | some depth => .ok (assembly.modifyCurrent (Scope.closeMany depth))
      | none => .error (unmatched closing)
  | (_, scope) :: outer, assembly =>
      match scope.depthOf? closing.name with
      | some depth => .ok (assembly.modifyCurrent (Scope.closeMany depth))
      | none =>
          if closing.name = "template" then .ok assembly.closeScope
          else closeWithin closing outer assembly.closeScope

def closeTag (assembly : Assembly) (closing : ClosingTag) : Except ParseError Assembly :=
  closeWithin closing assembly.inline assembly

def step (assembly : Assembly) : Token → Except ParseError Assembly
  | .text run => .ok (assembly.addText run)
  | .opening tag body => assembly.openTag tag body
  | .closing tag => assembly.closeTag tag

/-- Close a number of inline components, innermost first. -/
def closeScopes : Nat → Assembly → Assembly
  | 0, assembly => assembly
  | count + 1, assembly => closeScopes count assembly.closeScope

/-- Close everything that is open at the end of the input. -/
def finish (assembly : Assembly) (sourcePath : Option String) : Template :=
  let closed := closeScopes assembly.inline.length assembly
  { sourcePath
    main := closed.main.toComponent
    inlineComponents := closed.components.filterMap id
    buckets := closed.buckets
    imports := closed.imports }

end Assembly

namespace Template

/-- Put a template together from its tokens, up to the first structural fault. -/
def ofTokens (tokens : List Token) (start : Position) (sourcePath : Option String) :
    Except ParseError Template := do
  let assembly ← tokens.foldlM Assembly.step (.initial start)
  return assembly.finish sourcePath

/-- Read a template whose first character stands at the given position. -/
def parse (source : String) (start : Position) (sourcePath : Option String) :
    Except ParseError Template :=
  ofTokens (Token.scan source start) start sourcePath

end Template

end TemplateMarkup
