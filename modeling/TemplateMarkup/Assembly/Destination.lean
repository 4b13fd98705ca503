import TemplateMarkup.Markup.Token
import TemplateMarkup.Text.Whitespace

/-!
# Destinations of links, scripts and style sheets

A link, a script or a style sheet either stays in the tree or is collected.  Which of the two happens,
and what is collected, depends on its tag and its body alone.
-/

namespace TemplateMarkup

namespace RawBody

def trimmed (body : RawBody) : String :=
  String.ofList (WhitespacePolicy.rawBody.apply body.text.toList)

/-- The children of an element with a raw body: its trimmed text, if there is any. -/
def children : Option RawBody → List Node
  | none => []
  | some body => if body.trimmed.isEmpty then [] else [.text body.trimmed body.position]

end RawBody

/-- Where a link, a script or a style sheet goes. -/
inductive Destination where
  /-- The element stays where it is written. -/
  | tree
  /-- A component of another file is imported. -/
  | imports (imported : ComponentImport)
  /-- A script goes into a bucket. -/
  | script (bucket : String) (script : Script)
  /-- A style sheet goes into a bucket. -/
  | style (bucket : String) (style : Style)
  /-- The script describes the properties of the component it stands in. -/
  | propTypes (text : String)
  /-- Nothing remains of the element. -/
  | nowhere
  deriving DecidableEq, Repr

namespace Destination

/-- A path within the project starts with a dot or a slash. -/
def isRelativePath (path : String) : Bool :=
  path.toList.head?.any fun first => first == '.' || first == '/'

def bucketName (tag : Tag) : String :=
  (tag.argument? "bucket").getD Bucket.defaultName

/-- The scope of scripts that name none. -/
def globalScope : String := "global"

/-- The scope that a script names.  A modifier comes before a value here. -/
def scriptScope (tag : Tag) : String :=
  let named := (tag.directive? "scope").bind fun directive =>
    (directive.modifier.filter (!·.isEmpty)).or (directive.value.filter (!·.isEmpty))
  named.getD globalScope

/-- Links to components are imports.  Links to style sheets within the project are collected. -/
def ofLink (tag : Tag) : Destination :=
  match tag.nonemptyValue? "href" with
  | none => .tree
  | some href =>
      if tag.value? "rel" = some "import" then
        .imports ⟨tag.nonemptyValue? "as", href, tag.position⟩
      else if tag.value? "rel" = some "stylesheet" ∧ isRelativePath href then
        .style (bucketName tag) ⟨.path href, tag.position⟩
      else
        .tree

/-- A script from elsewhere and one that is rendered stay.  A body with property types is kept with
its component.  Otherwise the path of a script is collected, or its body if it has no path. -/
def ofScript (tag : Tag) (body : Option RawBody) : Destination :=
  let path := tag.nonemptyValue? "src"
  let text := (body.map (·.trimmed)).getD ""
  if path.any (!isRelativePath ·) then .tree
  else if tag.hasDirective "render" && (path.isSome || !text.isEmpty) then .tree
  else if tag.hasDirective "types" && !text.isEmpty then .propTypes text
  else
    match path, body with
    | some path, _ => .script (bucketName tag) ⟨.path path, scriptScope tag, tag.position⟩
    | none, some body =>
        if text.isEmpty then .nowhere
        else .script (bucketName tag) ⟨.content text, scriptScope tag, body.position⟩
    | none, none => .nowhere

/-- A style sheet is collected unless it is empty. -/
def ofStyle (tag : Tag) (body : Option RawBody) : Destination :=
  match body with
  | none => .nowhere
  | some body =>
      if body.trimmed.isEmpty then .nowhere
      else .style (bucketName tag) ⟨.content body.trimmed, body.position⟩

/-- Where an element goes.  Only links, scripts and style sheets leave the tree, and a raw script or
style sheet does not. -/
def ofElement (tag : Tag) (body : Option RawBody) : Destination :=
  if tag.name == "link" then ofLink tag
  else if TagName.hasForeignBody tag.name && tag.hasDirective "raw" then .tree
  else if tag.name == "script" then ofScript tag body
  else if tag.name == "style" then ofStyle tag body
  else .tree

end Destination

end TemplateMarkup
