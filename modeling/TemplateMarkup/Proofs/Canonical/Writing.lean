import Mathlib.Data.List.Infix
import TemplateMarkup.Proofs.Assembly.Rewording

/-!
# Canonical markup

A forest of nodes together with a way to write it as properly nested tags.  The nodes say what is
written; how each attribute value is quoted, and whether an element without children closes itself,
says how.  One forest has as many written forms as there are choices of these.

A written forest is canonical if its names and values are ones that the markup can hold, none of its
elements is taken out of the tree or read in a way of its own, and its texts have the form that the
white space policy leaves alone.
-/

namespace TemplateMarkup

open CharacterClass

/-- How the value of an attribute is written. -/
inductive Quoting where
  | between (quote : Char)
  | bare
  deriving DecidableEq

/-- A value and how it is written. -/
structure WrittenValue where
  quoting : Quoting
  content : List Char
  deriving DecidableEq

/-- The name of an attribute: plain, or that of a directive `:bound`, `#name` or `#name:modifier`. -/
inductive Label where
  | plain (name : List Char)
  | binding (bound : List Char)
  | directive (name : List Char) (modifier : Option (List Char))
  deriving DecidableEq

/-- An attribute and how it is written. -/
structure WrittenAttribute where
  label : Label
  value : Option WrittenValue
  deriving DecidableEq

/-- A node and how it is written. -/
inductive WrittenNode where
  | text (content : List Char)
  | element (name : List Char) (attributes : List WrittenAttribute) (closesItself : Bool)
      (children : List WrittenNode)

/-- Forests are built from nothing by putting a text or an element with its children in front. -/
@[elab_as_elim]
theorem WrittenNode.forestInduction {motive : List WrittenNode → Prop} (nil : motive [])
    (text : ∀ content rest, motive rest → motive (text content :: rest))
    (element : ∀ name attributes closesItself children rest, motive children → motive rest →
      motive (element name attributes closesItself children :: rest)) :
    ∀ forest, motive forest
  | [] => nil
  | .text content :: rest => text content rest (forestInduction nil text element rest)
  | .element name attributes closesItself children :: rest =>
      element name attributes closesItself children rest
        (forestInduction nil text element children) (forestInduction nil text element rest)

def WrittenValue.write (value : WrittenValue) : List Char :=
  match value.quoting with
  | .between quote => quote :: (value.content ++ [quote])
  | .bare => value.content

namespace Label

def sigil? : Label → Option Char
  | plain _ => none
  | binding _ => some ':'
  | directive _ _ => some '#'

/-- What stands after the sigil, if there is one. -/
def body : Label → List Char
  | plain name => name
  | binding bound => bound
  | directive name none => name
  | directive name (some modifier) => name ++ ':' :: modifier

def write (label : Label) : List Char :=
  label.sigil?.toList ++ label.body

end Label

def WrittenAttribute.write (written : WrittenAttribute) : List Char :=
  written.label.write ++
    match written.value with
    | none => []
    | some value => '=' :: value.write

/-- Attributes are written one space apart, and one space after the name of the tag. -/
def writeAttributes (attributes : List WrittenAttribute) : List Char :=
  attributes.flatMap fun written => ' ' :: written.write

def writeTagEnd (closesItself : Bool) : List Char :=
  if closesItself then ['/', '>'] else ['>']

/-- The first character of the end of a tag. -/
def tagEndStart (closesItself : Bool) : Char :=
  if closesItself then '/' else '>'

def writeOpeningTag (name : List Char) (attributes : List WrittenAttribute)
    (closesItself : Bool) : List Char :=
  '<' :: (name ++ writeAttributes attributes ++ writeTagEnd closesItself)

def writeClosingTag (name : List Char) : List Char :=
  '<' :: '/' :: (name ++ ['>'])

/-- The element ends with its opening tag. -/
def endsAtOnce (name : List Char) (closesItself : Bool) : Bool :=
  closesItself || TagName.isVoid (String.ofList name)

namespace WrittenNode

mutual

def write : WrittenNode → List Char
  | text content => content
  | element name attributes closesItself children =>
      writeOpeningTag name attributes closesItself ++
        if endsAtOnce name closesItself then []
        else writeAll children ++ writeClosingTag name

def writeAll : List WrittenNode → List Char
  | [] => []
  | node :: rest => node.write ++ writeAll rest

end

end WrittenNode

/-- The attribute that is written.  Its position is left open. -/
def WrittenAttribute.toAttribute (written : WrittenAttribute) : Attribute :=
  let content := written.value.map (·.content)
  let flags := (content.map Expression.classify).getD ⟨false, false⟩
  let directive (name : String) (modifier : Option String) : Attribute :=
    .directive
      { name, modifier
        value := content.map String.ofList
        referencesProps := flags.referencesProps
        isAsync := flags.isAsync
        position := .start }
  match written.label with
  | .plain name => .plain ⟨String.ofList name, content.map String.ofList, .start⟩
  | .binding bound => directive Directive.bindingName (some (String.ofList bound))
  | .directive name modifier => directive (String.ofList name) (modifier.map String.ofList)

/-- The tag that is written, without its positions. -/
def writtenTag (name : List Char) (attributes : List WrittenAttribute) : Tag :=
  { name := String.ofList name
    attributes := (attributes.map (·.toAttribute)).filterMap Attribute.plain?
    directives := (attributes.map (·.toAttribute)).filterMap Attribute.directive?
    position := .start }

namespace WrittenNode

mutual

/-- The node that is written, without its positions. -/
def toNode : WrittenNode → Node
  | text content => .text (String.ofList content) .start
  | element name attributes _ children => .element (writtenTag name attributes) (toNodes children)

def toNodes : List WrittenNode → List Node
  | [] => []
  | node :: rest => node.toNode :: toNodes rest

end

end WrittenNode

/-- The number of backslashes at the end of a text. -/
def backslashesAtEnd (text : List Char) : Nat :=
  (text.reverse.takeWhile (· == '\\')).length

/-- Only an escaped quote may stand inside a quoted value, and the closing one must not be escaped.
A bare value must be one that ends where it should: before the character that follows. -/
def WrittenValue.IsLegal (value : WrittenValue) (ofDirective : Bool) (following : Char) : Prop :=
  match value.quoting with
  | .between quote =>
      isQuote quote ∧ (quote = '`' → ofDirective) ∧
        (∀ index < value.content.length, value.content[index]? = some quote →
          backslashesAtEnd (value.content.take index) % 2 = 1) ∧
        backslashesAtEnd value.content % 2 = 0
  | .bare =>
      (∀ character ∈ value.content, isUnquotedValueCharacter character) ∧
        (ofDirective → value.content.head? ≠ some '`') ∧
        (value.content = [] → following ≠ ' ') ∧
        (value.content.getLast? = some '/' → following ≠ '>')

instance (value : WrittenValue) (ofDirective : Bool) (following : Char) :
    Decidable (value.IsLegal ofDirective following) :=
  match value with
  | ⟨.between _, _⟩ => instDecidableAnd
  | ⟨.bare, _⟩ => instDecidableAnd

namespace Label

def isDirective (label : Label) : Bool := label.sigil?.isSome

def IsLegal : Label → Prop
  | plain name =>
      name ≠ [] ∧ (∀ character ∈ name, isNameCharacter character) ∧
        name.head? ≠ some ':' ∧ name.head? ≠ some '#'
  | binding bound => bound ≠ [] ∧ ∀ character ∈ bound, isNameCharacter character
  | directive name modifier =>
      (∀ character ∈ name, isNameCharacter character ∧ character ≠ ':') ∧
        ∀ text ∈ modifier, ∀ character ∈ text, isNameCharacter character

instance (label : Label) : Decidable label.IsLegal :=
  match label with
  | .plain _ => instDecidableAnd
  | .binding _ => instDecidableAnd
  | .directive _ _ => instDecidableAnd

/-- The label of a directive with the given name and any modifier. -/
def HasName (label : Label) (name : String) : Prop :=
  match label with
  | directive written _ => String.ofList written = name
  | _ => False

instance (label : Label) (name : String) : Decidable (label.HasName name) :=
  match label with
  | .plain _ => .isFalse id
  | .binding _ => .isFalse id
  | .directive written _ => decEq (String.ofList written) name

end Label

/-- Each value must be legal before what follows it: another attribute or the end of the tag. -/
def AttributesAreLegal : List WrittenAttribute → Char → Prop
  | [], _ => True
  | written :: rest, tagEnd =>
      written.label.IsLegal ∧
        (∀ value ∈ written.value,
          value.IsLegal written.label.isDirective (if rest = [] then tagEnd else ' ')) ∧
        AttributesAreLegal rest tagEnd

instance decidableAttributesAreLegal : (attributes : List WrittenAttribute) → (tagEnd : Char) →
    Decidable (AttributesAreLegal attributes tagEnd)
  | [], _ => .isTrue trivial
  | _ :: rest, tagEnd =>
      have := decidableAttributesAreLegal rest tagEnd
      instDecidableAnd

/-- A tag name of the form that the markup reads, and none of those whose elements are recorded or
collected. -/
def IsOrdinaryName (name : List Char) : Prop :=
  name.head?.any startsTagName ∧ (∀ character ∈ name, isNameCharacter character) ∧
    String.ofList name ∉ ["script", "style", "link", "slot"]

instance (name : List Char) : Decidable (IsOrdinaryName name) := instDecidableAnd

/-- White space is nothing but single spaces. -/
def IsSpaced (text : List Char) : Prop :=
  (∀ character ∈ text, isWhitespace character → character = ' ') ∧ ¬ [' ', ' '] <:+: text

instance (text : List Char) : Decidable (IsSpaced text) := instDecidableAnd

namespace WrittenNode

/-- No two texts follow each other. -/
def TextsAreApart : List WrittenNode → Prop
  | text _ :: text _ :: _ => False
  | _ :: rest => TextsAreApart rest
  | [] => True

/-- The text at the start, if there is one, does not start with a space. -/
def StartIsTight : List WrittenNode → Prop
  | text content :: _ => content.head? ≠ some ' '
  | _ => True

/-- The text at the end, if there is one, does not end with a space. -/
def EndIsTight : List WrittenNode → Prop
  | [] => True
  | [text content] => content.getLast? ≠ some ' '
  | _ :: rest => EndIsTight rest

/-- The texts among siblings stand where white space is left alone. -/
def TextsFit (siblings : List WrittenNode) : Prop :=
  TextsAreApart siblings ∧ StartIsTight siblings ∧ EndIsTight siblings

mutual

def IsCanonical : WrittenNode → Prop
  | text content => content ≠ [] ∧ '<' ∉ content ∧ IsSpaced content
  | element name attributes closesItself children =>
      IsOrdinaryName name ∧
        AttributesAreLegal attributes (tagEndStart closesItself) ∧
        (∀ written ∈ attributes, ¬ written.label.HasName "raw") ∧
        (String.ofList name = "template" →
          ∀ written ∈ attributes, ¬ written.label.HasName "component") ∧
        (endsAtOnce name closesItself → children = []) ∧
        TextsFit children ∧ AreCanonical children

def AreCanonical : List WrittenNode → Prop
  | [] => True
  | node :: rest => node.IsCanonical ∧ AreCanonical rest

end

end WrittenNode

end TemplateMarkup
