import TemplateMarkup.Json.Scan

/-!
# Outlines of JSON texts

What can be read of a text before it stops being a value of the format.  An outline keeps everything
that stands before the first fault, in the order of the text, so that whoever uses it can tell whether
a fault of form or a fault of content comes first.

The reader keeps the containers around the current place as a list of frames and takes one token at a
time.
-/

namespace TemplateMarkup

/-- As much of a value as can be read. -/
inductive Outline where
  | null
  | bool (value : Bool)
  | number (value : JsonNumber)
  | string (text : Option String)
  /-- The items of an array up to its end, or up to the first fault. -/
  | array (items : List Outline) (isClosed : Bool)
  /-- The members of an object up to its end, or up to the first fault. -/
  | object (members : List (Option String × Outline)) (isClosed : Bool)
  /-- The text is no value from here on. -/
  | broken
  deriving Repr

namespace Outline

/-- A container around the current place, with what has been read of it, latest first. -/
inductive Frame where
  | array (read : List Outline)
  /-- A member's name has been read, and its value is to come. -/
  | member (read : List (Option String × Outline)) (name : Option String)
  deriving Repr

/-- What may come next. -/
inductive Expected where
  /-- A value. -/
  | value
  /-- The first item of an array, or its end. -/
  | firstItem
  /-- A comma or the end of an array. -/
  | nextItem (read : List Outline)
  /-- The name of a member, or the end of the object if there are none yet. -/
  | name (read : List (Option String × Outline)) (mayClose : Bool)
  /-- The colon after a name. -/
  | colon (read : List (Option String × Outline)) (name : Option String)
  /-- A comma or the end of an object. -/
  | nextMember (read : List (Option String × Outline))
  deriving Repr

/-- Put an unfinished value into the containers around it, none of which is closed. -/
def abandon (inner : Outline) : List Frame → Outline
  | [] => inner
  | .array read :: outer => abandon (.array (inner :: read).reverse false) outer
  | .member read name :: outer =>
      abandon (.object ((name, inner) :: read).reverse false) outer

/-- The container at the current place, as far as it has been read, without an end. -/
def unfinished : Expected → Outline
  | .value => .broken
  | .firstItem => .array [] false
  | .nextItem read => .array read.reverse false
  | .name read _ => .object read.reverse false
  | .colon read name => .object ((name, .broken) :: read).reverse false
  | .nextMember read => .object read.reverse false

/-- Where the reader is after a token. -/
inductive Progress where
  /-- The outermost value has ended, or the text has stopped being one. -/
  | done (outline : Outline)
  /-- Something is expected inside the given containers. -/
  | reading (expected : Expected) (frames : List Frame)
  deriving Repr

/-- Put a finished value into the container around it. -/
def deliver (value : Outline) : List Frame → Progress
  | [] => .done value
  | .array read :: outer => .reading (.nextItem (value :: read)) outer
  | .member read name :: outer => .reading (.nextMember ((name, value) :: read)) outer

def beginValue (frames : List Frame) : JsonToken → Progress
  | .null => deliver .null frames
  | .bool value => deliver (.bool value) frames
  | .number value => deliver (.number value) frames
  | .string text => deliver (.string text) frames
  | .openArray => .reading .firstItem frames
  | .openObject => .reading (.name [] true) frames
  | _ => .done (abandon .broken frames)

def take (expected : Expected) (frames : List Frame) (token : JsonToken) : Progress :=
  match expected, token with
  | .value, token => beginValue frames token
  | .firstItem, .closeArray => deliver (.array [] true) frames
  | .firstItem, token => beginValue (.array [] :: frames) token
  | .nextItem read, .closeArray => deliver (.array read.reverse true) frames
  | .nextItem read, .comma => .reading .value (.array read :: frames)
  | .name read true, .closeObject => deliver (.object read.reverse true) frames
  | .name read _, .string name => .reading (.colon read name) frames
  | .colon read name, .colon => .reading .value (.member read name :: frames)
  | .nextMember read, .closeObject => deliver (.object read.reverse true) frames
  | .nextMember read, .comma => .reading (.name read false) frames
  | expected, _ => .done (abandon (unfinished expected) frames)

/-- Read tokens up to the end of the outermost value or to the first fault.  The result is the outline
and the tokens after it. -/
def readTokens (expected : Expected) (frames : List Frame) :
    List JsonToken → Outline × List JsonToken
  | [] => (abandon (unfinished expected) frames, [])
  | token :: rest =>
      match take expected frames token with
      | .done outline => (outline, rest)
      | .reading expected frames => readTokens expected frames rest

/-- The outline of the value at the start of a text, and whether the value is all of the text. -/
def ofText (text : String) : Outline × Bool :=
  let read := readTokens .value [] (JsonToken.scan text.toList)
  (read.1, read.2.isEmpty)

mutual

/-- The value has an end, whatever is in it. -/
def isComplete : Outline → Bool
  | .broken => false
  | .array items isClosed => areComplete items && isClosed
  | .object members isClosed => membersAreComplete members && isClosed
  | _ => true

def areComplete : List Outline → Bool
  | [] => true
  | item :: rest => item.isComplete && areComplete rest

def membersAreComplete : List (Option String × Outline) → Bool
  | [] => true
  | (_, value) :: rest => value.isComplete && membersAreComplete rest

end

mutual

/-- The value has an end, nests at most as deep as given, and all its names and scalars are usable. -/
def isSound (depth : Nat) : Outline → Bool
  | .array items isClosed => depth ≠ 0 && areSound (depth - 1) items && isClosed
  | .object members isClosed => depth ≠ 0 && membersAreSound (depth - 1) members && isClosed
  | .string none => false
  | .number .outOfRange => false
  | .broken => false
  | _ => true

def areSound (depth : Nat) : List Outline → Bool
  | [] => true
  | item :: rest => item.isSound depth && areSound depth rest

/-- The name and value of every member are sound. -/
def membersAreSound (depth : Nat) : List (Option String × Outline) → Bool
  | [] => true
  | (name, value) :: rest => name.isSome && value.isSound depth && membersAreSound depth rest

end

end Outline

end TemplateMarkup
