import TemplateMarkup.Document.NameMap
import TemplateMarkup.Json.Outline

/-!
# Decoding JSON

A decoder turns the outline of a text into a value of some type.  The first fault in the order of the
text wins: a fault of form, where the text stops being JSON, or a fault of content, where it is not of
the expected shape.  Faults inside a record therefore carry the place at which they show, and the
parts of a record are put together so that the earliest place counts.
-/

namespace TemplateMarkup

/-- Why a text cannot be decoded. -/
inductive DecodeFault where
  /-- The text is not JSON, or nests too deep. -/
  | malformed
  /-- The text is JSON of another shape. -/
  | mismatched
  deriving DecidableEq, Repr

/-- A decoder is given the number of containers that it may still enter. -/
abbrev Decoder (α : Type) := Nat → Outline → Except DecodeFault α

namespace Decoder

variable {α β : Type}

/-- The number of containers that a text may nest. -/
def depthLimit : Nat := 127

/-- A value of another kind than expected.  Scalars are read before their kind is refused, containers
are not. -/
def refuse : Outline → Except DecodeFault α
  | .broken => .error .malformed
  | .string none => .error .malformed
  | .number .outOfRange => .error .malformed
  | _ => .error .mismatched

def string : Decoder String
  | _, .string (some text) => .ok text
  | _, outline => refuse outline

def bool : Decoder Bool
  | _, .bool value => .ok value
  | _, outline => refuse outline

/-- A natural number of 32 bits. -/
def word : Decoder UInt32
  | _, .number (.natural value) =>
      if value < UInt32.size then .ok (UInt32.ofNat value) else .error .mismatched
  | _, outline => refuse outline

/-- A value, or nothing for `null`. -/
def nullable (decode : Decoder α) : Decoder (Option α)
  | _, .null => .ok none
  | depth, outline => some <$> decode depth outline

/-- What remains to be done at the end of a container. -/
def close (isClosed : Bool) (value : α) : Except DecodeFault α :=
  if isClosed then .ok value else .error .malformed

def list (decode : Decoder α) : Decoder (List α)
  | 0, .array _ _ => .error .malformed
  | depth + 1, .array items isClosed => do
      let values ← items.mapM (decode depth)
      close isClosed values
  | _, outline => refuse outline

def entry (decode : Outline → Except DecodeFault α) :
    Option String × Outline → Except DecodeFault (String × α)
  | (none, _) => .error .malformed
  | (some name, outline) => do
      let value ← decode outline
      return (name, value)

def nameMap (decode : Decoder α) : Decoder (NameMap α)
  | 0, .object _ _ => .error .malformed
  | depth + 1, .object members isClosed => do
      let entries ← members.mapM (entry (decode depth))
      close isClosed (NameMap.ofList entries)
  | _, outline => refuse outline

/-- A text whose whole content is one value. -/
def run (decode : Decoder α) (text : String) : Except DecodeFault α := do
  let (outline, isWhole) := Outline.ofText text
  let value ← decode depthLimit outline
  close isWhole value

end Decoder

/-- A part of a record, or the place of a fault and the fault. -/
structure Placed (α : Type) where
  result : Except (Nat × DecodeFault) α

namespace Placed

variable {α β : Type}

def ok (value : α) : Placed α := ⟨.ok value⟩

def fault (place : Nat) (what : DecodeFault) : Placed α := ⟨.error (place, what)⟩

/-- Put two parts together.  Of two faults the one at the earlier place counts. -/
def combine (first : Placed (α → β)) (second : Placed α) : Placed β :=
  match first.result, second.result with
  | .ok function, .ok value => ok (function value)
  | .error early, .ok _ => ⟨.error early⟩
  | .ok _, .error late => ⟨.error late⟩
  | .error early, .error late => ⟨.error (if late.1 < early.1 then late else early)⟩

instance : Applicative Placed where
  pure := ok
  seq first second := combine first (second ())

def atPlace (place : Nat) : Except DecodeFault α → Placed α
  | .ok value => ok value
  | .error what => fault place what

def toExcept (placed : Placed α) : Except DecodeFault α :=
  placed.result.mapError (·.2)

end Placed

/-- A record as it is written: as an object with its fields as members, or as an array with its fields
in order. -/
inductive Fields where
  | members (list : List (Option String × Outline)) (isClosed : Bool)
  | items (names : List String) (list : List Outline) (isClosed : Bool)
  deriving Repr

namespace Fields

variable {α : Type}

/-- Where a field is. -/
inductive Location where
  | found (place : Nat) (outline : Outline)
  /-- The record has an end, and the field is not in it. -/
  | absent (place : Nat)
  /-- The record breaks off where the field should be. -/
  | cutOff (place : Nat)
  deriving Repr

def locate (fields : Fields) (name : String) : Location :=
  match fields with
  | members list _ =>
      match list.findIdx? (·.1 == some name) with
      | none => .absent (list.length + 1)
      | some place => .found place ((list[place]?.map Prod.snd).getD .broken)
  | items names list isClosed =>
      let place := names.idxOf name
      match list[place]? with
      | some outline => .found place outline
      | none => if isClosed then .absent place else .cutOff place

/-- Decode a field.  An absent one has the given value, or is a fault if there is none. -/
def field (fields : Fields) (name : String) (whenAbsent : Option α)
    (decode : Outline → Except DecodeFault α) : Placed α :=
  match fields.locate name with
  | .found place outline => .atPlace place (decode outline)
  | .cutOff place => .fault place .malformed
  | .absent place =>
      match whenAbsent with
      | some value => .ok value
      | none => .fault place .mismatched

def required (fields : Fields) (name : String) (decode : Outline → Except DecodeFault α) :
    Placed α :=
  fields.field name none decode

/-- Check the members of a record, apart from the content of its known fields: a known field comes
once, and whatever else there is satisfies the given condition. -/
def checkMembers (names : List String) (mayBe : Outline → Bool) :
    List String → Nat → List (Option String × Outline) → Placed Unit
  | _, _, [] => .ok ()
  | _, place, (none, _) :: _ => .fault place .malformed
  | seen, place, (some name, outline) :: rest =>
      if names.contains name then
        if seen.contains name then .fault place .mismatched
        else checkMembers names mayBe (name :: seen) (place + 1) rest
      else if mayBe outline then checkMembers names mayBe seen (place + 1) rest
      else .fault place .malformed

/-- Check everything of a record but the content of its known fields. -/
def check (fields : Fields) (known : List String) (mayBe : Outline → Bool) : Placed Unit :=
  match fields with
  | members list isClosed =>
      (fun _ _ => ()) <$> checkMembers known mayBe [] 0 list <*>
        (if isClosed then .ok () else .fault list.length .malformed)
  | items names list isClosed =>
      if isClosed && list.length ≤ names.length then .ok ()
      else .fault (min list.length names.length) .malformed

end Fields

namespace Decoder

variable {α : Type}

def record (names : List String) (build : Nat → Fields → Placed α) : Decoder α
  | 0, .array _ _ => .error .malformed
  | 0, .object _ _ => .error .malformed
  | depth + 1, .array list isClosed =>
      let fields := Fields.items names list isClosed
      ((fun _ value => value) <$> fields.check names Outline.isComplete <*>
        build depth fields).toExcept
  | depth + 1, .object list isClosed =>
      let fields := Fields.members list isClosed
      ((fun _ value => value) <$> fields.check names Outline.isComplete <*>
        build depth fields).toExcept
  | _, outline => refuse outline

/-- A record that shares its object with another value.  The members it does not know are read in
full, since they may belong to that value. -/
def openRecord (names : List String) (build : Nat → Fields → Placed α) : Decoder α
  | 0, .object _ _ => .error .malformed
  | depth + 1, .object list isClosed =>
      let fields := Fields.members list isClosed
      ((fun _ value => value) <$> fields.check names (Outline.isSound depth) <*>
        build depth fields).toExcept
  | _, outline => refuse outline

end Decoder

end TemplateMarkup
