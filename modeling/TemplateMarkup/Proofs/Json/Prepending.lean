import TemplateMarkup.Proofs.Json.Compact

/-!
# Values and what stands after them

The writers put the text of a value before a text that follows.  They do it in the same way whatever
that text is, so the text of a value can also be written alone and joined to the other one afterwards.
A line break after a value makes no difference to its reader.
-/

namespace TemplateMarkup

namespace Json

/-- The writer puts the same text before anything. -/
def Prepends (write : List Char → List Char) : Prop :=
  ∀ after, write after = write [] ++ after

namespace Prepends

theorem cons (character : Char) : Prepends (character :: ·) := fun _ => rfl

theorem append (text : List Char) : Prepends (text ++ ·) := by
  intro after
  exact congrArg (· ++ after) (List.append_nil text).symm

variable {first second : List Char → List Char}

theorem comp (isFirst : Prepends first) (isSecond : Prepends second) :
    Prepends fun after => first (second after) := by
  intro after
  calc first (second after)
    _ = first [] ++ (second [] ++ after) := by rw [isFirst, isSecond]
    _ = first (second []) ++ after := by rw [isFirst (second []), List.append_assoc]

end Prepends

theorem prepends_writeString (text : String) : Prepends (writeString text) :=
  (Prepends.cons '"').comp ((Prepends.append _).comp (.cons '"'))

theorem prepends_writeLine (depth : Nat) : Prepends (writeLine depth) :=
  (Prepends.cons '\n').comp (.append _)

theorem prepends_writeCompactItems {items : List Json}
    (each : ∀ item ∈ items, Prepends (writeCompact item)) : Prepends (writeCompactItems items) := by
  induction items with
  | nil => exact .cons ']'
  | cons item rest ih =>
      have isFirst := each item List.mem_cons_self
      have later := ih fun other member => each other (.tail _ member)
      exact (Prepends.cons ',').comp (isFirst.comp later)

theorem prepends_writeCompactMembers {members : List (String × Json)}
    (each : ∀ member ∈ members, Prepends (writeCompact (Prod.snd member))) :
    Prepends (writeCompactMembers members) := by
  induction members with
  | nil => exact .cons '}'
  | cons member rest ih =>
      have isFirst := each member List.mem_cons_self
      have later := ih fun other isLater => each other (.tail _ isLater)
      exact (Prepends.cons ',').comp ((prepends_writeString member.1).comp
        ((Prepends.cons ':').comp (isFirst.comp later)))

theorem prepends_writeCompact (value : Json) : Prepends value.writeCompact := by
  induction value using Json.induction with
  | null => exact .append _
  | bool value => cases value <;> exact .append _
  | number value => exact .append _
  | string text => exact prepends_writeString text
  | array items ih =>
      cases items with
      | nil => exact .append ['[', ']']
      | cons item rest =>
          have isFirst := ih item List.mem_cons_self
          have later := prepends_writeCompactItems fun other member => ih other (.tail _ member)
          exact (Prepends.cons '[').comp (isFirst.comp later)
  | object members ih =>
      cases members with
      | nil => exact .append ['{', '}']
      | cons member rest =>
          have isFirst := ih member List.mem_cons_self
          have later := prepends_writeCompactMembers fun other isLater => ih other (.tail _ isLater)
          exact (Prepends.cons '{').comp ((prepends_writeString member.1).comp
            ((Prepends.cons ':').comp (isFirst.comp later)))

theorem prepends_writeIndentedItems {items : List Json} (depth : Nat)
    (each : ∀ item ∈ items, ∀ depth, Prepends (writeIndented depth item)) :
    Prepends (writeIndentedItems depth items) := by
  induction items with
  | nil => exact (prepends_writeLine depth).comp (.cons ']')
  | cons item rest ih =>
      have isFirst := each item List.mem_cons_self (depth + 1)
      have later := ih fun other member => each other (.tail _ member)
      exact (Prepends.cons ',').comp ((prepends_writeLine (depth + 1)).comp (isFirst.comp later))

theorem prepends_writeIndentedMembers {members : List (String × Json)} (depth : Nat)
    (each : ∀ member ∈ members, ∀ depth, Prepends (writeIndented depth (Prod.snd member))) :
    Prepends (writeIndentedMembers depth members) := by
  induction members with
  | nil => exact (prepends_writeLine depth).comp (.cons '}')
  | cons member rest ih =>
      have isFirst := each member List.mem_cons_self (depth + 1)
      have later := ih fun other isLater => each other (.tail _ isLater)
      exact (Prepends.cons ',').comp ((prepends_writeLine (depth + 1)).comp
        ((prepends_writeString member.1).comp ((Prepends.append [':', ' ']).comp
          (isFirst.comp later))))

theorem prepends_writeIndented (value : Json) : ∀ depth, Prepends (value.writeIndented depth) := by
  induction value using Json.induction with
  | null => exact fun _ => .append _
  | bool value => cases value <;> exact fun _ => .append _
  | number value => exact fun _ => .append _
  | string text => exact fun _ => prepends_writeString text
  | array items ih =>
      intro depth
      cases items with
      | nil => exact .append ['[', ']']
      | cons item rest =>
          have isFirst := ih item List.mem_cons_self (depth + 1)
          have later := prepends_writeIndentedItems depth fun other member =>
            ih other (.tail _ member)
          exact (Prepends.cons '[').comp
            ((prepends_writeLine (depth + 1)).comp (isFirst.comp later))
  | object members ih =>
      intro depth
      cases members with
      | nil => exact .append ['{', '}']
      | cons member rest =>
          have isFirst := ih member List.mem_cons_self (depth + 1)
          have later := prepends_writeIndentedMembers depth fun other isLater =>
            ih other (.tail _ isLater)
          exact (Prepends.cons '{').comp ((prepends_writeLine (depth + 1)).comp
            ((prepends_writeString member.1).comp ((Prepends.append [':', ' ']).comp
              (isFirst.comp later))))

end Json

namespace Outline

open JsonToken

theorem endsNumber_lineBreak : EndsNumber ['\n'] := by
  rintro _ ⟨⟩
  decide

theorem scan_lineBreak : scan ['\n'] = [] := by
  rw [scan_of_isSpace rfl, scan]

theorem ofText_render_lineBreak (value : Json) :
    ofText (value.render ++ "\n") = (value.outline, true) := by
  apply ofText_of_scan
  have whole : (value.render ++ "\n").toList = value.writeCompact ['\n'] := by
    rw [String.toList_append, Json.render, String.toList_ofList, Json.compact]
    exact (value.prepends_writeCompact ['\n']).symm
  rw [whole, value.scansCompact endsNumber_lineBreak, scan_lineBreak, List.append_nil]

theorem ofText_renderPretty_lineBreak (value : Json) :
    ofText (value.renderPretty ++ "\n") = (value.outline, true) := by
  apply ofText_of_scan
  have whole : (value.renderPretty ++ "\n").toList = value.writeIndented 0 ['\n'] := by
    rw [String.toList_append, Json.renderPretty, String.toList_ofList, Json.indented]
    exact (value.prepends_writeIndented 0 ['\n']).symm
  rw [whole, value.scansIndented 0 endsNumber_lineBreak, scan_lineBreak, List.append_nil]

end Outline

end TemplateMarkup
