import Graft.Element

/-!
# `Graft.Element.Inspect` — elements written out in full

The written form of an element names its kind and every field, nested elements included, and quotes
the content of each.
-/

namespace Graft.Element

/-- Field texts between braces, under a name. -/
def inspectFields (name : String) (fields : List (String × String)) : String :=
  name ++ " \x7b " ++ String.intercalate ", " (fields.map fun f => f.1 ++ ": " ++ f.2) ++ " \x7d"

/-- A form wrapped in the name of its variant. -/
def inspectVariant (name body : String) : String :=
  name ++ "(" ++ body ++ ")"

/-- Forms between square brackets. -/
def inspectSequence (forms : List String) : String :=
  "[" ++ String.intercalate ", " forms ++ "]"

/-- Quoted text without a word around it. -/
def inspectPlain (s : Text) : String :=
  String.ofList s.quoted

/-- A join with the given extent and forms of its parts. -/
def inspectJoin (t : Text) (extent : Extent) (forms : List String) : String :=
  inspectFields "JoinElement"
    [("base", extent.inspect t), ("elements", inspectSequence forms)]

/-- A list with the given extent and forms of its items. -/
def inspectList (t : Text) (extent : Extent) (forms : List String) (trailing : Bool) : String :=
  inspectFields "ListElement"
    [("items", inspectJoin t extent forms), ("has_trailing_separator", toString trailing)]

/-- A type name with the form of its arguments, if it has any. -/
def inspectTypeName (t : Text) (extent name : Extent) (arguments : String) : String :=
  inspectVariant "TypeName" (inspectFields "TypeNameElement"
    [("base", extent.inspect t), ("name", name.inspect t), ("template_types", arguments)])

mutual

/-- The written form of an element. -/
def inspect (t : Text) : Element → String
  | basic e => inspectVariant "Basic" (e.inspect t)
  | symbol e => inspectVariant "Symbol" (e.inspect t)
  | word e => inspectVariant "Word" (e.inspect t)
  | dottedWord e => inspectVariant "WordDot" (e.inspect t)
  | string e inner raw => inspectVariant "String" (inspectFields "StringElement"
      [("base", e.inspect t), ("inner", inner.inspect), ("is_raw", toString raw)])
  | number e integer fraction => inspectVariant "Number" (inspectFields "NumberElement"
      [("base", e.inspect t), ("int_part", inspectPlain integer),
       ("frac_part", Extent.inspectText fraction)])
  | bool e value => inspectVariant "Bool" (inspectFields "BoolElement"
      [("base", e.inspect t), ("value", toString value)])
  | join e items => inspectVariant "Join" (inspectJoin t e (inspectAll t items))
  | list e items trailing =>
      inspectVariant "List" (inspectList t e (inspectAll t items) trailing)
  | group e slots => inspectVariant "OneOrMore" (inspectFields "OneOrMoreElement"
      [("base", e.inspect t), ("items", inspectSequence (inspectSlots t slots))])
  | typeName e name => inspectTypeName t e name "None"
  | genericName e name arguments items trailing => inspectTypeName t e name
      (inspectVariant "Some" (inspectList t arguments (inspectAll t items) trailing))

/-- The written forms of some elements. -/
def inspectAll (t : Text) : List Element → List String
  | [] => []
  | e :: rest => inspect t e :: inspectAll t rest

/-- The written forms of some slots. -/
def inspectSlots (t : Text) : List (Option Element) → List String
  | [] => []
  | slot :: rest => inspectSlot t slot :: inspectSlots t rest

/-- The written form of a slot. -/
def inspectSlot (t : Text) : Option Element → String
  | none => "None"
  | some e => inspectVariant "Some" (inspect t e)

end

end Graft.Element
