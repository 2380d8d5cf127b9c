import StateTree.Json.Writer
import StateTree.Schema

/-
  The text of a schema, as messages and listings show it: `required ` in front of a required one,
  then the kind with its parts. Options are not shown.
-/

namespace StateTree

mutual

def Kind.text : Kind → String
  | .primitive p => p.name
  | .enum values => "enum(" ++ ", ".intercalate (values.map Value.text) ++ ")"
  | .instanceOf className => "instanceOf(" ++ className ++ ")"
  | .custom check => "custom(" ++ check.name ++ ")"
  | .arrayOf element => "arrayOf(" ++ Schema.text element ++ ")"
  | .objectOf value => "objectOf(" ++ Schema.text value ++ ")"
  | .oneOf candidates => "oneOf(" ++ " | ".intercalate (Schema.texts candidates) ++ ")"
  | .shapeOf fields => "shapeOf\x7b" ++ ", ".intercalate (Schema.fieldTexts fields) ++ "\x7d"
  | .exactShapeOf fields =>
    "exactShapeOf\x7b" ++ ", ".intercalate (Schema.fieldTexts fields) ++ "\x7d"

def Schema.text : Schema → String
  | ⟨kind, required, _⟩ => (if required then "required " else "") ++ Kind.text kind

def Schema.texts : List Schema → List String
  | [] => []
  | t :: rest => Schema.text t :: Schema.texts rest

def Schema.fieldTexts : List (String × Schema) → List String
  | [] => []
  | (name, t) :: rest => (name ++ ": " ++ Schema.text t) :: Schema.fieldTexts rest

end

end StateTree
