import StateTree.Options
import StateTree.Path

/-
  What can be wrong with a declaration or with a use of a state tree, each cause with its message.
-/

namespace StateTree

inductive Error
  /-- A required type has no default when its node is built. -/
  | missingDefault (path : Path)
  /-- A path leads to no node; `segment` is the first one at which there is none. -/
  | unresolvedPath (path : Path) (segment : String)
  /-- A node stands where a type is declared. -/
  | nodeInType
  | unsupportedOption (option kind : String)
  | invalidOptionValue (option : String) (form : OptionForm)
  | emptyEnum
  | emptyClassName
  | emptyUnion
  /-- A type with fields was asked for; `found` is the text of the type given instead. -/
  | notARecord (found : String)
  /-- A validation is declared elsewhere than as a field of a record. -/
  | detachedValidation (path : Path)
  | notAScalar (path : Path)
deriving DecidableEq

def Error.message : Error → String
  | .missingDefault path => "Required state must have a default value: " ++ path
  | .unresolvedPath path segment =>
    "Cannot resolve path '" ++ path ++ "': no node at segment '" ++ segment ++ "'"
  | .nodeInType => "State nodes are not allowed in shape definitions"
  | .unsupportedOption option kind =>
    "Option '" ++ option ++ "' is not supported by type '" ++ kind ++ "'"
  | .invalidOptionValue option form => "Option '" ++ option ++ "' must be " ++ form.description
  | .emptyEnum => "Enum type requires at least one value"
  | .emptyClassName => "Instance type requires a class name"
  | .emptyUnion => "Union type requires at least one candidate"
  | .notARecord found => "Shape type requires a record, found '" ++ found ++ "'"
  | .detachedValidation path =>
    "Validation of '" ++ path ++ "' must be declared as a field of a record"
  | .notAScalar path => "State node at '" ++ path ++ "' is not a scalar"

end StateTree
