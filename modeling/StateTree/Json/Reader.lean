import StateTree.Json.Token
import StateTree.Value

/-
  Reading values from JSON text. The tokens are taken one by one; the containers part way through
  wait on a stack, and a phase says what may come next. A name that an object repeats keeps its
  first place and its last value. Containers nest up to a given depth. How a numeral that is no
  integer becomes a number is left open: documents are read with `Numeral.binary64?`.
-/

namespace StateTree

namespace Json

/-- A container part way through: what it holds so far, and the name whose value comes next. -/
inductive Frame
  | items (done : List Value)
  | fields (done : List (String × Value)) (name : String)

/-- What has just been read, as far as it decides what may come next. -/
inductive Phase
  | value
  | firstItem
  | firstName
  | name (done : List (String × Value))
  | colon (done : List (String × Value)) (name : String)
  | after (v : Value)

/-- The reading position: the phase, and the containers around it from the inside out. The items
of a frame stand in reverse. -/
abbrev Position := Phase × List Frame

section Steps

variable (float? : Numeral → Option Binary64) (depth : Nat)

/-- The position after the first token of a value. -/
def beginValue? (stack : List Frame) (t : Token) : Option Position :=
  match t with
  | .null => some (.after .null, stack)
  | .bool b => some (.after (.bool b), stack)
  | .number n => (n.numberBy? float?).map fun n => (.after (.number n), stack)
  | .string s => some (.after (.string s), stack)
  | .openArray => if stack.length < depth then some (.firstItem, stack) else none
  | .openObject => if stack.length < depth then some (.firstName, stack) else none
  | _ => none

/-- The position after a token that follows a whole value. -/
def afterValue? (v : Value) (stack : List Frame) (t : Token) : Option Position :=
  match stack, t with
  | .items done :: rest, .comma => some (.value, .items (v :: done) :: rest)
  | .items done :: rest, .closeArray => some (.after (.array (v :: done).reverse), rest)
  | .fields done name :: rest, .comma => some (.name (Fields.insert done name v), rest)
  | .fields done name :: rest, .closeObject =>
    some (.after (.object (Fields.insert done name v)), rest)
  | _, _ => none

def step? (position : Position) (t : Token) : Option Position :=
  match position.1, t with
  | .value, t => beginValue? float? depth position.2 t
  | .firstItem, .closeArray => some (.after (.array []), position.2)
  | .firstItem, t => beginValue? float? depth (.items [] :: position.2) t
  | .firstName, .closeObject => some (.after (.object []), position.2)
  | .firstName, .string s => some (.colon [] s, position.2)
  | .name done, .string s => some (.colon done s, position.2)
  | .colon done name, .colon => some (.value, .fields done name :: position.2)
  | .after v, t => afterValue? v position.2 t
  | _, _ => none

/-- The value that a list of tokens spells, if it is one value and no more. -/
def ofTokens? (tokens : List Token) : Option Value :=
  match tokens.foldlM (step? float? depth) (.value, []) with
  | some (.after v, []) => some v
  | _ => none

/-- The value of a text in which containers nest no deeper than `depth`. -/
def readBy? (text : String) : Option Value := ofTokens? float? depth (Token.scan text.toList)

end Steps

def read? (depth : Nat) (text : String) : Option Value := readBy? Numeral.binary64? depth text

/-- How deep the containers of a document may nest. -/
def documentDepth : Nat := 127

end Json

/-- The value of a JSON document, where `float?` reads the numerals that are no integers. -/
def Value.ofJsonBy? (float? : Json.Numeral → Option Binary64) (text : String) : Option Value :=
  Json.readBy? float? Json.documentDepth text

/-- The value of a JSON document. -/
def Value.ofJson? (text : String) : Option Value := ofJsonBy? Json.Numeral.binary64? text

end StateTree
