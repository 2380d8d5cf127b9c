import StateTree.Json.Quoted
import StateTree.Value

/-
  Writing values as JSON text, in one line or indented. What JSON has no form for is written as
  something near it: a symbol or a function as a string that names it, an instance as the object
  of its fields, a number that is not finite as null.
-/

namespace StateTree

namespace Json

/-- Numbers whose first digit counts `10^-5` to `10^15` are written positionally, and a whole one
then has a zero after its point. -/
def numberStyle : Decimal.Style := ⟨fun power => -5 ≤ power && power ≤ 15, ".0"⟩

/-- A tie between two shortest forms goes to the one with an even last digit. -/
def floatText (x : Binary64) : String :=
  if ¬ x.isFinite then "null"
  else if x.units = 0 then (if x.isNegative then "-0.0" else "0.0")
  else x.text .toEven numberStyle

/-- A number that is an integer is written as one, also if it is held as a floating-point number. -/
def numberText (n : Number) : String :=
  match n.toInt? with
  | some i => toString i
  | none => floatText n.toBinary64

/-- Where blanks go. -/
structure Spacing where
  /-- What comes before an item or a closing bracket at this depth. -/
  line : Nat → String
  colon : String

def Spacing.compact : Spacing := ⟨fun _ => "", ":"⟩

/-- One item a line, two spaces for each container around it. -/
def Spacing.indented : Spacing :=
  ⟨fun depth => String.ofList ('\n' :: List.replicate (2 * depth) ' '), ": "⟩

/-- What stands between two brackets, with the closing one on a line of its own. -/
def Spacing.enclose (spacing : Spacing) (depth : Nat) (opening closing : String) (isEmpty : Bool)
    (inner : String) : String :=
  if isEmpty then opening ++ closing else opening ++ inner ++ spacing.line depth ++ closing

mutual

/-- The text of a value that stands inside `depth` containers. -/
def write (spacing : Spacing) (depth : Nat) : Value → String
  | .null => "null"
  | .bool b => if b then "true" else "false"
  | .number n => numberText n
  | .string s => Quoted.encode s
  | .array items =>
    spacing.enclose depth "[" "]" items.isEmpty (writeItems spacing (depth + 1) items)
  | .object fields =>
    spacing.enclose depth "\x7b" "\x7d" fields.isEmpty (writeFields spacing (depth + 1) fields)
  | .symbol name => Quoted.encode ("<symbol " ++ name ++ ">")
  | .function name => Quoted.encode ("<function " ++ name ++ ">")
  | .instanceOf _ fields =>
    spacing.enclose depth "\x7b" "\x7d" fields.isEmpty (writeFields spacing (depth + 1) fields)

def writeItems (spacing : Spacing) (depth : Nat) : List Value → String
  | [] => ""
  | [v] => spacing.line depth ++ write spacing depth v
  | v :: rest =>
    spacing.line depth ++ write spacing depth v ++ "," ++ writeItems spacing depth rest

def writeFields (spacing : Spacing) (depth : Nat) : List (String × Value) → String
  | [] => ""
  | [(name, v)] =>
    spacing.line depth ++ Quoted.encode name ++ spacing.colon ++ write spacing depth v
  | (name, v) :: rest =>
    spacing.line depth ++ Quoted.encode name ++ spacing.colon ++ write spacing depth v ++ "," ++
      writeFields spacing depth rest

end

/-! ## More than one part -/

theorem writeItems_cons (spacing : Spacing) (depth : Nat) (v : Value) {rest : List Value}
    (h : rest ≠ []) :
    writeItems spacing depth (v :: rest) =
      spacing.line depth ++ write spacing depth v ++ "," ++ writeItems spacing depth rest := by
  rw [writeItems]
  exact h

theorem writeFields_cons (spacing : Spacing) (depth : Nat) (name : String) (v : Value)
    {rest : List (String × Value)} (h : rest ≠ []) :
    writeFields spacing depth ((name, v) :: rest) =
      spacing.line depth ++ Quoted.encode name ++ spacing.colon ++ write spacing depth v ++ "," ++
        writeFields spacing depth rest := by
  rw [writeFields]
  exact h

end Json

namespace Value

/-- The JSON text in one line, without blanks. -/
def text (v : Value) : String := Json.write .compact 0 v

/-- The JSON text with one item a line. -/
def indentedText (v : Value) : String := Json.write .indented 0 v

end Value

end StateTree
