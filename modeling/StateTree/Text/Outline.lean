import StateTree.Text.Character

/-
  The layout of inspection texts: quoted strings, records with named fields, constructors applied
  to one part, lists and maps. In a string, what a reader could not see or tell apart is written by
  its code point: characters without a form of their own, and characters that extend the one before
  them.
-/

namespace StateTree.Text

def escape (c : Char) : List Char :=
  match c with
  | '\x00' => ['\\', '0']
  | '\t' => ['\\', 't']
  | '\r' => ['\\', 'r']
  | '\n' => ['\\', 'n']
  | '\\' => ['\\', '\\']
  | '"' => ['\\', '"']
  | c =>
    if isExtending c || isUnprintable c then
      ['\\', 'u', '\x7b'] ++ Nat.toDigits 16 c.toNat ++ ['\x7d']
    else [c]

/-- The string in quotes, with what cannot be read as it stands escaped. -/
def escaped (s : String) : String := String.ofList ('"' :: s.toList.flatMap escape ++ ['"'])

def listed (parts : List String) : String := "[" ++ ", ".intercalate parts ++ "]"

def mapped (entries : List (String × String)) : String :=
  "\x7b" ++ ", ".intercalate (entries.map fun e => escaped e.1 ++ ": " ++ e.2) ++ "\x7d"

def applied (name part : String) : String := name ++ "(" ++ part ++ ")"

def structured (name : String) (fields : List (String × String)) : String :=
  name ++ " \x7b " ++ ", ".intercalate (fields.map fun f => f.1 ++ ": " ++ f.2) ++ " \x7d"

def flag (b : Bool) : String := if b then "true" else "false"

def optional (part : Option String) : String :=
  match part with
  | some text => applied "Some" text
  | none => "None"

end StateTree.Text
