/-! JSON values and their indented text. -/
namespace PipelineAtlas

/-- A JSON value without fractions. Fields keep their order. -/
inductive Json where
  | null
  | bool (b : Bool)
  | number (n : Nat)
  | string (s : String)
  | array (items : List Json)
  | object (fields : List (String × Json))

namespace Json

def fourHex (n : Nat) : List Char :=
  let digits := Nat.toDigits 16 n
  List.replicate (4 - digits.length) '0' ++ digits

def escapeChar (c : Char) : List Char :=
  if c = '"' then ['\\','"']
  else if c = '\\' then ['\\','\\']
  else if c = '\n' then ['\\','n']
  else if c = '\r' then ['\\','r']
  else if c = '\t' then ['\\','t']
  else if c.toNat = 8 then ['\\','b']
  else if c.toNat = 12 then ['\\','f']
  else if c.toNat < 32 then ['\\','u'] ++ fourHex c.toNat
  else [c]

def quote (s : String) : String :=
  "\"" ++ String.ofList (s.toList.flatMap escapeChar) ++ "\""

def newline (depth : Nat) : String :=
  "\n" ++ String.ofList (List.replicate (2 * depth) ' ')

mutual

def prettyAt (depth : Nat) : Json → String
  | .null => "null"
  | .bool b => if b then "true" else "false"
  | .number n => toString n
  | .string s => quote s
  | .array [] => "[]"
  | .array (j :: js) =>
    "[" ++ newline (depth + 1) ++ prettyAt (depth + 1) j ++ prettyItems (depth + 1) js ++
      newline depth ++ "]"
  | .object [] => "\x7b\x7d"
  | .object ((k,j) :: fields) =>
    "\x7b" ++ newline (depth + 1) ++ quote k ++ ": " ++ prettyAt (depth + 1) j ++
      prettyFields (depth + 1) fields ++ newline depth ++ "\x7d"

def prettyItems (depth : Nat) : List Json → String
  | [] => ""
  | j :: js => "," ++ newline depth ++ prettyAt depth j ++ prettyItems depth js

def prettyFields (depth : Nat) : List (String × Json) → String
  | [] => ""
  | (k,j) :: fields =>
    "," ++ newline depth ++ quote k ++ ": " ++ prettyAt depth j ++ prettyFields depth fields

end

def pretty (j : Json) : String := prettyAt 0 j

end Json

end PipelineAtlas
