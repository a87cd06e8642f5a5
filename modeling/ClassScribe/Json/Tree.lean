/-! # JSON values and their texts

A value for output, with a compact text and an indented one. Members keep the order they are
given in.
-/
namespace ClassScribe

inductive Json where
  | null
  | flag (b : Bool)
  | number (n : Nat)
  | text (s : String)
  | list (items : List Json)
  | record (members : List (String × Json))
  deriving Repr

namespace Json

def hexDigit (n : Nat) : Char := (Nat.toDigits 16 (n % 16)).headD '0'

/-- Quotes, backslashes and controls are escaped. -/
def escapeChar (c : Char) : List Char :=
  if c == '"' then ['\\', '"']
  else if c == '\\' then ['\\', '\\']
  else if c == '\n' then ['\\', 'n']
  else if c == '\r' then ['\\', 'r']
  else if c == '\t' then ['\\', 't']
  else if c.toNat == 8 then ['\\', 'b']
  else if c.toNat == 12 then ['\\', 'f']
  else if c.toNat < 0x20 then ['\\', 'u', '0', '0', hexDigit (c.toNat / 16), hexDigit c.toNat]
  else [c]

def quote (s : String) : List Char := '"' :: s.toList.flatMap escapeChar ++ ['"']

def flagChars (b : Bool) : List Char := if b then "true".toList else "false".toList

mutual

def compactChars : Json → List Char
  | null => "null".toList
  | flag b => flagChars b
  | number n => Nat.toDigits 10 n
  | text s => quote s
  | list items => '[' :: compactItems items
  | record members => '{' :: compactMembers members

def compactItems : List Json → List Char
  | [] => [']']
  | [v] => compactChars v ++ [']']
  | v :: rest => compactChars v ++ ',' :: compactItems rest

def compactMembers : List (String × Json) → List Char
  | [] => ['}']
  | [(k, v)] => quote k ++ ':' :: compactChars v ++ ['}']
  | (k, v) :: rest => quote k ++ ':' :: compactChars v ++ ',' :: compactMembers rest

end

def compact (v : Json) : String := String.ofList v.compactChars

def indentation (depth : Nat) : List Char := '\n' :: List.replicate (2 * depth) ' '

mutual

def prettyChars (depth : Nat) : Json → List Char
  | null => "null".toList
  | flag b => flagChars b
  | number n => Nat.toDigits 10 n
  | text s => quote s
  | list [] => ['[', ']']
  | list items => '[' :: prettyItems depth items
  | record [] => ['{', '}']
  | record members => '{' :: prettyMembers depth members

def prettyItems (depth : Nat) : List Json → List Char
  | [] => indentation depth ++ [']']
  | v :: rest =>
    indentation (depth + 1) ++ prettyChars (depth + 1) v ++
      (if rest.isEmpty then [] else [',']) ++ prettyItems depth rest

def prettyMembers (depth : Nat) : List (String × Json) → List Char
  | [] => indentation depth ++ ['}']
  | (k, v) :: rest =>
    indentation (depth + 1) ++ quote k ++ [':', ' '] ++ prettyChars (depth + 1) v ++
      (if rest.isEmpty then [] else [',']) ++ prettyMembers depth rest

end

/-- Two spaces for each level, empty lists and records on one line. -/
def pretty (v : Json) : String := String.ofList (v.prettyChars 0)

end Json
end ClassScribe
