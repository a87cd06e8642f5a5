import ClassScribe.Text.Unprintable

/-! # Quoted texts in messages

A message shows a text between double quotes. Quotes, backslashes and the common controls are
escaped, and a character that does not print on its own is shown by its number.
-/
namespace ClassScribe.Text

def hexDigits (n : Nat) : List Char := Nat.toDigits 16 n

def quoteChar (c : Char) : List Char :=
  if c == '"' then ['\\', '"']
  else if c == '\\' then ['\\', '\\']
  else if c == '\n' then ['\\', 'n']
  else if c == '\r' then ['\\', 'r']
  else if c == '\t' then ['\\', 't']
  else if c.toNat == 0 then ['\\', '0']
  else if isUnprintable c then '\\' :: 'u' :: '{' :: hexDigits c.toNat ++ ['}']
  else [c]

def quoted (s : String) : String :=
  String.ofList ('"' :: s.toList.flatMap quoteChar ++ ['"'])

end ClassScribe.Text
