/-! # Switches on a command line

A table says which switches a command has. Each may be given once. A flag stands alone; any other
switch takes the text attached to it or the next argument, which then does not look like a switch.
No argument stands for itself, so `--` can only end the line.
-/
namespace ClassScribe.Command

structure Switch where
  /-- The name behind two dashes. -/
  name : String
  /-- The letter behind one dash. -/
  letter : Option Char := none
  takesValue : Bool := true

/-- Switches by name with their values; flags have the empty text. -/
abbrev Given := List (String × String)

inductive Argument where
  | named (name : String) (attached : Option String)
  | lettered (letter : Char) (attached : Option String)
  /-- Two dashes alone. -/
  | ending
  | plain (text : String)

namespace Argument

/-- What follows an equals sign, if there is one. -/
def afterEquals : List Char → Option String
  | '=' :: value => some (String.ofList value)
  | _ => none

def ofText (s : String) : Argument :=
  match s.toList with
  | ['-', '-'] => ending
  | '-' :: '-' :: rest =>
    named (String.ofList (rest.takeWhile (· != '='))) (afterEquals (rest.dropWhile (· != '=')))
  | '-' :: letter :: rest =>
    lettered letter <|
      if rest.isEmpty then none else some ((afterEquals rest).getD (String.ofList rest))
  | _ => plain s

def attached : Argument → Option String
  | named _ value => value
  | lettered _ value => value
  | _ => none

def means (a : Argument) (s : Switch) : Bool :=
  match a with
  | named name _ => name == s.name
  | lettered letter _ => s.letter == some letter
  | _ => false

end Argument

namespace Switch

def flag (name : String) : Switch := { name := name, takesValue := false }

def add (s : Switch) (value : String) (given : Given) : Option Given :=
  if (given.lookup s.name).isSome then none else some (given ++ [(s.name, value)])

def collect (table : List Switch) (given : Given) : List String → Option Given
  | [] => some given
  | s :: rest =>
    let a := Argument.ofText s
    match a, table.find? a.means with
    | .ending, _ => if rest.isEmpty then some given else none
    | _, none => none
    | _, some switch =>
      if switch.takesValue then
        match a.attached, rest with
        | some value, rest => do collect table (← switch.add value given) rest
        | none, [] => none
        | none, next :: rest =>
          match Argument.ofText next with
          | .plain value => do collect table (← switch.add value given) rest
          | _ => none
      else if a.attached.isSome then none
      else do collect table (← switch.add "" given) rest

end Switch
end ClassScribe.Command
