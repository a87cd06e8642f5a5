import ClassScribe.Host.Failure
import ClassScribe.Host.Script
import ClassScribe.Path

/-! # What generation asks of its host -/
namespace ClassScribe.Host

inductive Confirmation where
  | accepted
  | declined
  deriving DecidableEq, Repr

inductive Call where
  | directoryExists (path : Path)
  | createDirectory (path : Path)
  /-- Delete a directory with all that is in it. -/
  | deleteDirectory (path : Path)
  | writeText (path : Path) (content : String) (overwrite : Bool)
  | confirm (message : String)
  deriving Repr

abbrev Call.Answer : Call → Type
  | .directoryExists _ => Bool
  | .createDirectory _ => Except Failure Unit
  | .deleteDirectory _ => Except Failure Unit
  | .writeText _ _ _ => Except Failure Unit
  | .confirm _ => Confirmation

end ClassScribe.Host
