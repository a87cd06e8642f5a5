/-! # Failures of a file system -/
namespace ClassScribe.Host

/-- Failures that an operating system reports by number. -/
inductive SystemError where
  | noEntry
  | busy
  | entryExists
  | notDirectory
  | isDirectory
  | invalidArgument
  | nameTooLong
  | notEmpty
  deriving DecidableEq, Repr

def SystemError.number : SystemError → Nat
  | .noEntry => 2
  | .busy => 16
  | .entryExists => 17
  | .notDirectory => 20
  | .isDirectory => 21
  | .invalidArgument => 22
  | .nameTooLong => 36
  | .notEmpty => 39

def SystemError.all : List SystemError :=
  [.noEntry, .busy, .entryExists, .notDirectory, .isDirectory, .invalidArgument, .nameTooLong,
    .notEmpty]

def SystemError.ofNumber? (n : Nat) : Option SystemError := all.find? (·.number == n)

def SystemError.describe : SystemError → String
  | .noEntry => "No such file or directory"
  | .busy => "Device or resource busy"
  | .entryExists => "File exists"
  | .notDirectory => "Not a directory"
  | .isDirectory => "Is a directory"
  | .invalidArgument => "Invalid argument"
  | .nameTooLong => "File name too long"
  | .notEmpty => "Directory not empty"

inductive Failure where
  | system (e : SystemError)
  /-- A path with a character that ends it. -/
  | unusablePath
  /-- A file whose octets are no text. -/
  | notText
  | notWritable (path : String)
  | absent (path : String)
  | present (path : String)
  /-- Anything else, as the system tells it. -/
  | other (message : String)
  deriving DecidableEq, Repr

def Failure.message : Failure → String
  | .system e => e.describe ++ " (os error " ++ toString e.number ++ ")"
  | .unusablePath => "file name contained an unexpected NUL byte"
  | .notText => "stream did not contain valid UTF-8"
  | .notWritable path => path ++ " is not writable"
  | .absent path => path ++ " does not exist"
  | .present path => path ++ " already exists"
  | .other message => message

end ClassScribe.Host
