import ClassScribe.Text.LowerCase

/-! # File stems

The file stem of a name is its lower-case form, with an underscore wherever an ASCII small letter
is followed directly by an ASCII capital. What was in front is judged before lowering, so
acronyms stay joined.
-/
namespace ClassScribe.Text

/-- `afterSmall` says whether the character in front is an ASCII small letter. -/
def stemChars (afterSmall : Bool) : List Char → List Char
  | [] => []
  | c :: rest =>
    (if afterSmall && c.isUpper then ['_'] else []) ++ lowerChar c ++ stemChars c.isLower rest

def stem (name : String) : String := String.ofList (stemChars false name.toList)

end ClassScribe.Text
