/-! # White space and lines of a text

White space is the Unicode property White_Space. Trimming drops it from the ends of a text;
`trimmedLines` gives what a comment shows: the lines of the trimmed text, none with white space
at its end, and no line at all exactly when the text is blank.
-/
namespace ClassScribe.Text

def isBlank (c : Char) : Bool :=
  (0x9 ≤ c.toNat && c.toNat ≤ 0xD) || c == ' ' || c.toNat == 0x85 || c.toNat == 0xA0 ||
  c.toNat == 0x1680 || (0x2000 ≤ c.toNat && c.toNat ≤ 0x200A) || c.toNat == 0x2028 ||
  c.toNat == 0x2029 || c.toNat == 0x202F || c.toNat == 0x205F || c.toNat == 0x3000

def trimEnd (cs : List Char) : List Char := (cs.reverse.dropWhile isBlank).reverse

def trimBoth (cs : List Char) : List Char := trimEnd (cs.dropWhile isBlank)

def trim (s : String) : String := String.ofList (trimBoth s.toList)

def isBlankText (s : String) : Bool := s.toList.all isBlank

def splitLines (cs : List Char) : List (List Char) := cs.splitOn '\n'

def trimmedLines (s : String) : List String :=
  match trimBoth s.toList with
  | [] => []
  | cs => (splitLines cs).map fun line => String.ofList (trimEnd line)

def lowerAscii (s : String) : String := String.ofList (s.toList.map Char.toLower)

end ClassScribe.Text
