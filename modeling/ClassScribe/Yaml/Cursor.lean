/-! # Characters and places of a YAML text

The classes of characters the notation distinguishes, and the place of a character: its line, its
column, and the octets in front of it on its line. A carriage return with a line feed is one break
of two characters.
-/
namespace ClassScribe.Yaml

def byteOrderMark : Char := Char.ofNat 0xFEFF

def isPermitted (c : Char) : Bool :=
  let n := c.toNat
  n == 0x9 || n == 0xA || n == 0xD || (0x20 ≤ n && n ≤ 0x7E) || n == 0x85 ||
  (0xA0 ≤ n && n ≤ 0xD7FF) || (0xE000 ≤ n && n ≤ 0xFFFD) || 0x10000 ≤ n

def isSpaceOrTab (c : Char) : Bool := c == ' ' || c == '\t'

def isBreak (c : Char) : Bool :=
  c == '\n' || c == '\r' || c.toNat == 0x85 || c.toNat == 0x2028 || c.toNat == 0x2029

/-- What a break contributes to a text: the two Unicode separators stay, all others are feeds. -/
def breakText (c : Char) : Char := if c.toNat == 0x2028 || c.toNat == 0x2029 then c else '\n'

/-- Letters, digits, `_` and `-`, in ASCII. -/
def isWordChar (c : Char) : Bool := c.isAlphanum || c == '_' || c == '-'

def atBreak : List Char → Bool
  | [] => true
  | c :: _ => isBreak c

/-- White space, a break or the end is next. -/
def atGap : List Char → Bool
  | [] => true
  | c :: _ => isSpaceOrTab c || isBreak c

def nextIn (set : String) : List Char → Bool
  | [] => false
  | c :: _ => set.toList.contains c

/-- `---` or `...`, standing alone. -/
def atDocumentMark : List Char → Bool
  | '-' :: '-' :: '-' :: rest => atGap rest
  | '.' :: '.' :: '.' :: rest => atGap rest
  | _ => false

structure Place where
  line : Nat := 0
  column : Nat := 0
  /-- Octets of the line in front of the character. -/
  octets : Nat := 0
  deriving Repr

def Place.past (p : Place) (c : Char) : Place := ⟨p.line, p.column + 1, p.octets + c.utf8Size⟩

/-- Past `n` characters of one octet each. -/
def Place.step (p : Place) (n : Nat) : Place := ⟨p.line, p.column + n, p.octets + n⟩

def Place.nextLine (p : Place) : Place := ⟨p.line + 1, 0, 0⟩

end ClassScribe.Yaml
