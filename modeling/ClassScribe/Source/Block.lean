import ClassScribe.Model.Element

/-! # Blocks of a source

A Ruby source is a list of blocks, which nest. Printing turns blocks into commands for a writer,
which keeps the lines and the depth of indentation. A blank line separates groups of blocks.
-/
namespace ClassScribe.Source

inductive Block where
  | line (text : String)
  /-- A text shown in comments, line by line. -/
  | comment (lines : List String)
  | gap
  /-- A header, what it encloses, and `end`. -/
  | scope (header : String) (body : List Block)
  /-- A visibility marker and what it applies to. -/
  | under (marker : Visibility) (body : List Block)
  deriving Repr

inductive Command where
  | indent
  | outdent
  | line (text : String)
  | blank
  deriving DecidableEq, Repr

structure Writer where
  unit : String
  depth : Nat := 0
  lines : Array String := #[]
  deriving Repr

namespace Writer

def indentation (w : Writer) : String := String.join (List.replicate w.depth w.unit)

/-- An empty line stays without indentation, and at the left margin nothing is outdented. -/
def step (w : Writer) : Command → Writer
  | .indent => { w with depth := w.depth + 1 }
  | .outdent => { w with depth := w.depth - 1 }
  | .line s => { w with lines := w.lines.push (if s.isEmpty then "" else w.indentation ++ s) }
  | .blank => { w with lines := w.lines.push "" }

def run (w : Writer) (cs : List Command) : Writer := cs.foldl step w

def text (w : Writer) : String := "\n".intercalate w.lines.toList

end Writer

/-- One line stands alone; more are indented below an empty comment. -/
def commentLines (unit : String) : List String → List String
  | [s] => ["# " ++ s]
  | ls => "#" :: ls.map fun s => if s.isEmpty then "#" else "# " ++ unit ++ s

mutual

def Block.commands (unit : String) : Block → List Command
  | .line s => [.line s]
  | .comment ls => (commentLines unit ls).map Command.line
  | .gap => [.blank]
  | .scope header body =>
    .line header :: .indent :: commands unit body ++ [.outdent, .line "end"]
  | .under v body => .line v.marker :: .indent :: commands unit body ++ [.outdent]

def commands (unit : String) : List Block → List Command
  | [] => []
  | b :: rest => b.commands unit ++ commands unit rest

end

def Writer.write (w : Writer) (blocks : List Block) : Writer := w.run (commands w.unit blocks)

/-- Groups with a blank line between each two. -/
def separated (groups : List (List Block)) : List Block := [Block.gap].intercalate groups

end ClassScribe.Source
