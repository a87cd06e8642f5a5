/-! # Notes on a run

What a run has to tell besides its result.
-/
namespace ClassScribe

inductive Level where
  | debug
  | info
  | warn
  deriving DecidableEq, Repr

structure Note where
  level : Level
  text : String
  deriving DecidableEq, Repr

def Note.debug (text : String) : Note := ⟨.debug, text⟩
def Note.info (text : String) : Note := ⟨.info, text⟩
def Note.warn (text : String) : Note := ⟨.warn, text⟩

end ClassScribe
