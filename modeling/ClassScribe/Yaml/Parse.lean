import ClassScribe.Yaml.Lexer
import ClassScribe.Yaml.Node

/-! # From tokens to a document

A text holds one document. Directives in front of it give versions and handles for tags; an alias
means the anchor that has its name so far.
-/
namespace ClassScribe.Yaml

structure Parsing where
  rest : List Token
  /-- The names of the anchors so far, each once, with the number given last. -/
  anchors : List (String × Nat) := []

abbrev Parser := StateT Parsing (Except Fault)

namespace Parser

def peek : Parser Token := return (← get).rest.headD .streamEnd

def skip : Parser Unit := modify fun s => { s with rest := s.rest.drop 1 }

def fail {α : Type} (f : Fault) : Parser α := throw f

/-- Number a new anchor by the names in use before it. -/
def register : Option String → Parser (Option Nat)
  | none => return none
  | some name => do
    let s ← get
    let n := s.anchors.length
    let others := s.anchors.filter (·.1 != name)
    set { s with anchors := (name, n) :: others }
    return some n

def aliasOf (name : String) : Parser Node := do
  match (← get).anchors.lookup name with
  | some n => return .alias n
  | none => fail .unknownAnchor

/-- Handles with what they expand to. -/
abbrev Handles := List (String × Tag)

def expand (handles : Handles) (handle : String) (suffix : Tag) : Parser Tag :=
  if handle.isEmpty then return suffix
  else match handles.lookup handle with
    | some expansion => return expansion.append suffix
    | none => fail .unknownHandle

/-- The anchor and the tag in front of a node, in either order. -/
def properties (handles : Handles) : Parser (Option String × Option Tag) := do
  match ← peek with
  | .anchor name =>
    skip
    match ← peek with
    | .tag handle suffix => skip; return (some name, some (← expand handles handle suffix))
    | _ => return (some name, none)
  | .tag handle suffix =>
    skip
    match ← peek with
    | .anchor name => skip; return (some name, some (← expand handles handle suffix))
    | _ => return (none, some (← expand handles handle suffix))
  | _ => return (none, none)

def endsItem : Token → Bool
  | .blockEntry | .blockEnd => true
  | _ => false

def endsIndentlessItem : Token → Bool
  | .blockEntry | .key | .value | .blockEnd => true
  | _ => false

def endsMember : Token → Bool
  | .key | .value | .blockEnd => true
  | _ => false

def endsFlowItem : Token → Bool
  | .flowEntry | .flowSequenceEnd => true
  | _ => false

def endsFlowMember : Token → Bool
  | .flowEntry | .flowMappingEnd => true
  | _ => false

def isValue : Token → Bool
  | .value => true
  | _ => false

def separator (first : Bool) (closing : Token → Bool) : Parser Unit := do
  match ← peek with
  | .flowEntry => if first then fail .order else skip
  | t => if first || closing t then return () else fail .order

mutual

/-- A node; `block` where block collections may begin, `member` for a part of a block mapping,
whose sequences need no indentation. The fuel bounds the tokens ahead. -/
def node (handles : Handles) : Nat → (block member : Bool) → Parser Node
  | 0, _, _ => fail .order
  | fuel + 1, block, member => do
    match ← peek with
    | .alias name => skip; aliasOf name
    | _ =>
      let (anchor, tag) ← properties handles
      match ← peek, block, member with
      | .blockEntry, _, true =>
        let mark ← register anchor
        return .sequence mark tag (← indentlessItems handles fuel)
      | .scalar style text, _, _ =>
        skip
        return .scalar (← register anchor) tag style text
      | .flowSequenceStart, _, _ =>
        skip
        let mark ← register anchor
        return .sequence mark tag (← flowItems handles fuel true)
      | .flowMappingStart, _, _ =>
        skip
        let mark ← register anchor
        return .mapping mark tag (← flowMembers handles fuel true)
      | .blockSequenceStart, true, _ =>
        skip
        let mark ← register anchor
        return .sequence mark tag (← items handles fuel)
      | .blockMappingStart, true, _ =>
        skip
        let mark ← register anchor
        return .mapping mark tag (← members handles fuel)
      | _, _, _ =>
        if anchor.isNone && tag.isNone then fail .order
        else return .scalar (← register anchor) tag .plain ""

/-- A node, unless a token follows that shows that it is empty. -/
def nodeOrEmpty (handles : Handles) : Nat → (block member : Bool) → (Token → Bool) → Parser Node
  | 0, _, _, _ => fail .order
  | fuel + 1, block, member, ends => do
    if ends (← peek) then return .empty else node handles fuel block member

def items (handles : Handles) : Nat → Parser (List Node)
  | 0 => fail .order
  | fuel + 1 => do
    match ← peek with
    | .blockEntry =>
      skip
      let v ← nodeOrEmpty handles fuel true false endsItem
      return v :: (← items handles fuel)
    | .blockEnd => skip; return []
    | _ => fail .order

def indentlessItems (handles : Handles) : Nat → Parser (List Node)
  | 0 => fail .order
  | fuel + 1 => do
    match ← peek with
    | .blockEntry =>
      skip
      let v ← nodeOrEmpty handles fuel true false endsIndentlessItem
      return v :: (← indentlessItems handles fuel)
    | _ => return []

def members (handles : Handles) : Nat → Parser (List (Node × Node))
  | 0 => fail .order
  | fuel + 1 => do
    match ← peek with
    | .key =>
      skip
      let k ← nodeOrEmpty handles fuel true true endsMember
      let v ← valueOrEmpty handles fuel true endsMember
      return (k, v) :: (← members handles fuel)
    | .blockEnd => skip; return []
    | _ => fail .order

/-- The value of a key, empty also without a colon. -/
def valueOrEmpty (handles : Handles) : Nat → (block : Bool) → (Token → Bool) → Parser Node
  | 0, _, _ => fail .order
  | fuel + 1, block, ends => do
    match ← peek with
    | .value => skip; nodeOrEmpty handles fuel block block ends
    | _ => return .empty

/-- A pair among the items is a mapping of its own. A token in place of its key is passed over. -/
def flowItems (handles : Handles) : Nat → (first : Bool) → Parser (List Node)
  | 0, _ => fail .order
  | fuel + 1, first => do
    separator first fun t => match t with | .flowSequenceEnd => true | _ => false
    match ← peek with
    | .flowSequenceEnd => skip; return []
    | .key =>
      skip
      let bare := isValue (← peek) || endsFlowItem (← peek)
      if bare then skip
      let k ← if bare then pure .empty else node handles fuel false false
      let v ← valueOrEmpty handles fuel false endsFlowItem
      return .mapping none none [(k, v)] :: (← flowItems handles fuel false)
    | _ =>
      let v ← node handles fuel false false
      return v :: (← flowItems handles fuel false)

def flowMembers (handles : Handles) : Nat → (first : Bool) → Parser (List (Node × Node))
  | 0, _ => fail .order
  | fuel + 1, first => do
    separator first fun t => match t with | .flowMappingEnd => true | _ => false
    match ← peek with
    | .flowMappingEnd => skip; return []
    | .key =>
      skip
      let k ← nodeOrEmpty handles fuel false false fun t => isValue t || endsFlowMember t
      let v ← valueOrEmpty handles fuel false endsFlowMember
      return (k, v) :: (← flowMembers handles fuel false)
    | _ =>
      let k ← node handles fuel false false
      return (k, .empty) :: (← flowMembers handles fuel false)

end

/-- The directives of a document; each handle and the version are given once. -/
def directives (versioned : Bool) (handles : Handles) :
    List Token → Except Fault (Handles × List Token)
  | .version major minor :: rest =>
    if versioned || major != 1 || (minor != 1 && minor != 2) then .error .directive
    else directives true handles rest
  | .handle handle expansion :: rest =>
    if (handles.lookup handle).isSome then .error .directive
    else directives versioned (handles ++ [(handle, expansion)]) rest
  | rest => .ok (handles, rest)

def defaultHandles : Handles := [("!", .ofText "!"), ("!!", .ofText "tag:yaml.org,2002:")]

def isDirective : Token → Bool
  | .version _ _ | .handle _ _ => true
  | _ => false

def endsDocument : Token → Bool
  | .documentStart | .documentEnd | .streamEnd => true
  | t => isDirective t

/-- The root of a document and what follows it. -/
def root (handles : Handles) (explicit : Bool) (rest : List Token) :
    Except Fault (Node × List Token) := do
  if explicit && endsDocument (rest.headD .streamEnd) then return (.empty, rest)
  let whole := node (handles ++ defaultHandles) (4 * rest.length + 16) true false
  let (v, s) ← whole.run { rest := rest }
  return (v, s.rest)

def document (ts : List Token) : Except Fault (Node × List Token) :=
  match ts with
  | [.streamEnd] => .ok (.empty, ts)
  | .documentStart :: rest => root [] true rest
  | t :: _ =>
    if isDirective t then do
      match ← directives false [] ts with
      | (handles, .documentStart :: rest) => root handles true rest
      | _ => .error .order
    else root [] false ts
  | [] => .error .order

end Parser

def Document.ofTokens (ts : List Token) : Except Fault Document := do
  let (v, rest) ← Parser.document ts
  match rest.dropWhile fun t => match t with | .documentEnd => true | _ => false with
  | [.streamEnd] => return .ofRoot v
  | _ => .error .severalDocuments

def Document.ofText (text : String) : Except Fault Document := do
  Document.ofTokens (← tokens text)

end ClassScribe.Yaml
