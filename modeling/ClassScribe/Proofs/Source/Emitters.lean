import ClassScribe.Proofs.Source.Layout

/-! # Emitters

The parts of a source can also be written command by command. An emitter takes a writer through
them: it indents, writes lines, outdents again, and its loops remember whether to set what comes
next apart. What it writes in the end are the blocks of its part.
-/
namespace ClassScribe.Source

/-- A writer at work, with the depths it had after each of its commands. -/
structure Session where
  writer : Writer
  depths : List Nat := []

namespace Session

def step (s : Session) (c : Command) : Session where
  writer := s.writer.step c
  depths := s.depths ++ [(s.writer.step c).depth]

def run (s : Session) (cs : List Command) : Session := cs.foldl step s

def write (s : Session) (bs : List Block) : Session := s.run (commands s.writer.unit bs)

end Session

abbrev Emitter := StateM Session

namespace Emitter

def tell (c : Command) : Emitter Unit := modify (·.step c)

/-- What comes next is set apart, unless it is the first. -/
def next (started : Bool) : Emitter Bool := do
  if started then tell .blank
  return true

def documentation (o : Options) (text : String) : Emitter Unit := do
  let lines := Text.trimmedLines text
  if !o.documentation || lines.isEmpty then return
  if let [line] := lines then
    tell (.line ("# " ++ line))
    return
  let unit := (← get).writer.unit
  tell (.line "#")
  for line in lines do
    if line.isEmpty then
      tell (.line "#")
    else
      tell (.line ("# " ++ unit ++ line))

def method (header body : String) : Emitter Unit := do
  tell (.line header)
  tell .indent
  tell (.line body)
  tell .outdent
  tell (.line "end")

def accessorLines (o : Options) (attributes : List Attribute) : Emitter Unit := do
  for a in attributes do
    documentation o a.documentation
  let readers := attributes.filter (·.isReadOnly)
  let accessors := attributes.filter (!·.isReadOnly)
  if !readers.isEmpty then
    tell (.line ("attr_reader " ++ symbols (readers.map (·.name))))
  if !accessors.isEmpty then
    tell (.line ("attr_accessor " ++ symbols (accessors.map (·.name))))

def accessorMethods (o : Options) (attributes : List Attribute) : Emitter Unit := do
  let mut started := false
  for a in attributes do
    started ← next started
    documentation o a.documentation
    method ("def " ++ a.name) ("@" ++ a.name)
    if !a.isReadOnly then
      started ← next started
      method ("def " ++ a.name ++ "=(value)") ("@" ++ a.name ++ " = value")

def accessors (o : Options) (attributes : List Attribute) : Emitter Unit :=
  if o.declaredAccessors then accessorLines o attributes else accessorMethods o attributes

def referenceAccessors (stems : List String) : Emitter Unit :=
  tell (.line ("attr_accessor " ++ symbols stems))

def sharedState (statics : List Attribute) : Emitter Unit := do
  for a in statics.filter (·.isReadOnly) do
    tell (.line (a.name ++ " = " ++ initialValue a))
    if a.access? = some .privateAccess then
      tell (.line ("private_constant :" ++ a.name))
  for a in statics.filter (!·.isReadOnly) do
    tell (.line ("@@" ++ a.name ++ " = " ++ initialValue a))

def initializer (attributes : List Attribute) (held : List (String × String)) : Emitter Unit := do
  let names := attributes.map (·.name)
  tell (.line (signature "initialize" names))
  tell .indent
  for n in names do
    tell (.line ("@" ++ n ++ " = " ++ n))
  for (member, constant) in held do
    tell (.line ("@" ++ member ++ " = " ++ constant ++ ".new"))
  tell .outdent
  tell (.line "end")

def stubs (o : Options) (operations : List Operation) : Emitter Unit := do
  let mut started := false
  for op in operations do
    started ← next started
    documentation o op.documentation
    method (signature op.name op.signature) "# TODO: Implement this method here."

def textMethod : Emitter Unit :=
  method "def to_s" "\"Your string representation of the object will be written here.\""

def restricted (o : Options) (v : Visibility) (attributes : List Attribute)
    (operations : List Operation) : Emitter Unit := do
  tell (.line v.marker)
  tell .indent
  let mut started := false
  if !attributes.isEmpty then
    started ← next started
    accessors o attributes
  if !operations.isEmpty then
    started ← next started
    stubs o operations
  tell .outdent

end Emitter

/-- Groups with a blank line in front of each; the first has one if something stands above it. -/
def apart (started : Bool) : List (List Block) → List Block
  | [] => []
  | g :: gs => (if started then [.gap] else []) ++ g ++ apart true gs

theorem apart_append (started : Bool) (gs hs : List (List Block)) :
    apart started (gs ++ hs) = apart started gs ++ apart (started || !gs.isEmpty) hs := by
  induction gs generalizing started with
  | nil => simp [apart]
  | cons g gs ih => simp [apart, ih]

theorem apart_false (gs : List (List Block)) : apart false gs = separated gs := by
  have hrest (g : List Block) (gs : List (List Block)) :
      g ++ apart true gs = separated (g :: gs) := by
    induction gs generalizing g with
    | nil => rw [apart, List.append_nil, separated_singleton]
    | cons h gs ih =>
      rw [apart, separated_cons_cons, ← ih]
      simp
  cases gs with
  | nil => rw [apart, separated_nil]
  | cons g gs => exact hrest g gs

theorem commands_append (unit : String) (bs cs : List Block) :
    commands unit (bs ++ cs) = commands unit bs ++ commands unit cs := by
  induction bs with
  | nil => simp [commands]
  | cons b bs ih => simp [commands, ih]

namespace Session

variable (s : Session)

theorem run_append (xs ys : List Command) : s.run (xs ++ ys) = (s.run xs).run ys :=
  List.foldl_append

theorem writer_run (cs : List Command) : (s.run cs).writer = s.writer.run cs := by
  induction cs generalizing s with
  | nil => rfl
  | cons c cs ih => exact ih (s.step c)

theorem unit_run (cs : List Command) : (s.run cs).writer.unit = s.writer.unit := by
  induction cs generalizing s with
  | nil => rfl
  | cons c cs ih =>
    have hstep : (s.step c).writer.unit = s.writer.unit := by cases c <;> rfl
    exact (ih (s.step c)).trans hstep

theorem write_nil : s.write [] = s := by
  rw [write, commands]
  rfl

theorem write_append (bs cs : List Block) : s.write (bs ++ cs) = (s.write bs).write cs := by
  rw [write, write, write, unit_run, commands_append, run_append]

theorem step_line (t : String) : s.step (.line t) = s.write [.line t] := by
  simp [write, commands, Block.commands, run]

theorem step_blank : s.step .blank = s.write [.gap] := by
  simp [write, commands, Block.commands, run]

theorem write_comment (ls : List String) :
    s.write [.comment ls] = s.write ((commentLines s.writer.unit ls).map .line) := by
  have hlines (ss : List String) :
      commands s.writer.unit (ss.map .line) = ss.map Command.line := by
    induction ss with
    | nil => simp [commands]
    | cons t ss ih => simp [commands, Block.commands, ih]
  rw [write, write, hlines]
  simp [commands, Block.commands]

/-- What is written one level deeper, between a header and `end`, is a block. -/
theorem write_scope (header : String) (body : List Block) :
    ((((s.step (.line header)).step .indent).write body).step .outdent).step (.line "end") =
      s.write [.scope header body] := by
  simp [write, commands, Block.commands, run, step, Writer.step]

/-- What is written one level deeper, below a marker, is under that marker. -/
theorem write_under (v : Visibility) (body : List Block) :
    (((s.step (.line v.marker)).step .indent).write body).step .outdent =
      s.write [.under v body] := by
  simp [write, commands, Block.commands, run, step, Writer.step]

end Session

namespace Emitter

variable {α : Type} (s : Session)

theorem run_tell (c : Command) : (tell c).run s = pure ((), s.step c) := rfl

theorem run_line (t : String) : (tell (.line t)).run s = pure ((), s.write [.line t]) := by
  rw [run_tell, Session.step_line]

theorem run_next (started : Bool) :
    (next started).run s = pure (true, s.write (if started then [.gap] else [])) := by
  cases started with
  | false => simp [next, Session.write_nil]
  | true => simp [next, run_tell, Session.step_blank]

/-- A loop writes what its steps write. -/
theorem run_forIn {xs : List α} {body : α → PUnit → Emitter (ForInStep PUnit)}
    (blocks : α → List Block)
    (h : ∀ x s, (body x PUnit.unit).run s = pure (.yield PUnit.unit, s.write (blocks x))) :
    (forIn xs PUnit.unit body).run s = pure (PUnit.unit, s.write (xs.flatMap blocks)) := by
  induction xs generalizing s with
  | nil => simp [Session.write_nil]
  | cons x xs ih =>
    rw [List.forIn_cons, StateT.run_bind, h, pure_bind, List.flatMap_cons, Session.write_append]
    exact ih (s.write (blocks x))

theorem run_each {xs : List α} {e : α → Emitter Unit} {blocks : α → List Block}
    (h : ∀ x s, (e x).run s = pure ((), s.write (blocks x))) :
    (forIn xs PUnit.unit fun x _ => do e x; pure (.yield PUnit.unit)).run s =
      pure (PUnit.unit, s.write (xs.flatMap blocks)) := by
  refine run_forIn s blocks fun x s => ?_
  rw [StateT.run_bind, h, pure_bind]
  rfl

theorem run_lines (xs : List α) (text : α → String) :
    (forIn xs PUnit.unit fun x _ => do tell (.line (text x)); pure (.yield PUnit.unit)).run s =
      pure (PUnit.unit, s.write (xs.map fun x => .line (text x))) := by
  rw [run_each s fun x s => run_line s (text x), List.map_eq_flatMap]

/-- A loop whose steps set their groups apart sets all of them apart, whether or not something was
written before it. -/
theorem run_forIn_apart {xs : List α} {body : α → Bool → Emitter (ForInStep Bool)}
    (groups : α → List (List Block))
    (h : ∀ x started s, (body x started).run s =
      pure (.yield (started || !(groups x).isEmpty), s.write (apart started (groups x))))
    (started : Bool) : (forIn xs started body).run s =
      pure (started || !(xs.flatMap groups).isEmpty,
        s.write (apart started (xs.flatMap groups))) := by
  induction xs generalizing s started with
  | nil => simp [apart, Session.write_nil]
  | cons x xs ih =>
    have hstarted : (started || !(groups x ++ xs.flatMap groups).isEmpty) =
        (started || !(groups x).isEmpty || !(xs.flatMap groups).isEmpty) := by
      cases groups x <;> simp
    rw [List.forIn_cons, StateT.run_bind, h, pure_bind, List.flatMap_cons, apart_append,
      Session.write_append, hstarted]
    exact ih (s.write (apart started (groups x))) _

theorem run_method (header body : String) :
    (method header body).run s = pure ((), s.write [Source.method header body]) := by
  have hbody := s.write_scope header [.line body]
  rw [← Session.step_line] at hbody
  simp [method, run_tell, hbody, Source.method]

theorem run_documentation (o : Options) (text : String) :
    (documentation o text).run s = pure ((), s.write (Source.documentation o text)) := by
  unfold documentation Source.documentation
  match Text.trimmedLines text with
  | [] => simp [Session.write_nil]
  | [line] =>
    cases o.documentation with
    | false => simp [Session.write_nil]
    | true => simp [run_line, Session.write_comment, commentLines]
  | line :: line' :: lines =>
    cases o.documentation with
    | false => simp [Session.write_nil]
    | true =>
      let shown (t : String) : String := if t.isEmpty then "#" else "# " ++ s.writer.unit ++ t
      simp only [Bool.not_true, List.isEmpty_cons, Bool.or_false, Bool.false_eq_true, if_false,
        StateT.run_bind, StateT.run_get, pure_bind, if_true]
      rw [run_line, pure_bind, run_forIn _ fun t => [.line (shown t)], pure_bind,
        ← Session.write_append, ← List.map_eq_flatMap, Session.write_comment]
      · simp [commentLines, shown, Function.comp_def]
      · intro t s'
        by_cases ht : t = "" <;> simp [ht, run_line, shown]

theorem run_accessorLines (o : Options) (as : List Attribute) :
    (accessorLines o as).run s = pure ((), s.write (Source.accessorLines o as)) := by
  unfold accessorLines Source.accessorLines
  rw [StateT.run_bind, run_each s fun a s => run_documentation s o a.documentation, pure_bind]
  dsimp only
  -- each of the two lines is there or not, whatever it shows
  generalize (as.filter (·.isReadOnly)).isEmpty = noReader
  generalize (as.filter (!·.isReadOnly)).isEmpty = noAccessor
  cases noReader <;> cases noAccessor
  all_goals simp [run_line, ← Session.write_append]

theorem run_accessorMethods (o : Options) (as : List Attribute) :
    (accessorMethods o as).run s =
      pure ((), s.write (separated (as.flatMap (accessorGroups o)))) := by
  unfold accessorMethods
  simp only
  rw [StateT.run_bind, run_forIn_apart s (accessorGroups o), pure_bind, apart_false]
  · rfl
  · intro a started s
    cases ha : a.isReadOnly
    all_goals simp [run_next, run_documentation, run_method, accessorGroups, ha, apart,
      ← Session.write_append]

theorem run_accessors (o : Options) (as : List Attribute) :
    (accessors o as).run s = pure ((), s.write (Source.accessors o as)) := by
  unfold accessors Source.accessors
  split
  · exact run_accessorLines s o as
  · exact run_accessorMethods s o as

theorem run_sharedState (statics : List Attribute) :
    (sharedState statics).run s = pure ((), s.write (Source.sharedState statics)) := by
  unfold sharedState Source.sharedState
  rw [StateT.run_bind, run_forIn s constantBlocks, pure_bind, StateT.run_bind, run_lines, pure_bind,
    Session.write_append]
  · rfl
  · intro a s
    by_cases ha : a.access? = some .privateAccess <;>
      simp [ha, run_line, constantBlocks, ← Session.write_append]

theorem run_initializer (as : List Attribute) (held : List (String × String)) :
    (initializer as held).run s = pure ((), s.write [Source.initializer as held]) := by
  unfold initializer Source.initializer
  simp only [StateT.run_bind, run_tell, pure_bind]
  rw [run_lines, pure_bind, run_lines, pure_bind, ← Session.write_append]
  simp [Session.write_scope]

theorem run_stubs (o : Options) (ops : List Operation) :
    (stubs o ops).run s = pure ((), s.write (Source.stubs o ops)) := by
  unfold stubs Source.stubs
  simp only
  rw [StateT.run_bind, run_forIn_apart s fun op => [stub o op], pure_bind, apart_false,
    ← List.map_eq_flatMap]
  · rfl
  · intro op started s
    simp [run_next, run_documentation, run_method, stub, apart, ← Session.write_append]

theorem run_restricted (o : Options) (v : Visibility) (as : List Attribute) (ops : List Operation) :
    (restricted o v as ops).run s = pure ((), s.write [Source.restricted o v as ops]) := by
  unfold restricted Source.restricted
  rw [← Session.write_under, ← apart_false]
  cases as.isEmpty <;> cases ops.isEmpty
  all_goals simp [run_tell, run_next, run_accessors, run_stubs, apart, ← Session.write_append,
    Session.write_nil]

end Emitter
end ClassScribe.Source
