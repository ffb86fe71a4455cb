import BinaryName.Text.Quoted

/-!
# Faults

Two families: a `TreeFault` says why no tree can be made, a `Fault` says why a walk or a naming
breaks off.  A fault holds causes; `message` is the only place that words them.  The captions in a
fault are taken when it is raised, so a node without a title replaces the fault that would have
mentioned it.
-/

namespace BinaryName

/-- The number by which a node refers to its record; negative handles count from the end. -/
abbrev Handle := Int

/-- How a node is mentioned in messages. -/
structure Caption where
  /-- The title of the node's kind. -/
  title : String
  /-- The declared name, if there is one. -/
  name : Option String
  deriving DecidableEq, Repr

/-- The caption as one text. -/
def Caption.text (caption : Caption) : String :=
  caption.title ++ " " ++ caption.name.getD "None"

/-- What an entry is that is no declaration. -/
structure ValueSort where
  /-- The word for the type of the value. -/
  word : String
  deriving DecidableEq, Repr

namespace ValueSort

/-- A text. -/
def text : ValueSort := ⟨"str"⟩

/-- A whole number. -/
def integer : ValueSort := ⟨"int"⟩

/-- A number with a fraction. -/
def fraction : ValueSort := ⟨"float"⟩

/-- A truth value. -/
def truth : ValueSort := ⟨"bool"⟩

/-- No value at all. -/
def nothing : ValueSort := ⟨"NoneType"⟩

/-- A table of values. -/
def table : ValueSort := ⟨"dict"⟩

end ValueSort

/-- Why no tree can be made. -/
inductive TreeFault where
  /-- A tree has at least one record. -/
  | noRecords
  /-- The first record is the root. -/
  | rootHasParent
  /-- An entry is no declaration. -/
  | notADeclaration (sort : ValueSort)
  /-- Only lambdas may go without a name. -/
  | nameless (title : String)
  /-- A declaration without a name is of a kind without a title. -/
  | untitledKind
  /-- A label marks one declaration only. -/
  | duplicateLabel (label : String)
  deriving DecidableEq, Repr

/-- The wording for a kind that has no title. -/
def untitledMessage : String := "'str' object has no attribute 'name'"

/-- The wording of a tree fault. -/
def TreeFault.message : TreeFault → String
  | .noRecords => "SyntaxTree requires at least one record"
  | .rootHasParent => "record 0 must be the root (parent=None)"
  | .notADeclaration sort => "Unsupported declaration type: <class '" ++ sort.word ++ "'>"
  | .nameless title => title ++ " declaration requires a name"
  | .untitledKind => untitledMessage
  | .duplicateLabel label => "duplicate label " ++ Text.quoted label

/-- Why a node is not of the right kind for a naming rule. -/
inductive Misfit where
  /-- Files and packages have no class of their own. -/
  | noClass (subject : Caption)
  /-- Only lambdas and local functions are numbered. -/
  | notAnonymous (subject : Caption)
  /-- No rule knows the kind. -/
  | unknownKind (tag : String)
  deriving DecidableEq, Repr

/-- The wording of a misfit. -/
def Misfit.message : Misfit → String
  | .noClass subject => subject.text ++ " does not compile to a JVM class"
  | .notAnonymous subject => subject.text ++ " does not compile to an anonymous class"
  | .unknownKind tag => "unknown node type " ++ Text.quoted tag

/-- What a naming rule misses in the surroundings of a node. -/
inductive Defect where
  /-- A declaration stands alone. -/
  | noParent (subject : Caption)
  /-- The outermost class of a chain is not in a file or package. -/
  | insideCode (outermost container : Caption)
  /-- A top-level function has no file. -/
  | notInFile (subject : Caption)
  /-- A function is neither top-level, nor local, nor a member. -/
  | noRole (subject parent : Caption)
  /-- Nothing around an anonymous class has a name to extend. -/
  | noBase (subject : Caption)
  /-- No top-level declaration holds an anonymous class. -/
  | noTopLevel (subject : Caption)
  /-- The top-level function that holds an anonymous class has no file. -/
  | topLevelNotInFile (topLevel : Caption)
  /-- The walk that numbers the scope of an anonymous class does not meet it. -/
  | unreachable (subject : Caption)
  /-- A part of the name is missing. -/
  | nameless (title : String)
  deriving DecidableEq, Repr

/-- The wording of a defect. -/
def Defect.message : Defect → String
  | .noParent subject => subject.text ++ " has no parent"
  | .insideCode outermost container =>
      outermost.text ++ " is declared inside executable code (" ++ container.text ++ ")"
  | .notInFile subject => subject.text ++ " is not inside a FILE"
  | .noRole subject parent =>
      subject.text ++ " has no enclosing class, function or file (" ++ parent.text ++ ")"
  | .noBase subject => subject.text ++ " has no enclosing class or non-local function"
  | .noTopLevel subject => subject.text ++ " has no enclosing top-level class or function"
  | .topLevelNotInFile topLevel => topLevel.text ++ " has no enclosing FILE"
  | .unreachable subject => subject.text ++ " is not reachable from its numbering scope"
  | .nameless title => title ++ " node has no name"

/-- Why a walk or a naming breaks off. -/
inductive Fault where
  /-- A handle has no record. -/
  | outOfRange
  /-- A handle is too large for a position. -/
  | oversized
  /-- A message would mention a node whose kind has no title. -/
  | untitledKind
  /-- The records close a cycle, so the walk has no end. -/
  | endless
  /-- A chain of classes has no outermost one. -/
  | emptyChain
  /-- The cache holds nothing at all. -/
  | noRoom
  /-- The node has the wrong kind. -/
  | misfit (node : Handle) (reason : Misfit)
  /-- The surroundings of the node are not those of a program. -/
  | malformed (node : Handle) (reason : Defect)
  deriving DecidableEq, Repr

namespace Fault

/-- The wording of a fault. -/
def message : Fault → String
  | .outOfRange => "tuple index out of range"
  | .oversized => "cannot fit 'int' into an index-sized integer"
  | .untitledKind => untitledMessage
  | .endless => "the records form a cycle"
  | .emptyChain => "list index out of range"
  | .noRoom => "value too large"
  | .misfit _ reason => reason.message
  | .malformed _ reason => reason.message

/-- The node that a fault is about. -/
def node? : Fault → Option Handle
  | .misfit node _ | .malformed node _ => some node
  | _ => none

end Fault

end BinaryName
