/-!
# Kinds of declarations

A node of a scope tree has one of five kinds.  A plain tag may stand where a kind is expected.  It
is none of the five kinds and has no title, even if it is spelled like one of them.  Most questions
are about the kind itself.  Whether a node is a container, and which rule is to name it, depends on
how its kind is spelled.
-/

namespace BinaryName

/-- What a node of a scope tree declares. -/
inductive Kind where
  /-- A compilation unit. -/
  | file
  /-- The package that holds the declarations of a file. -/
  | package
  /-- A class declaration. -/
  | klass
  /-- A named function. -/
  | function
  /-- A function literal. -/
  | lambda
  /-- A plain tag, which is none of the five kinds however it is spelled. -/
  | unknown (tag : String)
  deriving DecidableEq, Repr

namespace Kind

/-- The kind that a tag stands for. -/
def ofTag : String → Kind
  | "file" => .file
  | "package" => .package
  | "class" => .klass
  | "function" => .function
  | "lambda" => .lambda
  | tag => .unknown tag

/-- The tag under which a kind is written in a record. -/
def tag : Kind → String
  | .file => "file"
  | .package => "package"
  | .klass => "class"
  | .function => "function"
  | .lambda => "lambda"
  | .unknown tag => tag

/-- The kind as its tag spells it. -/
def spelled (kind : Kind) : Kind := ofTag kind.tag

/-- The title of a kind in messages; a plain tag has none. -/
def title? : Kind → Option String
  | .file => some "FILE"
  | .package => some "PACKAGE"
  | .klass => some "CLASS"
  | .function => some "FUNCTION"
  | .lambda => some "LAMBDA"
  | .unknown _ => none

/-- Files and packages hold top-level declarations, and so does what is spelled like them. -/
def isContainer : Kind → Bool
  | .file | .package => true
  | .klass | .function | .lambda => false
  | .unknown tag => tag == "file" || tag == "package"

@[simp] theorem tag_ofTag (tag : String) : (ofTag tag).tag = tag := by
  unfold ofTag
  split <;> rfl

/-- Two kinds are spelled alike exactly if they have one tag. -/
theorem spelled_eq_iff {kind other : Kind} :
    kind.spelled = other.spelled ↔ kind.tag = other.tag := by
  constructor
  · intro same
    rw [← tag_ofTag kind.tag, ← tag_ofTag other.tag]
    exact congrArg tag same
  · exact congrArg ofTag

theorem isContainer_iff_tag {kind : Kind} :
    kind.isContainer = true ↔ kind.tag = Kind.file.tag ∨ kind.tag = Kind.package.tag := by
  cases kind with
  | file | package | klass | function | lambda => decide
  | unknown text => simp [isContainer, tag]

end Kind

end BinaryName
