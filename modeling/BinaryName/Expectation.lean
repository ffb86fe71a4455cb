import BinaryName.Resolution

/-!
# Expectations

A check compares the binary class name of a node with the name that is expected of it.
-/

namespace BinaryName

/-- A node whose name is not the expected one. -/
structure Mismatch where
  /-- How the node is mentioned. -/
  subject : Caption
  /-- The expected name. -/
  expected : String
  /-- The resolution of the node. -/
  actual : Resolution
  deriving DecidableEq, Repr

/-- The wording of a mismatch, on five lines. -/
def Mismatch.message (mismatch : Mismatch) : String :=
  String.intercalate "\n"
    ["JVM class name mismatch for " ++ mismatch.subject.text ++ ":",
      "  expected: " ++ mismatch.expected,
      "  actual:   " ++ mismatch.actual.name,
      "  naming_case: " ++ mismatch.actual.rule.word,
      "  anonymous_index: " ++ (mismatch.actual.index.map toString).getD "None"]

/-- Compare the name of a node with the expected one. -/
def ScopeTree.check (tree : ScopeTree) (node : Handle) (expected : String) :
    Inquiry (Option Mismatch) := do
  let actual ← tree.resolve node
  if actual.name = expected then
    pure none
  else
    let subject ← tree.caption node
    pure (some { subject, expected, actual })

end BinaryName
