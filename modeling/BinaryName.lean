import BinaryName.Decl.Layout
import BinaryName.Decl.Outline
import BinaryName.Session
import BinaryName.Proofs.Cache.Laws
import BinaryName.Proofs.Cache.Transparency
import BinaryName.Proofs.Decl.Layout
import BinaryName.Proofs.Decl.Planted
import BinaryName.Proofs.Decl.Grammar
import BinaryName.Proofs.Tree.Lineage
import BinaryName.Proofs.Tree.Ancestors
import BinaryName.Proofs.Tree.Descent
import BinaryName.Proofs.Tree.Scope
import BinaryName.Proofs.Tree.Expansion
import BinaryName.Proofs.Text.Segments
import BinaryName.Proofs.Naming.Evaluation
import BinaryName.Proofs.Naming.Rules
import BinaryName.Proofs.Naming.Nameable
import BinaryName.Proofs.Naming.Domain
import BinaryName.Proofs.Naming.Pass
import BinaryName.Proofs.Naming.Surroundings
import BinaryName.Proofs.Naming.OnePass
import BinaryName.Proofs.Naming.Collision
import BinaryName.Proofs.Cache.Recency
import BinaryName.Proofs.Decl.Unfolding
import BinaryName.Proofs.Decl.Encoding
import BinaryName.Proofs.Naming.Failure
import BinaryName.Proofs.Naming.Independence
import BinaryName.Proofs.Tree.Closed
import BinaryName.Proofs.Tree.Revisits
import BinaryName.Proofs.Naming.Composition
import BinaryName.Proofs.Naming.NodeByNode
import BinaryName.Proofs.Decl.Insertion
import BinaryName.Proofs.Tree.Embedding
import BinaryName.Proofs.Tree.Insertion
import BinaryName.Proofs.Tree.Nesting
import BinaryName.Proofs.Naming.Counting
import BinaryName.Proofs.Naming.Transport
import BinaryName.Proofs.Naming.Stability
import BinaryName.Proofs.Tree.Unrolling
import BinaryName.Proofs.Tree.Duality
import BinaryName.Proofs.Tree.Roles
import BinaryName.Proofs.Naming.Partition
import BinaryName.Proofs.Decl.FirstProblem
import BinaryName.Proofs.Decl.Marks
import BinaryName.Proofs.Naming.Activation
import BinaryName.Proofs.Cache.Misses
import BinaryName.Proofs.Cache.Roomless
import BinaryName.Proofs.Cache.Gaps
import BinaryName.Proofs.Naming.Walks
