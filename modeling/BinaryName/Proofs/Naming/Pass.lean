import BinaryName.Proofs.Decl.Grammar
import BinaryName.Resolution

/-!
# One pass over a file

One pass over a file gives a name to everything in it.  The pass carries the name of the class
around and the next number, and each top-level class starts numbers of its own.
-/

namespace BinaryName

/-- A name and the rule that gives it. -/
structure Designation where
  name : String
  rule : NamingRule
  deriving DecidableEq, Repr

namespace Decl

mutual

/-- What names a function or lambda in code and all that is in it, and the next number. -/
def designateCode (owner : String) (next : Nat) : Decl → List Designation × Nat
  | .declare _ children =>
      let (below, after) := designateCodeAll owner (next + 1) children
      ({ name := owner ++ "$" ++ toString next, rule := .anonymous } :: below, after)
  | .foreign _ => ([], next)

/-- The same for code, one function or lambda after the other. -/
def designateCodeAll (owner : String) (next : Nat) : List Decl → List Designation × Nat
  | [] => ([], next)
  | decl :: rest =>
      let (first, between) := decl.designateCode owner next
      let (others, after) := designateCodeAll owner between rest
      (first ++ others, after)

end

mutual

/-- What names a member of a class and all that is in it, and the next number. -/
def designateMember (owner : String) (next : Nat) : Decl → List Designation × Nat
  | .declare head children =>
      if head.kind = .klass then
        let name := owner ++ "$" ++ head.name.getD ""
        let (below, after) := designateMembers name next children
        ({ name, rule := .nestedClass } :: below, after)
      else
        let (below, after) := designateCodeAll owner next children
        ({ name := owner, rule := .memberFunction } :: below, after)
  | .foreign _ => ([], next)

/-- The same for a class, one member after the other. -/
def designateMembers (owner : String) (next : Nat) : List Decl → List Designation × Nat
  | [] => ([], next)
  | decl :: rest =>
      let (first, between) := decl.designateMember owner next
      let (others, after) := designateMembers owner between rest
      (first ++ others, after)

end

/-- What names everything in a file or package with the given path.  The functions share a class and
its numbers, and each class starts its own numbers. -/
def designateTop (path facade : String) (next : Nat) : List Decl → List Designation
  | [] => []
  | .declare head children :: rest =>
      if head.kind = .klass then
        let name := path ++ head.name.getD ""
        { name, rule := .topLevelClass } :: (designateMembers name 1 children).1 ++
          designateTop path facade next rest
      else
        let (below, after) := designateCodeAll (path ++ facade) next children
        { name := path ++ facade, rule := .topLevelFunction } :: below ++
          designateTop path facade after rest
  | .foreign _ :: rest => designateTop path facade next rest

/-- The package that the declarations of a file are in, and its members. -/
def package? : List Decl → Option (Head × List Decl)
  | [.declare head members] => if head.kind = .package then some (head, members) else none
  | _ => none

/-- The number of declarations around the members of a file. -/
def outer : Decl → Nat
  | .declare _ children => if (package? children).isSome then 2 else 1
  | .foreign _ => 0

/-- The path of the package of a file. -/
def path : Decl → String
  | .declare _ children =>
      match package? children with
      | some (package, _) => packagePath (package.name.getD "")
      | none => ""
  | .foreign _ => ""

/-- The name of the class that holds the functions of a file. -/
def facade : Decl → String
  | .declare file _ => fileClass (file.name.getD "")
  | .foreign _ => ""

/-- The members of a file, or of its package. -/
def members : Decl → List Decl
  | .declare _ children =>
      match package? children with
      | some (_, members) => members
      | none => children
  | .foreign _ => []

/-- What names everything in a file but the file and its package, in source order. -/
def designations (decl : Decl) : List Designation :=
  designateTop decl.path decl.facade 1 decl.members

/-! ## Equations -/

theorem designateCode_declare (owner : String) (next : Nat) (head : Head) (children : List Decl) :
    (declare head children).designateCode owner next =
      ({ name := owner ++ "$" ++ toString next, rule := .anonymous } ::
          (designateCodeAll owner (next + 1) children).1,
        (designateCodeAll owner (next + 1) children).2) := rfl

theorem designateCodeAll_cons (owner : String) (next : Nat) (decl : Decl) (rest : List Decl) :
    designateCodeAll owner next (decl :: rest) =
      ((decl.designateCode owner next).1 ++
          (designateCodeAll owner (decl.designateCode owner next).2 rest).1,
        (designateCodeAll owner (decl.designateCode owner next).2 rest).2) := rfl

theorem designateMember_klass {head : Head} {name : String} (klass : head.kind = .klass)
    (name_eq : head.name = some name) (owner : String) (next : Nat) (children : List Decl) :
    (declare head children).designateMember owner next =
      ({ name := owner ++ "$" ++ name, rule := .nestedClass } ::
          (designateMembers (owner ++ "$" ++ name) next children).1,
        (designateMembers (owner ++ "$" ++ name) next children).2) := by
  rw [designateMember, if_pos klass, name_eq]
  rfl

theorem designateMember_function {head : Head} (function : head.kind = .function) (owner : String)
    (next : Nat) (children : List Decl) :
    (declare head children).designateMember owner next =
      ({ name := owner, rule := .memberFunction } :: (designateCodeAll owner next children).1,
        (designateCodeAll owner next children).2) := by
  rw [designateMember, if_neg (by simp [function])]

theorem designateMembers_cons (owner : String) (next : Nat) (decl : Decl) (rest : List Decl) :
    designateMembers owner next (decl :: rest) =
      ((decl.designateMember owner next).1 ++
          (designateMembers owner (decl.designateMember owner next).2 rest).1,
        (designateMembers owner (decl.designateMember owner next).2 rest).2) := rfl

theorem designateTop_klass {head : Head} {name : String} (klass : head.kind = .klass)
    (name_eq : head.name = some name) (path facade : String) (next : Nat)
    (children rest : List Decl) :
    designateTop path facade next (.declare head children :: rest) =
      { name := path ++ name, rule := .topLevelClass } ::
          (designateMembers (path ++ name) 1 children).1 ++
        designateTop path facade next rest := by
  rw [designateTop, if_pos klass, name_eq]
  rfl

theorem designateTop_function {head : Head} (function : head.kind = .function)
    (path facade : String)
    (next : Nat) (children rest : List Decl) :
    designateTop path facade next (.declare head children :: rest) =
      { name := path ++ facade, rule := .topLevelFunction } ::
          (designateCodeAll (path ++ facade) next children).1 ++
        designateTop path facade (designateCodeAll (path ++ facade) next children).2 rest := by
  rw [designateTop, if_neg (by simp [function])]

theorem package?_of_areMembers {members : List Decl} (sound : AreMembers members) :
    package? members = none := by
  rcases members with _ | ⟨nest, _ | ⟨other, rest⟩⟩
  · rfl
  · cases nest with
    | foreign sort => rfl
    | declare head children =>
        have kind : head.kind ≠ .package := by
          rcases sound.1.2 with ⟨klass, -⟩ | ⟨function, -⟩
          · simp [klass]
          · simp [function]
        rw [package?, if_neg kind]
  · cases nest <;> rfl

theorem outer_of_bare {file : Head} {members : List Decl} (sound : AreMembers members) :
    (declare file members).outer = 1 := by
  rw [outer, package?_of_areMembers sound]
  rfl

theorem outer_of_packaged {file package : Head} {members : List Decl}
    (isPackage : package.kind = .package) :
    (declare file [declare package members]).outer = 2 := by
  rw [outer, package?, if_pos isPackage]
  rfl

theorem members_of_bare {file : Head} {members : List Decl} (sound : AreMembers members) :
    (declare file members).members = members := by
  rw [Decl.members, package?_of_areMembers sound]

theorem members_of_packaged {file package : Head} {members : List Decl}
    (isPackage : package.kind = .package) :
    (declare file [declare package members]).members = members := by
  rw [Decl.members, package?, if_pos isPackage]

theorem designations_of_bare {file : Head} {members : List Decl} {name : String}
    (sound : AreMembers members) (name_eq : file.name = some name) :
    (declare file members).designations = designateTop "" (fileClass name) 1 members := by
  rw [designations, members_of_bare sound, path, package?_of_areMembers sound, facade, name_eq]
  rfl

theorem designations_of_packaged {file package : Head} {members : List Decl} {name path : String}
    (isPackage : package.kind = .package) (name_eq : file.name = some name)
    (path_eq : package.name = some path) :
    (declare file [declare package members]).designations =
      designateTop (packagePath path) (fileClass name) 1 members := by
  simp [designations, members_of_packaged isPackage, Decl.path, package?, isPackage, facade,
    name_eq, path_eq]

theorem Grammatical.areMembers {decl : Decl} (grammatical : decl.Grammatical) :
    AreMembers decl.members := by
  cases grammatical with
  | bare _ _ sound => rwa [members_of_bare sound]
  | packaged _ _ isPackage _ sound => rwa [members_of_packaged isPackage]

theorem Grammatical.count_eq {decl : Decl} (grammatical : decl.Grammatical) :
    decl.count = decl.outer + countAll decl.members := by
  cases grammatical with
  | bare _ _ sound _ =>
      rw [outer_of_bare sound, members_of_bare sound, count, Nat.add_comm]
  | packaged _ _ isPackage _ _ _ =>
      rw [outer_of_packaged isPackage, members_of_packaged isPackage, count, countAll, count,
        countAll]
      omega

/-! ## One designation for each declaration -/

mutual

theorem length_designateCode (owner : String) (next : Nat) :
    ∀ decl : Decl, decl.IsCode → (decl.designateCode owner next).1.length = decl.count
  | .declare head children, code => by
      rw [designateCode_declare, count, List.length_cons,
        length_designateCodeAll owner (next + 1) children code.2]
  | .foreign _, code => code.elim

theorem length_designateCodeAll (owner : String) (next : Nat) :
    ∀ decls : List Decl, AreCode decls →
      (designateCodeAll owner next decls).1.length = countAll decls
  | [], _ => rfl
  | decl :: rest, code => by
      rw [designateCodeAll_cons, countAll, List.length_append,
        length_designateCode owner next decl code.1, length_designateCodeAll owner _ rest code.2]

end

mutual

theorem length_designateMember (owner : String) (next : Nat) :
    ∀ decl : Decl, decl.IsMember → (decl.designateMember owner next).1.length = decl.count
  | .declare head children, member => by
      rcases member.2 with ⟨klass, members⟩ | ⟨function, code⟩
      · obtain ⟨name, name_eq⟩ := Option.ne_none_iff_exists'.mp member.1
        rw [designateMember_klass klass name_eq, count, List.length_cons,
          length_designateMembers _ next children members]
      · rw [designateMember_function function, count, List.length_cons,
          length_designateCodeAll owner next children code]
  | .foreign _, member => member.elim

theorem length_designateMembers (owner : String) (next : Nat) :
    ∀ decls : List Decl, AreMembers decls →
      (designateMembers owner next decls).1.length = countAll decls
  | [], _ => rfl
  | decl :: rest, members => by
      rw [designateMembers_cons, countAll, List.length_append,
        length_designateMember owner next decl members.1,
        length_designateMembers owner _ rest members.2]

end

theorem length_designateTop (path facade : String) (next : Nat) {decls : List Decl}
    (sound : AreMembers decls) : (designateTop path facade next decls).length = countAll decls := by
  induction decls generalizing next with
  | nil => rfl
  | cons decl rest ih =>
      cases decl with
      | foreign sort => exact sound.1.elim
      | declare head children =>
          rw [countAll, count]
          rcases sound.1.2 with ⟨klass, members⟩ | ⟨function, code⟩
          · obtain ⟨name, name_eq⟩ := Option.ne_none_iff_exists'.mp sound.1.1
            rw [designateTop_klass klass name_eq, List.length_append, List.length_cons,
              ih next sound.2, length_designateMembers _ 1 children members]
          · rw [designateTop_function function, List.length_append, List.length_cons, ih _ sound.2,
              length_designateCodeAll _ next children code]

end Decl

end BinaryName
