import Mathlib.Data.List.Forall2
import BinaryName.Proofs.Cache.Transparency
import BinaryName.Proofs.Naming.Surroundings

/-!
# Names in one pass

The names of a grammatical file are those of the pass.  The pass and the numbering of a scope go
over the same nodes in the same order, so the next number of the pass is one more than the number of
nodes that the numbering has counted before.
-/

namespace BinaryName

theorem exists_related_of_mem {α β : Type} {related : α → β → Prop} {left : List α} {right : List β}
    (pairs : List.Forall₂ related left right) {one : α} (member : one ∈ left) :
    ∃ other ∈ right, related one other := by
  induction pairs with
  | nil => simp at member
  | @cons first other _ _ here _ ih =>
      rcases List.mem_cons.mp member with rfl | later
      · exact ⟨other, List.mem_cons_self, here⟩
      · obtain ⟨other, other_member, there⟩ := ih later
        exact ⟨other, List.mem_cons_of_mem _ other_member, there⟩

namespace Decl

open ScopeTree

variable {tree : ScopeTree} {root : Nat}

/-- What the numbering of the scope of a root counts in a nest. -/
def counted (tree : ScopeTree) (root start : Nat) (nests : List Decl) : List Handle :=
  (keptAll (tree.passesBy root) start nests).filter tree.numbers

theorem counted_cons (tree : ScopeTree) (root start : Nat) (nest : Decl) (rest : List Decl) :
    counted tree root start (nest :: rest) =
      counted tree root start [nest] ++ counted tree root (start + nest.count) rest := by
  simp [counted, keptAll]

theorem counted_skipped {start : Nat} (skipped : tree.passesBy root start = true) (nest : Decl) :
    counted tree root start [nest] = [] := by
  simp [counted, keptAll, skipped]

theorem counted_declare {start : Nat} (unskipped : tree.passesBy root start = false) (head : Head)
    (children : List Decl) :
    counted tree root start [.declare head children] =
      [(start : Int)].filter tree.numbers ++ counted tree root (start + 1) children := by
  simp only [counted, keptAll, kept, unskipped, Bool.false_eq_true, if_false, List.append_nil]
  rw [← List.filter_append, List.singleton_append]

/-- The numbering of the scope of a root, in which each node is counted once. -/
structure Lists (tree : ScopeTree) (root : Nat) (listed : List Handle) : Prop where
  numbering_eq : tree.numbering (root : Int) = .ok (.ofList listed)
  distinct : listed.Nodup

theorem Lists.first {before one two after : List Handle}
    (lists : Lists tree root (before ++ (one ++ two) ++ after)) :
    Lists tree root (before ++ one ++ (two ++ after)) := by
  simpa using lists

theorem Lists.rest {before one two after : List Handle}
    (lists : Lists tree root (before ++ (one ++ two) ++ after)) :
    Lists tree root ((before ++ one) ++ two ++ after) := by
  simpa using lists

theorem Lists.new {node : Handle} {before after : List Handle}
    (lists : Lists tree root (before ++ node :: after)) : node ∉ before := by
  intro member
  have apart := (List.nodup_append.mp lists.distinct).2.2
  exact apart node member node List.mem_cons_self rfl

mutual

/-- The pass names what is in a nest of code, and takes one number for each node it counts. -/
theorem designates_code (ordered : tree.Ordered) {parent start : Nat} {owner : String}
    (around : tree.AroundCode parent root owner) {before after : List Handle} :
    ∀ nest : Decl, nest.IsCode → nest.Planted tree (some parent) start →
      Lists tree root (before ++ counted tree root start [nest] ++ after) →
      List.Forall₂ tree.Designates (handlesFrom start nest.count)
          (nest.designateCode owner (before.length + 1)).1 ∧
        (nest.designateCode owner (before.length + 1)).2 =
          (before ++ counted tree root start [nest]).length + 1
  | .declare head children, code, planted, lists => by
      have inside := planted.lt_size
      have parent_eq := planted.parent_eq
      have line := planted.lineage_eq ordered
      have kind : head.kind = .function ∨ head.kind = .lambda := code.1.imp And.left id
      obtain ⟨numbers, not_top, -⟩ := lineage_of_code kind around.code around.inside
      rw [← line] at numbers not_top
      have unskipped := passesBy_of_not_topLevel root not_top
      have counted_eq : counted tree root start [.declare head children] =
          (start : Int) :: counted tree root (start + 1) children := by
        rw [counted_declare unskipped]
        simp [ScopeTree.numbers, numbers]
      rw [counted_eq] at lists ⊢
      have lists_here : Lists tree root (before ++ (start : Int) ::
          (counted tree root (start + 1) children ++ after)) := by simpa using lists
      have lists_below : Lists tree root ((before ++ [(start : Int)]) ++
          counted tree root (start + 1) children ++ after) := by simpa using lists
      have here : tree.Designates start
          { name := owner ++ "$" ++ toString (before.length + 1), rule := .anonymous } :=
        around.designates_child ordered inside parent_eq kind line lists_here.numbering_eq
          lists_here.new
      obtain ⟨below, last⟩ := designates_codeAll ordered
        (around.child ordered inside parent_eq kind line) children code.2 planted.below lists_below
      rw [List.length_append, List.length_singleton] at below last
      rw [designateCode_declare, count, handlesFrom_succ]
      refine ⟨.cons here below, last.trans ?_⟩
      simp
  | .foreign _, code, _, _ => code.elim

theorem designates_codeAll (ordered : tree.Ordered) {parent start : Nat} {owner : String}
    (around : tree.AroundCode parent root owner) {before after : List Handle} :
    ∀ nests : List Decl, AreCode nests → PlantedAll tree parent start nests →
      Lists tree root (before ++ counted tree root start nests ++ after) →
      List.Forall₂ tree.Designates (handlesFrom start (countAll nests))
          (designateCodeAll owner (before.length + 1) nests).1 ∧
        (designateCodeAll owner (before.length + 1) nests).2 =
          (before ++ counted tree root start nests).length + 1
  | [], _, _, _ => by simp [designateCodeAll, countAll, handlesFrom_zero, counted, keptAll]
  | nest :: rest, code, planted, lists => by
      rw [counted_cons] at lists ⊢
      obtain ⟨first, between⟩ :=
        designates_code ordered around nest code.1 planted.first lists.first
      obtain ⟨others, last⟩ := designates_codeAll ordered around rest code.2 planted.rest lists.rest
      rw [designateCodeAll_cons, countAll, handlesFrom_add, between]
      refine ⟨List.rel_append first others, last.trans ?_⟩
      rw [List.append_assoc]

end

mutual

/-- The pass names what is in a member of a class, and takes one number for each node it counts. -/
theorem designates_member (ordered : tree.Ordered) {parent start : Nat} {owner : String}
    (around : tree.AroundMembers parent root owner) (parent_inside : parent < tree.size)
    {before after : List Handle} :
    ∀ nest : Decl, nest.IsMember → nest.Planted tree (some parent) start →
      Lists tree root (before ++ counted tree root start [nest] ++ after) →
      List.Forall₂ tree.Designates (handlesFrom start nest.count)
          (nest.designateMember owner (before.length + 1)).1 ∧
        (nest.designateMember owner (before.length + 1)).2 =
          (before ++ counted tree root start [nest]).length + 1
  | .declare head children, sound, planted, lists => by
      have inside := planted.lt_size
      have parent_eq := planted.parent_eq
      have line := planted.lineage_eq ordered
      have kind : head.kind = .klass ∨ head.kind = .function := sound.2.imp And.left And.left
      obtain ⟨numbers, not_top, -⟩ := lineage_of_member kind around.klass around.outside
      rw [← line] at numbers not_top
      have unskipped := passesBy_of_not_topLevel root not_top
      have counted_eq : counted tree root start [.declare head children] =
          counted tree root (start + 1) children := by
        rw [counted_declare unskipped]
        simp [ScopeTree.numbers, numbers]
      rw [counted_eq] at lists ⊢
      rw [count, handlesFrom_succ]
      rcases sound.2 with ⟨klass, members⟩ | ⟨function, code⟩
      · obtain ⟨name, name_eq⟩ := Option.ne_none_iff_exists'.mp sound.1
        obtain ⟨here, around_below⟩ :=
          around.klass_child ordered inside parent_eq parent_inside (by rw [line, klass])
            (by rw [planted.name_eq, name_eq])
        obtain ⟨below, last⟩ :=
          designates_members ordered around_below inside children members planted.below lists
        rw [designateMember_klass klass name_eq]
        exact ⟨.cons here below, last⟩
      · obtain ⟨here, around_below⟩ :=
          around.function_child ordered inside parent_eq (by rw [line, function])
        obtain ⟨below, last⟩ :=
          designates_codeAll ordered around_below children code planted.below lists
        rw [designateMember_function function]
        exact ⟨.cons here below, last⟩
  | .foreign _, sound, _, _ => sound.elim

theorem designates_members (ordered : tree.Ordered) {parent start : Nat} {owner : String}
    (around : tree.AroundMembers parent root owner) (parent_inside : parent < tree.size)
    {before after : List Handle} :
    ∀ nests : List Decl, AreMembers nests → PlantedAll tree parent start nests →
      Lists tree root (before ++ counted tree root start nests ++ after) →
      List.Forall₂ tree.Designates (handlesFrom start (countAll nests))
          (designateMembers owner (before.length + 1) nests).1 ∧
        (designateMembers owner (before.length + 1) nests).2 =
          (before ++ counted tree root start nests).length + 1
  | [], _, _, _ => by simp [designateMembers, countAll, handlesFrom_zero, counted, keptAll]
  | nest :: rest, sound, planted, lists => by
      rw [counted_cons] at lists ⊢
      obtain ⟨first, between⟩ :=
        designates_member ordered around parent_inside nest sound.1 planted.first lists.first
      obtain ⟨others, last⟩ :=
        designates_members ordered around parent_inside rest sound.2 planted.rest lists.rest
      rw [designateMembers_cons, countAll, handlesFrom_add, between]
      refine ⟨List.rel_append first others, last.trans ?_⟩
      rw [List.append_assoc]

end

/-- A class or file counts what is below it. -/
theorem Fills.lists_below {whole : Decl} (fills : whole.Fills tree) {above : Option Nat}
    {start : Nat} {head : Head} {children : List Decl}
    (planted : (declare head children).Planted tree above start)
    (within : start + (declare head children).count ≤ tree.size)
    (not_counted : tree.numbers start = false) :
    Lists tree start (counted tree start (start + 1) children) := by
  have kept_eq : ((declare head children).kept (tree.passesBy start) start).filter tree.numbers =
      counted tree start (start + 1) children := by
    rw [kept, List.filter_cons, not_counted]
    rfl
  constructor
  · rw [fills.numbering_eq planted within, kept_eq]
  · rw [← kept_eq]
    exact (nodup_kept _ _ _).filter _

/-- The pass names what is in a file or package. -/
theorem designates_top {whole : Decl} (fills : whole.Fills tree) {parent start : Nat}
    {path facade : String} (around : tree.AroundTop parent root path facade)
    (parent_inside : parent < tree.size) {before after : List Handle} {nests : List Decl}
    (sound : AreMembers nests) (planted : PlantedAll tree parent start nests)
    (within : start + countAll nests ≤ tree.size)
    (lists : Lists tree root (before ++ counted tree root start nests ++ after)) :
    List.Forall₂ tree.Designates (handlesFrom start (countAll nests))
      (designateTop path facade (before.length + 1) nests) := by
  have ordered := fills.ordered
  induction nests generalizing start before with
  | nil => simp [designateTop, countAll, handlesFrom_zero]
  | cons nest rest ih =>
      cases nest with
      | foreign sort => exact sound.1.elim
      | declare head children =>
          have inside := planted.first.lt_size
          have parent_eq := planted.first.parent_eq
          have line := planted.first.lineage_eq ordered
          have count_eq : (declare head children).count = countAll children + 1 := by rw [count]
          rw [countAll] at within
          rw [counted_cons] at lists
          rw [countAll, handlesFrom_add, count_eq, handlesFrom_succ, ← count_eq]
          rcases sound.1.2 with ⟨klass, members⟩ | ⟨function, code⟩
          · obtain ⟨name, name_eq⟩ := Option.ne_none_iff_exists'.mp sound.1.1
            obtain ⟨here, around_below⟩ :=
              around.klass_child ordered inside parent_eq parent_inside (by rw [line, klass])
                (by rw [planted.first.name_eq, name_eq])
            have not_counted : tree.numbers start = false := by
              simp [ScopeTree.numbers, line, klass, Lineage.isAnonymous, Role.fits]
            have skipped : tree.passesBy root start = true := by
              simp [passesBy, around.root_file, line, klass, Role.fits, around.container]
            have lists_below : Lists tree start
                ([] ++ counted tree start (start + 1) children ++ []) := by
              simpa using fills.lists_below planted.first (by omega) not_counted
            rw [counted_skipped skipped, List.nil_append] at lists
            rw [designateTop_klass klass name_eq]
            have below := (designates_members ordered around_below inside children members
              planted.first.below lists_below).1
            exact List.rel_append (.cons here below)
              (ih sound.2 planted.rest (by omega) lists)
          · obtain ⟨here, around_below⟩ :=
              around.function_child ordered inside parent_eq (by rw [line, function])
            have not_counted : tree.numbers start = false := by
              simp [ScopeTree.numbers, line, function, Lineage.isAnonymous, Role.fits,
                around.outside]
            have unskipped : tree.passesBy root start = false := by
              simp [passesBy, line, function, Role.fits]
            have counted_eq : counted tree root start [.declare head children] =
                counted tree root (start + 1) children := by
              rw [counted_declare unskipped]
              simp [not_counted]
            rw [counted_eq] at lists
            obtain ⟨below, last⟩ :=
              designates_codeAll ordered around_below children code planted.first.below lists.first
            rw [designateTop_function function, last]
            exact List.rel_append (.cons here below) (ih sound.2 planted.rest (by omega) lists.rest)

/-! ## Files -/

theorem Fills.nearestFrom_root {file : Head} {children : List Decl}
    (fills : (declare file children).Fills tree) (isFile : file.kind = .file) (wanted : Kind) :
    tree.nearestFrom (tree.hasKind wanted) ((0 : Nat) : Int) =
      .ok (if wanted = .file then some ((0 : Nat) : Int) else none) := by
  have ordered := fills.ordered
  have inside := fills.planted.lt_size
  have judges := judges_hasKind ordered wanted
  have line := fills.lineage_root
  rw [isFile] at line
  by_cases same : wanted = .file
  · rw [if_pos same, judges.nearestFrom_of_passes ordered inside (by rw [line, same]; rfl)]
  · have differs : ((tree.lineage (0 : Nat)).head? == some wanted) = false := by
      rw [line, List.head?_cons]
      simpa using fun equal : Kind.file = wanted => same equal.symm
    rw [if_neg same, judges.nearestFrom_of_fails ordered inside differs,
      nearestAbove_of_root _ fills.planted.parent_eq]

theorem not_counted_of_container {node : Handle} {kind : Kind} {above : List Kind}
    (line : tree.lineage node = kind :: above) (container : kind.isContainer = true) :
    tree.numbers node = false ∧ ∀ root, tree.passesBy root node = false := by
  rw [numbers, line]
  constructor
  · cases kind <;> simp [Kind.isContainer] at container <;>
      simp [Lineage.isAnonymous, Role.fits]
  · intro root
    rw [passesBy, line]
    cases kind <;> simp [Kind.isContainer] at container <;> simp [Role.fits]

theorem packageAround_eq {node : Handle} {package : Handle} {name : String}
    (nearest_eq : tree.nearestAbove (tree.hasKind .package) node = .ok (some package))
    (name_eq : tree.name package = .ok (some name)) :
    tree.packageAround node = .ok (packagePath name) := by
  rw [packageAround, nearest_eq]
  simp [bind, Except.bind, properName_eq name_eq, Functor.map, Except.map]

theorem fileClassAround_eq {node : Handle} {file : Handle} {name : String}
    (nearest_eq : tree.nearestAbove (tree.hasKind .file) node = .ok (some file))
    (name_eq : tree.name file = .ok (some name)) :
    tree.fileClassAround node = .ok (fileClass name) := by
  rw [fileClassAround, nearest_eq]
  simp [bind, Except.bind, properName_eq name_eq, Functor.map, Except.map]

theorem Fills.aroundTop_bare {file : Head} {members : List Decl}
    (fills : (declare file members).Fills tree) (isFile : file.kind = .file) {name : String}
    (name_eq : file.name = some name) : tree.AroundTop 0 0 "" (fileClass name) := by
  have line := fills.lineage_root
  rw [isFile] at line
  have file_eq := fills.nearestFrom_root isFile .file
  have root_name := fills.planted.name_eq
  rw [name_eq] at root_name
  refine ⟨by rw [line]; rfl, by rw [line]; decide, by rw [line]; rfl, ?_, ?_, file_eq⟩
  · intro node inside parent_eq
    rw [packageAround, nearestAbove_of_parent _ parent_eq, fills.nearestFrom_root isFile]
    rfl
  · intro node inside parent_eq
    exact fileClassAround_eq ((nearestAbove_of_parent _ parent_eq).trans file_eq) root_name

theorem Fills.aroundTop_packaged {file package : Head} {members : List Decl}
    (fills : (declare file [.declare package members]).Fills tree) (isFile : file.kind = .file)
    (isPackage : package.kind = .package) {name path : String} (name_eq : file.name = some name)
    (path_eq : package.name = some path) :
    tree.AroundTop 1 0 (packagePath path) (fileClass name) := by
  have ordered := fills.ordered
  have planted := fills.planted.below.first
  have root_line := fills.lineage_root
  rw [isFile] at root_line
  have line : tree.lineage (1 : Nat) = [.package, .file] := by
    rw [← isPackage, ← root_line]
    exact planted.lineage_eq ordered
  have root_name := fills.planted.name_eq
  have package_name := planted.name_eq
  rw [name_eq] at root_name
  rw [path_eq] at package_name
  have inside : 1 < tree.size := planted.lt_size
  have package_eq : tree.nearestFrom (tree.hasKind .package) ((1 : Nat) : Int) =
      .ok (some ((1 : Nat) : Int)) :=
    (judges_hasKind ordered .package).nearestFrom_of_passes ordered inside (by rw [line]; rfl)
  have file_eq : tree.nearestFrom (tree.hasKind .file) ((1 : Nat) : Int) =
      .ok (some ((0 : Nat) : Int)) := by
    rw [(judges_hasKind ordered .file).nearestFrom_of_fails ordered inside (by rw [line]; rfl),
      nearestAbove_of_parent _ planted.parent_eq]
    exact fills.nearestFrom_root isFile .file
  refine ⟨by rw [line]; rfl, by rw [line]; decide, by rw [root_line]; rfl, ?_, ?_, file_eq⟩
  · intro node _ parent_eq
    exact packageAround_eq ((nearestAbove_of_parent _ parent_eq).trans package_eq) package_name
  · intro node _ parent_eq
    exact fileClassAround_eq ((nearestAbove_of_parent _ parent_eq).trans file_eq) root_name

/-- The pass names everything in a file. -/
theorem Fills.designates_file {decl : Decl} (fills : decl.Fills tree)
    (grammatical : decl.Grammatical) :
    List.Forall₂ tree.Designates (handlesFrom decl.outer (decl.count - decl.outer))
      decl.designations := by
  have size_eq := fills.size_eq
  cases grammatical with
  | @bare file members isFile named sound _ =>
      obtain ⟨name, name_eq⟩ := Option.ne_none_iff_exists'.mp named
      have not_counted : tree.numbers (0 : Nat) = false :=
        (not_counted_of_container fills.lineage_root (by rw [isFile]; rfl)).1
      have lists : Lists tree 0 ([] ++ counted tree 0 1 members ++ []) := by
        simpa using fills.lists_below fills.planted (by omega) not_counted
      rw [count] at size_eq
      have designates := designates_top fills (fills.aroundTop_bare isFile name_eq)
        fills.planted.lt_size sound fills.planted.below (by omega) lists
      rw [outer_of_bare sound, designations_of_bare sound name_eq]
      simpa [count] using designates
  | @packaged file package members isFile named isPackage package_named sound _ =>
      obtain ⟨name, name_eq⟩ := Option.ne_none_iff_exists'.mp named
      obtain ⟨path, path_eq⟩ := Option.ne_none_iff_exists'.mp package_named
      have planted := fills.planted.below.first
      have not_counted : tree.numbers (0 : Nat) = false :=
        (not_counted_of_container fills.lineage_root (by rw [isFile]; rfl)).1
      obtain ⟨package_not_counted, unskipped⟩ :=
        not_counted_of_container (planted.lineage_eq fills.ordered) (by rw [isPackage]; rfl)
      have counted_eq : counted tree 0 1 [.declare package members] = counted tree 0 2 members := by
        rw [counted_declare (unskipped _), List.filter_cons, package_not_counted]
        rfl
      have lists : Lists tree 0 ([] ++ counted tree 0 2 members ++ []) := by
        rw [← counted_eq]
        simpa using fills.lists_below fills.planted (by omega) not_counted
      rw [count, countAll, countAll, count] at size_eq
      have designates := designates_top fills
        (fills.aroundTop_packaged isFile isPackage name_eq path_eq) planted.lt_size sound
        planted.below (by omega) lists
      rw [outer_of_packaged isPackage, designations_of_packaged isPackage name_eq path_eq]
      simpa [count, countAll] using designates

end Decl

namespace ScopeTree

variable {tree : ScopeTree}

theorem Names.not_container {node : Handle} {name : String} (names : tree.Names node name) :
    ∃ kind, tree.kind node = .ok kind ∧ kind.isContainer = false := by
  obtain ⟨resolution, resolution_eq, -⟩ := names
  rw [resolve, Resolution.within] at resolution_eq
  cases kind_eq : tree.kind node with
  | error fault => simp [Resolution.ofNode, kind_eq, bind_eq_ok_iff] at resolution_eq
  | ok kind =>
      refine ⟨kind, rfl, ?_⟩
      cases kind with
      | file | package =>
          simp [Resolution.ofNode, kind_eq, Kind.spelled, Kind.ofTag, Kind.tag, bind_eq_ok_iff]
            at resolution_eq
      | klass | function | lambda => rfl
      | unknown tag =>
          rw [Resolution.ofNode_plain kind_eq] at resolution_eq
          contradiction

theorem nameAlong_of_container {node : Handle} {kind : Kind} (kind_eq : tree.kind node = .ok kind)
    (container : kind.isContainer = true) (names : Register String) (rest : Unit → Walk) :
    tree.nameAlong names (.visit node rest) = tree.nameAlong names (rest ()) := by
  rw [nameAlong, kind_eq]
  simp only [Resolution.liftM_ok, pure_bind, container, if_true]

/-- Nodes that have not been met are entered with their names. -/
theorem eval_nameAlong_after {nodes : List Handle} {texts : List String}
    (names : List.Forall₂ tree.Names nodes texts) (register : Register String)
    (distinct : (register.nodes ++ nodes).Nodup) :
    (tree.nameAlong register (Walk.stop.after nodes)).eval tree =
      .ok { entries := register.entries ++ nodes.zip texts } := by
  induction names generalizing register with
  | nil => simp [Walk.after, nameAlong, Inquiry.eval]
  | @cons node text nodes texts named _ ih =>
      obtain ⟨kind, kind_eq, open_kind⟩ := named.not_container
      obtain ⟨resolution, resolution_eq, name_eq⟩ := named
      have new : node ∉ register.nodes := fun member =>
        (List.nodup_append.mp distinct).2.2 node member node List.mem_cons_self rfl
      have further : ((register.put node text).nodes ++ nodes).Nodup := by
        rw [Register.nodes_put, if_neg new]
        simpa using distinct
      have name_eval : (tree.className node).eval tree = .ok text := by
        rw [className, Inquiry.eval_map, resolution_eq, ← name_eq]
        rfl
      have put_eq : register.put node text = { entries := register.entries ++ [(node, text)] } :=
        Register.put_of_notMem new text
      have step : (tree.nameAlong register (Walk.stop.after (node :: nodes))).eval tree =
          (tree.nameAlong (register.put node text) (Walk.stop.after nodes)).eval tree := by
        rw [Walk.after, nameAlong, kind_eq]
        simp only [Resolution.liftM_ok, pure_bind, open_kind, Bool.false_eq_true, if_false]
        rw [Inquiry.eval_bind, name_eval]
        rfl
      rw [step, ih _ further, put_eq]
      simp

end ScopeTree

namespace Decl

open ScopeTree

/-- The file and its package are passed by, and everything else gets the name of the pass. -/
theorem Grammatical.eval_classNames {decl : Decl} {tree : ScopeTree} (fills : decl.Fills tree)
    (grammatical : decl.Grammatical) :
    tree.classNames.eval tree =
      .ok { entries := (handlesFrom decl.outer (decl.count - decl.outer)).zip
              (decl.designations.map Designation.name) } := by
  have names : List.Forall₂ tree.Names (handlesFrom decl.outer (decl.count - decl.outer))
      (decl.designations.map Designation.name) := by
    rw [List.forall₂_map_right_iff]
    exact (fills.designates_file grammatical).imp fun _ _ designates => designates.names
  have named := eval_nameAlong_after names .empty
    (by simpa [Register.empty, Register.nodes] using nodup_handlesFrom _ _)
  rw [classNames, fills.iteration_eq, fills.size_eq]
  cases grammatical with
  | @bare file members isFile _ sound _ =>
      have nodes_eq : handlesFrom 0 (declare file members).count =
          ((0 : Nat) : Int) :: handlesFrom 1 ((declare file members).count - 1) := by
        rw [count, handlesFrom_succ, Nat.add_sub_cancel]
      rw [outer_of_bare sound] at named ⊢
      rw [nodes_eq, Walk.after,
        nameAlong_of_container fills.planted.kind_eq (by rw [isFile]; rfl), named]
      rfl
  | @packaged file package members isFile _ isPackage _ sound _ =>
      have nodes_eq : handlesFrom 0 (declare file [declare package members]).count =
          ((0 : Nat) : Int) :: ((1 : Nat) : Int) ::
            handlesFrom 2 ((declare file [declare package members]).count - 2) := by
        rw [count, countAll, countAll, count, Nat.add_zero, handlesFrom_succ, handlesFrom_succ,
          Nat.add_sub_cancel]
      rw [outer_of_packaged isPackage] at named ⊢
      rw [nodes_eq, Walk.after,
        nameAlong_of_container fills.planted.kind_eq (by rw [isFile]; rfl), Walk.after,
        nameAlong_of_container fills.planted.below.first.kind_eq (by rw [isPackage]; rfl), named]
      rfl

/-- A grammatical file can be laid out, and its names are those of the pass, in the same order. -/
theorem Grammatical.classNames_eq_designations {decl : Decl} (grammatical : decl.Grammatical) :
    ∃ built names, decl.layout = .ok built ∧
      built.tree.classNames.outcome built.tree = .ok names ∧
      names.nodes = handlesFrom decl.outer (decl.count - decl.outer) ∧
      names.entries.map Prod.snd = decl.designations.map Designation.name := by
  obtain ⟨built, laid⟩ := grammatical.exists_layout
  have fills := fills_of_layout laid
  have same_length : (handlesFrom decl.outer (decl.count - decl.outer)).length =
      (decl.designations.map Designation.name).length := by
    rw [List.length_map]
    exact (fills.designates_file grammatical).length_eq
  have outcome_eq := (Inquiry.outcome_eq_eval _ _).trans (grammatical.eval_classNames fills)
  exact ⟨built, _, laid, outcome_eq, List.map_fst_zip (Nat.le_of_eq same_length),
    List.map_snd_zip (Nat.le_of_eq same_length.symm)⟩

/-- A package with functions that share their numbers, and a class with numbers of its own. -/
def twoScopes : Decl :=
  let lambda : Decl := .declare (.unmarked .lambda none) []
  .declare (.unmarked .file "a.b.kt")
    [.declare (.unmarked .package "p.q")
      [.declare (.unmarked .function "f") [.declare (.unmarked .function "g") [lambda]],
        .declare (.unmarked .klass "A")
          [.declare (.unmarked .function "m") [lambda],
            .declare (.unmarked .klass "B") [.declare (.unmarked .function "n") [lambda]]],
        .declare (.unmarked .function "h") [lambda]]]

theorem Grammatical.classNames_eq_designations_twoScopes :
    twoScopes.Grammatical ∧ ∃ built names, twoScopes.layout = .ok built ∧
      built.tree.classNames.outcome built.tree = .ok names ∧
      names.nodes = [2, 3, 4, 5, 6, 7, 8, 9, 10, 11, 12] ∧
      names.entries.map Prod.snd =
        ["p/q/a_b_kt", "p/q/a_b_kt$1", "p/q/a_b_kt$2", "p/q/A", "p/q/A", "p/q/A$1", "p/q/A$B",
          "p/q/A$B", "p/q/A$B$2", "p/q/a_b_kt", "p/q/a_b_kt$3"] := by
  have grammatical : twoScopes.Grammatical := by
    refine .packaged rfl (by decide) rfl (by decide) ?_ (by decide)
    simp [AreMembers, IsMember, AreCode, IsCode]
  have nodes_eq : handlesFrom twoScopes.outer (twoScopes.count - twoScopes.outer) =
      [2, 3, 4, 5, 6, 7, 8, 9, 10, 11, 12] := rfl
  have names_eq : twoScopes.designations.map Designation.name =
      ["p/q/a_b_kt", "p/q/a_b_kt$1", "p/q/a_b_kt$2", "p/q/A", "p/q/A", "p/q/A$1", "p/q/A$B",
        "p/q/A$B", "p/q/A$B$2", "p/q/a_b_kt", "p/q/a_b_kt$3"] := by cbv
  rw [← nodes_eq, ← names_eq]
  exact ⟨grammatical, grammatical.classNames_eq_designations⟩

end Decl

end BinaryName
