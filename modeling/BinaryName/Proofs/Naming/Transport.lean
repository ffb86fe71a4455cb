import BinaryName.Proofs.Naming.Failure
import BinaryName.Proofs.Tree.Embedding
import BinaryName.Proofs.Tree.Nesting

/-!
# Names in embedded trees

What a rule takes from around a node it finds around the image of the node as well.  So the image
has the same name by the same rule, unless the name ends with a number: then the number may be
another one, and everything else is the same.
-/

namespace BinaryName

/-- The resolution with the node that the name is based on moved. -/
def Resolution.rebased (move : Handle → Handle) (resolution : Resolution) : Resolution :=
  { resolution with base := resolution.base.map move }

/-- The resolution that extends a name by a number. -/
def Resolution.numbered (outer : Resolution) (base : Handle) (number : Nat) : Resolution :=
  { name := outer.name ++ "$" ++ toString number, rule := .anonymous, index := some number,
    base := some base }

namespace ScopeTree.Embeds

variable {move : Handle → Handle} {tree other : ScopeTree} {node : Nat}

/-! ## Scopes -/

theorem scopeOf_eq (embeds : Embeds move tree other) (ordered : tree.Ordered) (also : other.Ordered)
    (inside : node < tree.size) {root : Handle} (scope_eq : tree.scopeOf (node : Int) = .ok root) :
    other.scopeOf (move node) = .ok (move root) := by
  obtain ⟨image, image_eq, image_lt⟩ := (embeds node inside).image
  obtain ⟨top, top_eq, scopes⟩ := (scopeOf_eq_ok_iff ordered inside).mp scope_eq
  have judges := judges_isTopLevel ordered
  obtain ⟨top_lt, -, -⟩ := judges.of_nearestAbove_natCast ordered inside top_eq
  have top_inside : top < tree.size := by omega
  obtain ⟨image_top, image_top_eq, -⟩ := (embeds top top_inside).image
  have image_above :=
    embeds.nearestAbove_of_found ordered also judges (judges_isTopLevel also) inside top_eq
  have line := embeds.lineage_eq ordered also top_inside
  rw [image_top_eq] at line
  rw [image_eq, image_top_eq] at image_above
  rw [image_eq]
  refine (scopeOf_eq_ok_iff also image_lt).mpr ⟨image_top, image_above, ?_⟩
  rw [Scopes, line, ← image_top_eq]
  rcases scopes with ⟨klass, rfl⟩ | ⟨function, file_eq⟩
  · exact Or.inl ⟨klass, rfl⟩
  · exact Or.inr ⟨function, embeds.nearestAbove_of_found ordered also (judges_hasKind ordered .file)
      (judges_hasKind also .file) top_inside file_eq⟩

/-! ## Packages, files and classes -/

theorem properName_eq (embeds : Embeds move tree other) (inside : node < tree.size) {name : String}
    (proper_eq : tree.properName (node : Int) = .ok name) :
    other.properName (move node) = .ok name := by
  rw [properName_eq_ok_iff, (embeds node inside).name_eq]
  exact properName_eq_ok_iff.mp proper_eq

theorem properName_of_found (embeds : Embeds move tree other) (ordered : tree.Ordered)
    (inside : node < tree.size) {wanted : Kind} {found : Handle} {name : String}
    (nearest_eq : tree.nearestAbove (tree.hasKind wanted) (node : Int) = .ok (some found))
    (proper_eq : tree.properName found = .ok name) : other.properName (move found) = .ok name := by
  obtain ⟨place, rfl, place_lt, -⟩ :=
    (judges_hasKind ordered wanted).of_nearestAbove ordered inside nearest_eq
  exact embeds.properName_eq (by omega) proper_eq

theorem packageAround_eq (embeds : Embeds move tree other) (ordered : tree.Ordered)
    (also : other.Ordered) (inside : node < tree.size) {path : String}
    (path_eq : tree.packageAround (node : Int) = .ok path) :
    other.packageAround (move node) = .ok path := by
  rw [packageAround] at path_eq
  obtain ⟨found, found_eq, path_eq⟩ := bind_eq_ok_iff.mp path_eq
  rw [packageAround, embeds.nearestAbove_eq ordered also (judges_hasKind ordered .package)
    (judges_hasKind also .package) inside, found_eq]
  cases found with
  | none => exact path_eq
  | some package =>
      obtain ⟨name, proper_eq, rfl⟩ := map_eq_ok_iff.mp path_eq
      have image_proper := embeds.properName_of_found ordered inside found_eq proper_eq
      exact map_eq_ok_iff.mpr ⟨name, image_proper, rfl⟩

theorem fileClassAround_eq (embeds : Embeds move tree other) (ordered : tree.Ordered)
    (also : other.Ordered) (inside : node < tree.size) {facade : String}
    (facade_eq : tree.fileClassAround (node : Int) = .ok facade) :
    other.fileClassAround (move node) = .ok facade := by
  rw [fileClassAround] at facade_eq
  obtain ⟨found, found_eq, facade_eq⟩ := bind_eq_ok_iff.mp facade_eq
  rw [fileClassAround, embeds.nearestAbove_eq ordered also (judges_hasKind ordered .file)
    (judges_hasKind also .file) inside, found_eq]
  cases found with
  | none => exact absurd facade_eq not_refuse
  | some file =>
      obtain ⟨name, proper_eq, rfl⟩ := map_eq_ok_iff.mp facade_eq
      have image_proper := embeds.properName_of_found ordered inside found_eq proper_eq
      exact map_eq_ok_iff.mpr ⟨name, image_proper, rfl⟩

theorem classChain_eq (embeds : Embeds move tree other) (ordered : tree.Ordered)
    (also : other.Ordered) (inside : node < tree.size) :
    other.classChain (move node) = (tree.classChain node).map (List.map move) := by
  induction node using Nat.strongRecOn with
  | ind node ih =>
      have test_eq := embeds.test_eq ordered also (judges_hasKind ordered .klass)
        (judges_hasKind also .klass) inside
      cases klass : (tree.lineage node).head? == some .klass with
      | false =>
          have fails := (judges_hasKind ordered .klass).of_verdict inside klass
          rw [classChain_of_other fails, classChain_of_other (test_eq.trans fails)]
          rfl
      | true =>
          have passes := (judges_hasKind ordered .klass).of_verdict inside klass
          have kind_eq := kind_of_hasKind passes
          have image_kind := kind_of_hasKind (test_eq.trans passes)
          rcases ordered node inside with root_eq | ⟨parent, parent_lt, parent_eq⟩
          · rw [classChain_of_root kind_eq root_eq,
              classChain_of_root image_kind ((embeds node inside).parent_of_root root_eq)]
            rfl
          · rw [classChain_of_parent ordered.loopless kind_eq parent_eq,
              classChain_of_parent also.loopless image_kind
                ((embeds node inside).parent_of_parent parent_eq),
              ih parent parent_lt (by omega)]
            cases tree.classChain (parent : Int) <;> rfl

theorem chainName_eq (embeds : Embeds move tree other) {chain : List Handle}
    (places : ∀ node ∈ chain, ∃ place : Nat, node = place ∧ place < tree.size) {name : String}
    (name_eq : tree.chainName chain = .ok name) : other.chainName (chain.map move) = .ok name := by
  induction chain generalizing name with
  | nil => exact name_eq
  | cons inner outer ih =>
      obtain ⟨place, rfl, place_lt⟩ := places inner List.mem_cons_self
      cases outer with
      | nil => exact embeds.properName_eq place_lt name_eq
      | cons outer rest =>
          rw [chainName_cons_cons] at name_eq
          obtain ⟨path, path_eq, name_eq⟩ := bind_eq_ok_iff.mp name_eq
          obtain ⟨proper, proper_eq, name_eq⟩ := bind_eq_ok_iff.mp name_eq
          have image_path :=
            ih (fun node member => places node (List.mem_cons_of_mem _ member)) path_eq
          have image_proper := embeds.properName_eq place_lt proper_eq
          rw [List.map_cons] at image_path
          rw [List.map_cons, List.map_cons, chainName_cons_cons, image_path, image_proper]
          exact name_eq

theorem ofClass_eq (embeds : Embeds move tree other) (ordered : tree.Ordered) (also : other.Ordered)
    (inside : node < tree.size) (klass : tree.kind (node : Int) = .ok .klass)
    {resolution : Resolution} (given : Resolution.ofClass tree (node : Int) = .ok resolution) :
    Resolution.ofClass other (move node) = .ok (resolution.rebased move) := by
  obtain ⟨chain, chain_eq⟩ := exists_classChain ordered inside
  have in_chain := fun outer => @exists_place_of_mem_chain tree node ordered inside klass chain
    chain_eq outer
  obtain ⟨last, container, kind, path, name, last_eq, holder_eq, kind_eq, holds, path_eq, name_eq,
    rfl⟩ := (ofClass_eq_ok_iff chain_eq).mp given
  obtain ⟨outermost, rfl, outermost_lt, -⟩ :=
    in_chain last (List.mem_cons_of_mem _ (List.mem_of_getLast? last_eq))
  have image_chain := embeds.classChain_eq ordered also inside
  rw [chain_eq] at image_chain
  have image_last : (chain.map move).getLast? = some (move outermost) := by
    rw [List.getLast?_map, last_eq, Option.map_some]
  have parent_eq := parent_of_holder holder_eq
  obtain ⟨place, rfl, place_lt⟩ : ∃ place : Nat, container = place ∧ place < tree.size := by
    rcases ordered outermost outermost_lt with root_eq | ⟨place, place_lt, place_eq⟩
    · simp [root_eq] at parent_eq
    · exact ⟨place, Option.some.inj (Except.ok.inj (parent_eq.symm.trans place_eq)), by omega⟩
  have image_holder :=
    Resolution.holder_eq ((embeds outermost outermost_lt).parent_of_parent parent_eq)
  have image_kind := (embeds place place_lt).kind_eq.trans kind_eq
  have image_path := embeds.packageAround_eq ordered also outermost_lt path_eq
  have chain_places : ∀ outer ∈ chain, ∃ place : Nat, outer = place ∧ place < tree.size := by
    intro outer member
    obtain ⟨place, outer_eq, outer_lt, -⟩ := in_chain outer (List.mem_cons_of_mem _ member)
    exact ⟨place, outer_eq, outer_lt⟩
  have image_name := embeds.chainName_eq chain_places name_eq
  refine (ofClass_eq_ok_iff image_chain).mpr ⟨_, _, kind, path, name, image_last, image_holder,
    image_kind, holds, image_path, image_name, ?_⟩
  simp [Resolution.rebased]

/-! ## Names -/

theorem resolve_of_klass (embeds : Embeds move tree other) (ordered : tree.Ordered)
    (also : other.Ordered) (inside : node < tree.size) (klass : tree.kind (node : Int) = .ok .klass)
    {resolution : Resolution} (resolved : (tree.resolve (node : Int)).eval tree = .ok resolution) :
    (other.resolve (move node)).eval other = .ok (resolution.rebased move) := by
  have image_klass := (embeds node inside).kind_eq.trans klass
  rw [eval_resolve_klass klass] at resolved
  rw [eval_resolve_klass image_klass]
  exact embeds.ofClass_eq ordered also inside klass resolved

/-- A node that is not counted has an image with the same name. -/
theorem resolve_of_not_counted (embeds : Embeds move tree other) (ordered : tree.Ordered)
    (also : other.Ordered) (inside : node < tree.size) (not_counted : tree.numbers node = false)
    {resolution : Resolution} (resolved : (tree.resolve (node : Int)).eval tree = .ok resolution) :
    (other.resolve (move node)).eval other = .ok (resolution.rebased move) := by
  obtain ⟨image, image_eq, image_lt⟩ := (embeds node inside).image
  have line := embeds.lineage_eq ordered also inside
  cases byRule_of_resolve resolved with
  | klass kind_eq _ => exact embeds.resolve_of_klass ordered also inside kind_eq resolved
  | @topLevelFunction path name top path_eq name_eq =>
      rw [judges_plays ordered .topLevelFunction node inside] at top
      have image_path := embeds.packageAround_eq ordered also inside path_eq
      have image_name := embeds.fileClassAround_eq ordered also inside name_eq
      rw [image_eq] at line image_path image_name ⊢
      exact (eval_resolve_topLevel also image_lt (line ▸ Except.ok.inj top)).mpr
        ⟨path, name, image_path, image_name, rfl⟩
  | anonymous _ index_eq _ =>
      have anonymous := isAnonymous_of_eval_indexOf index_eq
      rw [judges_isAnonymous ordered node inside, ← numbers, not_counted] at anonymous
      simp at anonymous
  | @memberFunction parent outer member parent_eq outer_eq =>
      have klass := kind_of_member parent_eq member
      rw [judges_plays ordered .memberFunction node inside] at member
      obtain ⟨place, place_lt, place_eq, -⟩ :=
        exists_parent_of_fits ordered inside (Except.ok.inj member)
      obtain rfl : parent = place := Option.some.inj (Except.ok.inj (parent_eq.symm.trans place_eq))
      have place_inside : place < tree.size := by omega
      obtain ⟨image_parent, image_parent_eq, -⟩ := (embeds place place_inside).image
      have image_above := (embeds node inside).parent_of_parent parent_eq
      have image_outer := embeds.resolve_of_klass ordered also place_inside klass outer_eq
      rw [numbers, Lineage.isAnonymous, Bool.or_eq_false_iff] at not_counted
      rw [image_parent_eq] at image_outer
      rw [image_eq, image_parent_eq] at image_above
      rw [image_eq] at line ⊢
      have resolved := (eval_resolve_member also image_lt (line ▸ Except.ok.inj member)
        (line ▸ not_counted.2) image_above).mpr ⟨_, image_outer, rfl⟩
      rwa [← image_parent_eq] at resolved

/-- A node that is counted has an image whose name starts alike and ends with the number of the
image. -/
theorem resolve_of_counted (embeds : Embeds move tree other) (ordered : tree.Ordered)
    (also : other.Ordered) (nested : tree.WellNested) (inside : node < tree.size)
    (counted : tree.numbers node = true) {resolution : Resolution}
    (resolved : (tree.resolve (node : Int)).eval tree = .ok resolution) :
    ∃ base index outer, (tree.indexOf (node : Int)).eval tree = .ok index ∧
      (tree.resolve base).eval tree = .ok outer ∧
      resolution = outer.numbered base index ∧
      ∀ number, (other.indexOf (move node)).eval other = .ok number →
        (other.resolve (move node)).eval other = .ok (outer.numbered (move base) number) := by
  have below := (nested node inside).not_topLevelFunction counted
  obtain ⟨base, index, outer, nearest, index_eq, outer_eq, rfl⟩ :=
    (eval_resolve_anonymous ordered inside counted below).mp resolved
  refine ⟨base, index, outer, index_eq, outer_eq, rfl, ?_⟩
  intro number number_eq
  have judges := judges_isBase ordered
  obtain ⟨place, rfl, place_lt, isBase, -⟩ := judges.of_nearestAbove ordered inside nearest
  have place_inside : place < tree.size := by omega
  have base_not_counted := (nested place place_inside).not_isAnonymous isBase
  have image_outer :=
    embeds.resolve_of_not_counted ordered also place_inside base_not_counted outer_eq
  have image_nearest :=
    embeds.nearestAbove_of_found ordered also judges (judges_isBase also) inside nearest
  obtain ⟨image, image_eq, image_lt⟩ := (embeds node inside).image
  have line := embeds.lineage_eq ordered also inside
  rw [image_eq] at line image_nearest number_eq ⊢
  exact (eval_resolve_anonymous also image_lt (line ▸ counted) (line ▸ below)).mpr
    ⟨_, number, _, image_nearest, number_eq, image_outer, rfl⟩

end ScopeTree.Embeds

end BinaryName
