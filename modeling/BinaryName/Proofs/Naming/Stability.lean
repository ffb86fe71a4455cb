import BinaryName.Proofs.Naming.Collision
import BinaryName.Proofs.Naming.Counting
import BinaryName.Proofs.Naming.Transport
import BinaryName.Proofs.Tree.Insertion

/-!
# Names after an edit

A lambda that is put into the code of a file takes the next number of its scope.  What came after it
in the scope moves up by one number, and no other name changes, however deep the lambda is and
whatever else shares the scope.
-/

namespace BinaryName

/-- What is counted before a node moves up with the node, and what is new at the place is counted
with it. -/
theorem countP_range_raised (test later : Nat → Bool) {place node : Nat} (le : place ≤ node)
    (before : ∀ other < place, later other = test other)
    (after : ∀ other < node, place ≤ other → later (other + 1) = test other) :
    (List.range (node + 1)).countP later =
      (List.range node).countP test + if later place = true then 1 else 0 := by
  induction node, le using Nat.le_induction with
  | base =>
      have same : (List.range place).countP later = (List.range place).countP test :=
        List.countP_congr fun other member => by rw [before other (List.mem_range.mp member)]
      rw [List.range_succ, List.countP_append, List.countP_singleton, same]
  | succ node le ih =>
      have below := ih fun other lt le => after other (by omega) le
      rw [List.range_succ, List.countP_append, List.countP_singleton, below,
        after node (by omega) le, List.range_succ (n := node), List.countP_append,
        List.countP_singleton]
      omega

namespace ScopeTree

variable {move : Handle → Handle} {tree other : ScopeTree} {node : Nat}

/-- An anonymous class and its image are in matching scopes. -/
theorem Embeds.belongs_eq {whole : Decl} (embeds : Embeds move tree other)
    (injective : Function.Injective move) (fills : whole.Fills tree) (nested : tree.WellNested)
    (also : other.Ordered) (inside : node < tree.size) (root : Handle) :
    other.belongs (move root) (move node) = tree.belongs root node := by
  have ordered := fills.ordered
  obtain ⟨image, image_eq, image_lt⟩ := (embeds node inside).image
  have line := embeds.lineage_eq ordered also inside
  have scope_step := @embeds.scopeOf_eq _ _ _ node ordered also inside
  rw [image_eq] at line scope_step ⊢
  have same : other.numbers image = tree.numbers node := by rw [numbers, numbers, line]
  rw [Bool.eq_iff_iff, belongs_iff also image_lt, belongs_iff ordered inside, same]
  refine and_congr_right fun counted => ⟨fun scope_eq => ?_, scope_step⟩
  obtain ⟨found, -, found_eq, -⟩ := fills.exists_scope nested inside counted
  have moved : move found = move root := Except.ok.inj ((scope_step found_eq).symm.trans scope_eq)
  rw [found_eq, injective moved]

end ScopeTree

theorem injective_raised (place : Nat) : Function.Injective (raised place) := fun _ _ => raised_inj

namespace Decl

open ScopeTree

variable {nest edited : Decl} {tree other : ScopeTree} {place node root : Nat}

/-- The index of an anonymous class goes up by one if the new lambda is before it in its scope. -/
theorem LambdaAdded.eval_indexOf_raised (added : LambdaAdded place nest edited)
    (fills : nest.Fills tree) (edited_fills : edited.Fills other) (nested : tree.WellNested)
    (also_nested : other.WellNested) (inside : node < tree.size)
    (counted : tree.numbers node = true)
    (scope_eq : tree.scopeOf (node : Int) = .ok (root : Int)) {index : Nat}
    (index_eq : (tree.indexOf (node : Int)).eval tree = .ok index) :
    (other.indexOf (raised place node)).eval other =
      .ok (index +
        if place ≤ node ∧ other.belongs (raised place root) place = true then 1 else 0) := by
  have embeds := added.embeds fills edited_fills
  have also := edited_fills.ordered
  have size_eq := added.size_eq fills edited_fills
  have root_lt : root < tree.size := by
    obtain ⟨found, found_lt, found_eq, -⟩ := fills.exists_scope nested inside counted
    have same := Int.ofNat_inj.mp (Except.ok.inj (found_eq.symm.trans scope_eq))
    omega
  obtain ⟨image_root, root_eq, -⟩ := (embeds root root_lt).image
  have belongs_eq : ∀ node : Nat, node < tree.size →
      other.belongs (raised place root) (raised place node) = tree.belongs root node :=
    fun node inside => embeds.belongs_eq (injective_raised place) fills nested also inside root
  have before : ∀ earlier < place, earlier < tree.size →
      other.belongs (raised place root) earlier = tree.belongs root earlier := by
    intro earlier lt earlier_lt
    rw [← belongs_eq earlier earlier_lt, raised_of_lt lt]
  have after : ∀ later < tree.size, place ≤ later →
      other.belongs (raised place root) (later + 1 : Nat) = tree.belongs root later := by
    intro later later_lt le
    rw [← belongs_eq later later_lt, raised_of_le le]
  have line := embeds.lineage_eq fills.ordered also inside
  have image_scope := embeds.scopeOf_eq fills.ordered also inside scope_eq
  rw [fills.eval_indexOf_eq nested inside counted scope_eq] at index_eq
  obtain rfl := Except.ok.inj index_eq
  by_cases earlier : node < place
  · rw [raised_of_lt earlier] at line image_scope ⊢
    rw [root_eq] at image_scope before ⊢
    have same : (List.range node).countP (fun earlier : Nat => other.belongs image_root earlier) =
        (List.range node).countP fun earlier : Nat => tree.belongs root earlier := by
      refine List.countP_congr fun earlier member => ?_
      have lt := List.mem_range.mp member
      rw [before earlier (by omega) (by omega)]
    rw [edited_fills.eval_indexOf_eq also_nested (by omega) (by rw [numbers, line]; exact counted)
      image_scope, same, if_neg (by omega)]
  · have le : place ≤ node := Nat.le_of_not_lt earlier
    rw [raised_of_le le] at line image_scope ⊢
    rw [root_eq] at image_scope before after ⊢
    have count_eq := countP_range_raised (fun earlier : Nat => tree.belongs root earlier)
      (fun earlier : Nat => other.belongs image_root earlier) le
      (fun earlier lt => before earlier lt (by omega))
      (fun later lt le => after later (by omega) le)
    rw [edited_fills.eval_indexOf_eq also_nested (by omega) (by rw [numbers, line]; exact counted)
      image_scope, count_eq]
    simp only [le, true_and]
    congr 1
    omega

theorem LambdaAdded.numbers_place (added : LambdaAdded place nest edited)
    (edited_fills : edited.Fills other) (inside : place < other.size) :
    other.numbers place = true := by
  have head_eq := head?_of_kind edited_fills.ordered inside (added.kind_place edited_fills)
  rw [numbers, Lineage.isAnonymous, head_eq]
  rfl

/-- A node keeps its name, or it is an anonymous class after the new lambda in its scope and goes up
by one number. -/
theorem LambdaAdded.resolve_raised (added : LambdaAdded place nest edited)
    (fills : nest.Fills tree) (edited_fills : edited.Fills other) (nested : tree.WellNested)
    (also_nested : other.WellNested) {scope : Nat}
    (scope_eq : other.scopeOf (place : Int) = .ok (raised place scope)) (inside : node < tree.size)
    {resolution : Resolution} (resolved : (tree.resolve (node : Int)).eval tree = .ok resolution) :
    (¬(place ≤ node ∧ tree.belongs scope node = true) →
      (other.resolve (raised place node)).eval other = .ok (resolution.rebased (raised place))) ∧
    (place ≤ node ∧ tree.belongs scope node = true →
      ∃ base index outer, (tree.resolve base).eval tree = .ok outer ∧
        resolution = outer.numbered base index ∧
        (other.resolve (raised place node)).eval other =
          .ok (outer.numbered (raised place base) (index + 1))) := by
  have ordered := fills.ordered
  have also := edited_fills.ordered
  have embeds := added.embeds fills edited_fills
  have place_lt : place < other.size := by
    have := added.size_eq fills edited_fills
    have := added.place_le_size fills
    omega
  cases counted : tree.numbers node with
  | false =>
      refine ⟨fun _ => embeds.resolve_of_not_counted ordered also inside counted resolved, ?_⟩
      rintro ⟨-, belongs⟩
      rw [((belongs_iff ordered inside scope).mp belongs).1] at counted
      contradiction
  | true =>
      obtain ⟨root, -, root_eq, -⟩ := fills.exists_scope nested inside counted
      obtain ⟨base, index, outer, index_eq, outer_eq, rfl, renamed⟩ :=
        embeds.resolve_of_counted ordered also nested inside counted resolved
      have same_scope : other.belongs (raised place root) place = true ↔
          tree.belongs scope node = true := by
        rw [belongs_iff also place_lt, belongs_iff ordered inside, counted, scope_eq, root_eq,
          added.numbers_place edited_fills place_lt, Except.ok.injEq, Except.ok.injEq,
          (injective_raised place).eq_iff, eq_comm (a := (scope : Int))]
      have raised_index := added.eval_indexOf_raised fills edited_fills nested also_nested inside
        counted root_eq index_eq
      simp only [same_scope] at raised_index
      constructor
      · intro stays
        rw [if_neg stays] at raised_index
        exact renamed index raised_index
      · intro later
        rw [if_pos later] at raised_index
        exact ⟨base, index, outer, outer_eq, rfl, renamed (index + 1) raised_index⟩

/-- A lambda that is put into code takes the next number of its scope, and the anonymous classes
after it in that scope go up by one.  Everything else keeps its name. -/
theorem LambdaAdded.renumbers (added : LambdaAdded place nest edited)
    (grammatical : nest.Grammatical) :
    ∃ built after, nest.layout = .ok built ∧ edited.layout = .ok after ∧
      Embeds (raised place) built.tree after.tree ∧ after.tree.size = built.tree.size + 1 ∧
      after.tree.kind place = .ok .lambda ∧
      ∃ scope : Nat, after.tree.scopeOf place = .ok (raised place scope) ∧
        (after.tree.indexOf place).outcome after.tree =
          .ok ((List.range place).countP
            (fun earlier : Nat => after.tree.belongs (raised place scope) earlier) + 1) ∧
        ∀ (node : Nat) (kind : Kind), node < built.tree.size → built.tree.kind node = .ok kind →
          kind.hasRule = true →
          ∃ resolution, (built.tree.resolve node).outcome built.tree = .ok resolution ∧
            (¬(place ≤ node ∧ built.tree.belongs scope node = true) →
              (after.tree.resolve (raised place node)).outcome after.tree =
                .ok (resolution.rebased (raised place))) ∧
            (place ≤ node ∧ built.tree.belongs scope node = true →
              ∃ base index outer, (built.tree.resolve base).outcome built.tree = .ok outer ∧
                resolution = outer.numbered base index ∧
                (after.tree.resolve (raised place node)).outcome after.tree =
                  .ok (outer.numbered (raised place base) (index + 1))) := by
  obtain ⟨built, laid⟩ := grammatical.exists_layout
  have edited_grammatical := added.grammatical grammatical
  obtain ⟨after, edited_laid⟩ := edited_grammatical.exists_layout
  have fills := fills_of_layout laid
  have edited_fills := fills_of_layout edited_laid
  have nested := grammatical.wellNested fills
  have also_nested := edited_grammatical.wellNested edited_fills
  have size_eq := added.size_eq fills edited_fills
  have place_lt : place < after.tree.size := by
    have := added.place_le_size fills
    omega
  have counted := added.numbers_place edited_fills place_lt
  obtain ⟨scope, scope_lt, scope_eq, -⟩ := edited_fills.exists_scope also_nested place_lt counted
  have index_eq := edited_fills.eval_indexOf_eq also_nested place_lt counted scope_eq
  rw [← raised_of_lt scope_lt] at scope_eq index_eq
  refine ⟨built, after, laid, edited_laid, added.embeds fills edited_fills, size_eq,
    added.kind_place edited_fills, scope, scope_eq, ?_⟩
  simp only [Inquiry.outcome_eq_eval]
  refine ⟨index_eq, ?_⟩
  intro node kind inside kind_eq ruled
  have open_kind : kind.isContainer = false := by
    cases kind <;> simp_all [Kind.hasRule, Kind.isContainer]
  obtain ⟨designation, -, designates⟩ := exists_related_of_mem (fills.designates_file grammatical)
    (grammatical.mem_handlesFrom fills inside kind_eq open_kind)
  obtain ⟨resolution, resolved, -⟩ := designates.resolves
  exact ⟨resolution, resolved, added.resolve_raised fills edited_fills nested also_nested scope_eq
    inside resolved⟩

end Decl

/-- A lambda without a label and with nothing in it. -/
def plainLambda : Decl :=
  .declare (.unmarked .lambda none) []

/-- Two functions and a class between them, with code in the local function of the first one. -/
def codeAround (code : List Decl) : Decl :=
  .declare (.unmarked .file "a.kt")
    [.declare (.unmarked .function "f") [.declare (.unmarked .function "g") code],
      .declare (.unmarked .klass "A") [.declare (.unmarked .function "m") [plainLambda]],
      .declare (.unmarked .function "h") [plainLambda]]

/-- The lambda in the second function goes up by one number, that in the class keeps its name. -/
theorem Decl.LambdaAdded.renumbers_codeAround :
    LambdaAdded 3 (codeAround [plainLambda]) (codeAround [plainLambda, plainLambda]) ∧
      (codeAround [plainLambda]).Grammatical ∧
      ∃ built after, (codeAround [plainLambda]).layout = .ok built ∧
        (codeAround [plainLambda, plainLambda]).layout = .ok after ∧
        (∃ resolution, (built.tree.resolve 6).outcome built.tree = .ok resolution ∧
          (after.tree.resolve 7).outcome after.tree = .ok (resolution.rebased (raised 3))) ∧
        ∃ (base : Handle) (index : Nat) (outer : Resolution),
          (built.tree.resolve 8).outcome built.tree = .ok (outer.numbered base index) ∧
          (after.tree.resolve 9).outcome after.tree =
            .ok (outer.numbered (raised 3 base) (index + 1)) := by
  have added : LambdaAdded 3 (codeAround [plainLambda]) (codeAround [plainLambda, plainLambda]) :=
    .inside [] _ (.inside [] [] (.here [] _ (Or.inl rfl) rfl rfl))
  have grammatical : (codeAround [plainLambda]).Grammatical := by
    refine .bare rfl (by decide) ?_ (by decide)
    simp [AreMembers, IsMember, AreCode, IsCode, plainLambda]
  obtain ⟨built, after, laid, edited_laid, -, -, -, scope, scope_eq, -, each⟩ :=
    renumbers added grammatical
  let tree : ScopeTree :=
    { records := ((codeAround [plainLambda]).records none 0).toArray
      size_pos := by decide
      parent_root := rfl }
  let edited : ScopeTree :=
    { records := ((codeAround [plainLambda, plainLambda]).records none 0).toArray
      size_pos := by decide
      parent_root := rfl }
  have closed : (codeAround [plainLambda]).layout = .ok (.ofTree tree) := (layout_eq _).trans rfl
  have edited_closed : (codeAround [plainLambda, plainLambda]).layout = .ok (.ofTree edited) :=
    (layout_eq _).trans rfl
  obtain rfl : LabelledTree.ofTree tree = built := Except.ok.inj (closed.symm.trans laid)
  obtain rfl : LabelledTree.ofTree edited = after :=
    Except.ok.inj (edited_closed.symm.trans edited_laid)
  have found : edited.scopeOf 3 = .ok (raised 3 0) := by decide
  have scope_first : scope = 0 := by
    have same := raised_inj (Except.ok.inj (scope_eq.symm.trans found))
    omega
  subst scope_first
  refine ⟨added, grammatical, _, _, laid, edited_laid, ?_, ?_⟩
  · obtain ⟨resolution, resolved, stays, -⟩ := each 6 .lambda (by decide) rfl rfl
    exact ⟨resolution, resolved, stays (by decide)⟩
  · obtain ⟨resolution, resolved, -, moves⟩ := each 8 .lambda (by decide) rfl rfl
    obtain ⟨base, index, outer, -, rfl, later⟩ := moves (by decide)
    exact ⟨base, index, outer, resolved, later⟩

end BinaryName
