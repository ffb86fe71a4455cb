import BinaryName.Proofs.Decl.Encoding
import BinaryName.Proofs.Decl.FirstProblem

/-!
# Labels and expectations

Labels are noted while a nest is laid out and looked up only afterwards.  The layout of an outline
has a label for each labelled entry that unfolding meets, in the order of the meetings, and the
label marks the node that copies this very entry.  An expected name is kept with the label of its
entry, so that of an entry without a label is dropped.
-/

namespace BinaryName

/-- The label that a head puts on a node. -/
def Head.mark? (head : Head) (node : Nat) : Option Label :=
  head.label.map fun text => { text, node := Int.ofNat node, expected := head.expected }

namespace Decl

/-! ## The entries of a nest -/

/-- The labels that entries put on successive nodes. -/
def marks (start : Nat) (entries : List (Except ValueSort Head)) : List Label :=
  (entries.zipIdx start).filterMap fun (entry, node) => entry.toOption.bind (·.mark? node)

theorem marks_cons (start : Nat) (head : Head) (rest : List (Except ValueSort Head)) :
    marks start (.ok head :: rest) = (head.mark? start).toList ++ marks (start + 1) rest := by
  rw [marks, List.zipIdx_cons, List.filterMap_cons]
  cases mark_eq : head.mark? start <;> simp [Except.toOption, mark_eq, marks]

theorem marks_append (start : Nat) (front rest : List (Except ValueSort Head)) :
    marks start (front ++ rest) = marks start front ++ marks (start + front.length) rest := by
  rw [marks, List.zipIdx_append, List.filterMap_append]
  rfl

mutual

theorem length_entries : ∀ decl : Decl, decl.entries.length = decl.count
  | .declare head children => by
      rw [entries, List.length_cons, length_entriesAll children, count]
  | .foreign _ => rfl

theorem length_entriesAll : ∀ decls : List Decl, (entriesAll decls).length = countAll decls
  | [] => rfl
  | decl :: rest => by
      rw [entriesAll, List.length_append, length_entries decl, length_entriesAll rest, countAll]

end

mutual

/-- The labels of a nest are those of its entries, each on the node of its entry. -/
theorem labels_eq_marks (start : Nat) :
    ∀ decl : Decl, decl.labels start = marks start decl.entries
  | .declare head children => by
      rw [labels, entries, marks_cons, labelsAll_eq_marks (start + 1) children]
      cases label_eq : head.label <;> simp [Head.mark?, label_eq]
  | .foreign _ => rfl

theorem labelsAll_eq_marks (start : Nat) :
    ∀ decls : List Decl, labelsAll start decls = marks start (entriesAll decls)
  | [] => rfl
  | decl :: rest => by
      rw [labelsAll, entriesAll, marks_append, length_entries, labels_eq_marks start decl,
        labelsAll_eq_marks (start + decl.count) rest]

end

variable {tree : ScopeTree}

theorem Fills.bears_getElem? {whole : Decl} (fills : whole.Fills tree) {place : Nat}
    {entry : Except ValueSort Head} (found : whole.entries[place]? = some entry) :
    tree.Bears (place : Int) entry := by
  obtain ⟨inside, rfl⟩ := List.getElem?_eq_some_iff.mp found
  have also : place < (handlesFrom 0 whole.count).length := by
    rwa [length_handlesFrom, ← length_entries]
  simpa [handlesFrom] using (bears_entries whole fills.planted).get also inside

/-! ## Labels of a layout -/

/-- Entries without a problem have different labels. -/
theorem nodup_of_problem? {entries : List (Except ValueSort Head)} {taken : List String}
    (distinct : taken.Nodup) (sound : problem? taken entries = none) :
    (taken ++ labelTexts entries).Nodup := by
  induction entries generalizing taken with
  | nil => simpa [labelTexts] using distinct
  | cons entry rest ih =>
      cases entry with
      | error sort => simp [problem?] at sound
      | ok head =>
          rw [problem?, Option.or_eq_none_iff] at sound
          obtain ⟨accepted, others⟩ := sound
          rw [labelTexts_cons, ← List.append_assoc]
          refine ih ?_ others
          cases label_eq : head.label with
          | none => simpa using distinct
          | some label =>
              have new : label ∉ taken := by
                intro member
                have named := head.named_of_objection? accepted
                rw [Head.objection?, if_neg fun missing => missing.2 (named missing.1), label_eq,
                  Option.bind_some, if_pos member] at accepted
                contradiction
              exact List.nodup_append.mpr ⟨distinct, List.nodup_singleton label,
                fun other member same single equal =>
                  new (List.mem_singleton.mp single ▸ equal ▸ member)⟩

/-- The nodes that are marked come in order. -/
theorem map_node_marks_sublist (start : Nat) (entries : List (Except ValueSort Head)) :
    ((marks start entries).map Label.node).Sublist (handlesFrom start entries.length) := by
  induction entries generalizing start with
  | nil => exact List.nil_sublist _
  | cons entry rest ih =>
      rw [List.length_cons, handlesFrom_succ]
      cases entry with
      | error sort => exact (ih (start + 1)).cons _
      | ok head =>
          rw [marks_cons, Head.mark?]
          cases head.label with
          | none => exact (ih (start + 1)).cons _
          | some label => exact (ih (start + 1)).cons_cons _

end Decl

namespace LabelledTree

variable {labelled : LabelledTree} {label : Label} {text other : String} {node : Handle}

theorem exists_label_of_node? (found : labelled.node? text = some node) :
    ∃ label ∈ labelled.labels, label.text = text ∧ label.node = node := by
  obtain ⟨label, label_eq, rfl⟩ := Option.map_eq_some_iff.mp found
  exact ⟨label, List.mem_of_find?_eq_some label_eq, by simpa using List.find?_some label_eq, rfl⟩

/-- Where the labels are different, each is found on its node. -/
theorem node?_of_mem (distinct : (labelled.labels.map Label.text).Nodup)
    (member : label ∈ labelled.labels) : labelled.node? label.text = some label.node := by
  obtain ⟨before, after, split⟩ := List.append_of_mem member
  have none_before : before.find? (·.text == label.text) = none := by
    rw [split, List.map_append, List.nodup_append] at distinct
    rw [List.find?_eq_none]
    intro earlier earlier_member same
    exact distinct.2.2 earlier.text (List.mem_map_of_mem earlier_member) label.text (by simp)
      (eq_of_beq same)
  rw [node?, split, List.find?_append, none_before]
  simp

/-- Where no node has two labels, different labels are on different nodes. -/
theorem text_inj (distinct : (labelled.labels.map Label.node).Nodup)
    (found : labelled.node? text = some node) (also : labelled.node? other = some node) :
    text = other := by
  obtain ⟨first, first_member, rfl, node_eq⟩ := exists_label_of_node? found
  obtain ⟨second, second_member, rfl, rfl⟩ := exists_label_of_node? also
  rw [List.inj_on_of_nodup_map distinct first_member second_member node_eq]

end LabelledTree

namespace Entry

/-- The name that an entry is expected to have. -/
def expected? : Entry → Option String
  | .declaration head _ => head.expected
  | .foreign _ => none

/-- The label that an entry puts on a node. -/
def mark? (entry : Entry) (node : Nat) : Option Label :=
  entry.label?.map fun text => { text, node := Int.ofNat node, expected := entry.expected? }

/-- What an entry has to say about the name of a node: its label, the node and the expected name. -/
def expectationOn? (entry : Entry) (node : Nat) : Option (String × Handle × String) := do
  let text ← entry.label?
  let expected ← entry.expected?
  pure (text, Int.ofNat node, expected)

end Entry

namespace Outline

open Decl

variable {outline : List Entry} {decl : Decl} {built : LabelledTree}

/-- The content of an entry marks as the entry does. -/
theorem marks_map_content (entries : List Entry) :
    marks 0 (entries.map Entry.content) =
      entries.zipIdx.filterMap fun (entry, place) => entry.mark? place := by
  rw [marks, List.zipIdx_map, List.filterMap_map]
  congr 1
  funext ⟨entry, place⟩
  cases entry <;> rfl

/-- An entry of a nest that has been laid out is a declaration, and the node at its place bears
it. -/
theorem exists_declaration (fills : decl.Fills built.tree) {entries : List Entry}
    (content_eq : entries.map Entry.content = decl.entries) {place : Nat} {entry : Entry}
    (found : entries[place]? = some entry) :
    ∃ head children, entry = .declaration head children ∧
      built.tree.kind (Int.ofNat place) = .ok head.kind ∧
      built.tree.name (Int.ofNat place) = .ok head.name := by
  have there : decl.entries[place]? = some entry.content := by
    rw [← content_eq, List.getElem?_map, found, Option.map_some]
  obtain ⟨head, content, kind_eq, name_eq⟩ := fills.bears_getElem? there
  cases entry with
  | foreign sort => simp [Entry.content] at content
  | declaration own children =>
      obtain rfl : own = head := Except.ok.inj content
      exact ⟨own, children, rfl, kind_eq, name_eq⟩

/-- The labels of the layout of an acyclic outline are those of the entries, in the order in which
unfolding meets them, and each marks the node of its entry.  A label leads to a node with the kind
and the name of the entry, and two labels lead to two nodes.  The expectations are those of the
entries that have a label and an expected name, in the same order. -/
theorem layout_keeps_labels (acyclic : Acyclic outline) :
    ∃ decl entries, toDecl? outline = some decl ∧
      (∀ others, Unfolds outline [0] others ↔ others = entries) ∧
      ∀ built, decl.layout = .ok built →
        built.labels = entries.zipIdx.filterMap (fun (entry, place) => entry.mark? place) ∧
        (built.labels.map Label.text).Nodup ∧
        (∀ text other node, built.node? text = some node → built.node? other = some node →
          text = other) ∧
        (∀ place entry text, entries[place]? = some entry → entry.label? = some text →
          built.find (.label text) = .ok (Int.ofNat place) ∧
            ∃ head children, entry = .declaration head children ∧
              built.tree.kind (Int.ofNat place) = .ok head.kind ∧
              built.tree.name (Int.ofNat place) = .ok head.name) ∧
        built.expectations =
          entries.zipIdx.filterMap (fun (entry, place) => entry.expectationOn? place) := by
  obtain ⟨decl, route, entries, unfolds, visits, route_eq, content_eq⟩ := acyclic.exists_visits
  have met : Unfolds outline [0] entries := ⟨route, visits, route_eq⟩
  refine ⟨decl, entries, unfolds,
    fun others => ⟨fun also => also.unique met, fun same => same ▸ met⟩, fun built laid => ?_⟩
  have fills := fills_of_layout laid
  obtain ⟨sound, -, labels_eq⟩ := (decl.layout_eq_ok_iff built).mp laid
  have texts_distinct : (built.labels.map Label.text).Nodup := by
    rw [labels_eq, map_text_labels]
    simpa using nodup_of_problem? .nil sound
  rw [labels_eq_marks] at labels_eq
  have nodes_distinct : (built.labels.map Label.node).Nodup := by
    rw [labels_eq]
    exact (nodup_handlesFrom 0 _).sublist (map_node_marks_sublist 0 decl.entries)
  rw [← content_eq, marks_map_content] at labels_eq
  refine ⟨labels_eq, texts_distinct, fun text other node => LabelledTree.text_inj nodes_distinct,
    ?_, ?_⟩
  · intro place entry text found label_eq
    refine ⟨?_, exists_declaration fills content_eq found⟩
    have member :
        { text, node := Int.ofNat place, expected := entry.expected? } ∈ built.labels := by
      rw [labels_eq, List.mem_filterMap]
      exact ⟨(entry, place), List.mk_mem_zipIdx_iff_getElem?.mpr found,
        by simp [Entry.mark?, label_eq]⟩
    rw [LabelledTree.find, LabelledTree.node?_of_mem texts_distinct member]
  · rw [LabelledTree.expectations, labels_eq, List.filterMap_filterMap]
    congr 1
    funext ⟨entry, place⟩
    simp only [Entry.expectationOn?, Entry.mark?]
    cases entry.label? <;> cases entry.expected? <;> rfl

/-- A file that names a class twice, which expects a name but has no label, and between a function
with an empty label and a labelled lambda of which nothing is expected. -/
def markedEntries : List Entry :=
  [.declaration { kind := .file, name := some "a.kt", label := none, expected := none } [1, 2, 1],
    .declaration { kind := .klass, name := some "A", label := none, expected := some "A" } [3],
    .declaration { kind := .function, name := some "f", label := some "", expected := some "a_kt" }
      [4],
    .declaration { kind := .function, name := some "g", label := none, expected := none } [],
    .declaration { kind := .lambda, name := none, label := some "it", expected := none } []]

/-- The function is at the fourth place and the lambda at the fifth, and only the function has an
expectation. -/
theorem layout_keeps_labels_markedEntries :
    ∃ decl built, toDecl? markedEntries = some decl ∧ decl.layout = .ok built ∧
      (∃ entries, Unfolds markedEntries [0] entries ∧ entries.length = 7 ∧
        entries[4]? = markedEntries[4]? ∧ built.find (.label "it") = .ok 4) ∧
      built.labels =
        [{ text := "", node := 3, expected := some "a_kt" },
          { text := "it", node := 4, expected := none }] ∧
      built.expectations = [("", 3, "a_kt")] := by
  let klassHead : Head := { Head.unmarked .klass "A" with expected := some "A" }
  let functionHead : Head :=
    { Head.unmarked .function "f" with label := some "", expected := some "a_kt" }
  let lambdaHead : Head := { Head.unmarked .lambda none with label := some "it" }
  let klass : Entry := .declaration klassHead [3]
  let member : Entry := .declaration (.unmarked .function "g") []
  let lambda : Entry := .declaration lambdaHead []
  let nested : Decl := .declare klassHead [.declare (.unmarked .function "g") []]
  let decl : Decl :=
    .declare (.unmarked .file "a.kt")
      [nested, .declare functionHead [.declare lambdaHead []], nested]
  have unfolds : toDecl? markedEntries = some decl := rfl
  have visits : Visits markedEntries [0] [0, 1, 3, 2, 4, 1, 3] :=
    .visit rfl <| .visit rfl <| .visit rfl <| .visit rfl <| .visit rfl <| .visit rfl <|
      .visit rfl .done
  have met : Unfolds markedEntries [0]
      [.declaration (.unmarked .file "a.kt") [1, 2, 1], klass, member,
        .declaration functionHead [4], lambda, klass, member] := ⟨_, visits, rfl⟩
  obtain ⟨built, laid⟩ : ∃ built, decl.layout = .ok built := exists_layout rfl
  have acyclic : Acyclic markedEntries := acyclic_of_forward (by decide) (by decide)
  obtain ⟨given, entries, given_eq, unique, keeps⟩ := layout_keeps_labels acyclic
  obtain rfl : decl = given := Option.some.inj (unfolds.symm.trans given_eq)
  obtain rfl := (unique _).mp met
  obtain ⟨labels_eq, -, -, found, expectations_eq⟩ := keeps built laid
  exact ⟨decl, built, unfolds, laid, ⟨_, met, rfl, rfl, (found 4 lambda "it" rfl rfl).1⟩, labels_eq,
    expectations_eq⟩

end Outline

end BinaryName
