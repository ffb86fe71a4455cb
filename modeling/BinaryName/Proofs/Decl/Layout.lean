import BinaryName.Decl.Layout

/-!
# Layouts in closed form

The loop that lays out a nest appends records one by one and lists each of them in the record of its
parent long after that record has been made.  Its stack is first traded for a recursion over the
nest: all that a nest puts on the stack is gone before what was below it comes up.  Then the same
records are written down at once, where those of a nest depend on the nest, its parent and its first
handle only.  The entries of the nest in preorder decide whether there is a layout.
-/

namespace BinaryName

/-- Why a head cannot come after others with the given labels. -/
def Head.objection? (head : Head) (taken : List String) : Option TreeFault :=
  if head.name = none ∧ head.kind ≠ .lambda then
    match head.kind.title? with
    | some title => some (.nameless title)
    | none => some .untitledKind
  else
    head.label.bind fun label => if label ∈ taken then some (.duplicateLabel label) else none

theorem Head.named_of_objection? {head : Head} {taken : List String}
    (sound : head.objection? taken = none) : head.name = none → head.kind = .lambda := by
  intro nameless
  by_cases lambda : head.kind = .lambda
  · exact lambda
  · rw [objection?, if_pos ⟨nameless, lambda⟩] at sound
    split at sound <;> contradiction

namespace Decl

/-! ## Entries in preorder -/

mutual

/-- The entries of a nest in preorder: heads, and the sorts of values that are no declarations. -/
def entries : Decl → List (Except ValueSort Head)
  | .declare head children => .ok head :: entriesAll children
  | .foreign sort => [.error sort]

/-- The entries of several nests in preorder. -/
def entriesAll : List Decl → List (Except ValueSort Head)
  | [] => []
  | decl :: rest => decl.entries ++ entriesAll rest

end

/-- The labels among some entries. -/
def labelTexts (entries : List (Except ValueSort Head)) : List String :=
  entries.filterMap fun entry => entry.toOption.bind Head.label

theorem labelTexts_cons (head : Head) (rest : List (Except ValueSort Head)) :
    labelTexts (.ok head :: rest) = head.label.toList ++ labelTexts rest := by
  cases label_eq : head.label <;> simp [labelTexts, Except.toOption, label_eq]

/-- The first problem among some entries, when the given labels are taken. -/
def problem? (taken : List String) : List (Except ValueSort Head) → Option TreeFault
  | [] => none
  | .error sort :: _ => some (.notADeclaration sort)
  | .ok head :: rest => (head.objection? taken).or (problem? (taken ++ head.label.toList) rest)

theorem problem?_append (taken : List String) (front rest : List (Except ValueSort Head)) :
    problem? taken (front ++ rest) =
      (problem? taken front).or (problem? (taken ++ labelTexts front) rest) := by
  induction front generalizing taken with
  | nil => simp [problem?, labelTexts]
  | cons entry front ih =>
      cases entry with
      | error sort => rfl
      | ok head =>
          rw [List.cons_append, problem?, problem?, ih, labelTexts_cons, List.append_assoc]
          cases head.objection? taken <;> rfl

/-! ## Records and labels -/

/-- The first handles of nests that stand one after the other. -/
def starts (start : Nat) : List Decl → List Handle
  | [] => []
  | decl :: rest => Int.ofNat start :: starts (start + decl.count) rest

theorem starts_append (start : Nat) (before after : List Decl) :
    starts start (before ++ after) =
      starts start before ++ starts (start + countAll before) after := by
  induction before generalizing start with
  | nil => rfl
  | cons decl rest ih =>
      rw [List.cons_append, starts, starts, ih, countAll, Nat.add_assoc, List.cons_append]

theorem length_starts (start : Nat) (decls : List Decl) :
    (starts start decls).length = decls.length := by
  induction decls generalizing start with
  | nil => rfl
  | cons decl rest ih => rw [starts, List.length_cons, List.length_cons, ih]

mutual

/-- The records of a nest whose first handle is given. -/
def records (parent : Option Nat) (start : Nat) : Decl → List Record
  | .declare head children =>
      { kind := head.kind, name := head.name, parent := parent.map Int.ofNat,
        children := starts (start + 1) children } :: recordsAll start (start + 1) children
  | .foreign _ => []

/-- The records of several nests below one parent. -/
def recordsAll (parent start : Nat) : List Decl → List Record
  | [] => []
  | decl :: rest =>
      decl.records (some parent) start ++ recordsAll parent (start + decl.count) rest

end

mutual

/-- The labels in a nest whose first handle is given. -/
def labels (start : Nat) : Decl → List Label
  | .declare head children =>
      head.label.toList.map (fun text =>
        { text, node := Int.ofNat start, expected := head.expected }) ++
        labelsAll (start + 1) children
  | .foreign _ => []

/-- The labels in several nests. -/
def labelsAll (start : Nat) : List Decl → List Label
  | [] => []
  | decl :: rest => decl.labels start ++ labelsAll (start + decl.count) rest

end

mutual

theorem map_text_labels (start : Nat) :
    ∀ decl : Decl, (decl.labels start).map Label.text = labelTexts decl.entries
  | .declare head children => by
      have below := map_text_labelsAll (start + 1) children
      cases label_eq : head.label <;>
        simp_all [labels, entries, labelTexts, Except.toOption]
  | .foreign sort => rfl

theorem map_text_labelsAll (start : Nat) :
    ∀ decls : List Decl, (labelsAll start decls).map Label.text = labelTexts (entriesAll decls)
  | [] => rfl
  | decl :: rest => by
      have first := map_text_labels start decl
      have others := map_text_labelsAll (start + decl.count) rest
      simp_all [labelsAll, entriesAll, labelTexts]

end

mutual

/-- A nest without problems has a record for every entry. -/
theorem length_records {taken : List String} (parent : Option Nat) (start : Nat) :
    ∀ decl : Decl, problem? taken decl.entries = none →
      (decl.records parent start).length = decl.count
  | .declare head children, sound => by
      rw [entries, problem?, Option.or_eq_none_iff] at sound
      rw [records, List.length_cons, length_recordsAll start (start + 1) children sound.2, count]
  | .foreign sort, sound => by simp [entries, problem?] at sound

theorem length_recordsAll {taken : List String} (parent start : Nat) :
    ∀ decls : List Decl, problem? taken (entriesAll decls) = none →
      (recordsAll parent start decls).length = countAll decls
  | [], _ => rfl
  | decl :: rest, sound => by
      rw [entriesAll, problem?_append, Option.or_eq_none_iff] at sound
      rw [recordsAll, List.length_append, length_records (some parent) start decl sound.1,
        length_recordsAll parent (start + decl.count) rest sound.2, countAll]

end

end Decl

/-! ## The draft after a nest -/

namespace Draft

/-- The labels that are taken in a draft. -/
def taken (draft : Draft) : List String := draft.labels.toList.map Label.text

theorem objection?_eq (draft : Draft) (head : Head) :
    draft.objection? head = head.objection? draft.taken := by
  have taken_iff (label : String) :
      draft.labels.any (·.text == label) = true ↔ label ∈ draft.taken := by
    rw [taken, List.mem_map, Array.any_eq_true']
    simp
  unfold objection? Head.objection?
  split
  · rfl
  · simp only [taken_iff]

/-- The records with some handles added to the children of a parent. -/
def adopt (listed : List Handle) (records : List Record) : Option Nat → List Record
  | none => records
  | some parent => records.modify parent fun record =>
      { record with children := record.children ++ listed }

@[simp] theorem length_adopt (listed : List Handle) (records : List Record) (parent : Option Nat) :
    (adopt listed records parent).length = records.length := by
  cases parent <;> simp [adopt]

theorem adopt_nil (records : List Record) (parent : Option Nat) :
    adopt [] records parent = records := by
  cases parent with
  | none => rfl
  | some parent =>
      simp only [adopt, List.append_nil]
      exact List.modify_id parent records

theorem adopt_adopt (first second : List Handle) (records : List Record) (parent : Option Nat) :
    adopt second (adopt first records parent) parent = adopt (first ++ second) records parent := by
  cases parent with
  | none => rfl
  | some parent =>
      simp only [adopt, List.modify_modify_eq, Function.comp_def, List.append_assoc]

theorem adopt_append {listed : List Handle} {older newer : List Record} {parent : Option Nat}
    (present : ∀ place ∈ parent, place < older.length) :
    adopt listed (older ++ newer) parent = adopt listed older parent ++ newer := by
  cases parent with
  | none => rfl
  | some place =>
      have inside : place < older.length := present place rfl
      simp only [adopt]
      clear present
      induction older generalizing place with
      | nil => simp at inside
      | cons record older ih =>
          cases place with
          | zero => rfl
          | succ place => simpa using ih place (by simpa using inside)

theorem adopt_last (listed : List Handle) (older newer : List Record) (record : Record) :
    adopt listed (older ++ record :: newer) (some older.length) =
      older ++ { record with children := record.children ++ listed } :: newer := by
  simp only [adopt]
  induction older with
  | nil => rfl
  | cons first older ih => simpa using ih

/-- A draft with records and labels added, and some of the records listed below a parent. -/
def graft (draft : Draft) (parent : Option Nat) (listed : List Handle) (records : List Record)
    (labels : List Label) : Draft :=
  { records := (adopt listed draft.records.toList parent ++ records).toArray
    labels := (draft.labels.toList ++ labels).toArray }

theorem graft_nil (draft : Draft) (parent : Option Nat) : draft.graft parent [] [] [] = draft := by
  simp [graft, adopt_nil]

@[simp] theorem size_graft (draft : Draft) (parent : Option Nat) (listed : List Handle)
    (records : List Record) (labels : List Label) :
    (draft.graft parent listed records labels).records.size =
      draft.records.size + records.length := by
  simp [graft]

@[simp] theorem taken_graft (draft : Draft) (parent : Option Nat) (listed : List Handle)
    (records : List Record) (labels : List Label) :
    (draft.graft parent listed records labels).taken =
      draft.taken ++ labels.map Label.text := by
  simp [graft, taken]

/-- Two grafts below one parent are one. -/
theorem graft_graft {draft : Draft} {parent : Option Nat}
    (present : ∀ place ∈ parent, place < draft.records.size) (first second : List Handle)
    (records others : List Record) (labels more : List Label) :
    (draft.graft parent first records labels).graft parent second others more =
      draft.graft parent (first ++ second) (records ++ others) (labels ++ more) := by
  have inside : ∀ place ∈ parent, place < (adopt first draft.records.toList parent).length := by
    simpa using present
  simp only [graft, adopt_append inside, adopt_adopt, List.append_assoc]

/-- What is grafted below the record that a graft begins with belongs to that graft. -/
theorem graft_graft_below (draft : Draft) (parent : Option Nat) (listed below : List Handle)
    (record : Record) (others : List Record) (labels more : List Label) :
    (draft.graft parent listed [record] labels).graft (some draft.records.size) below others more =
      draft.graft parent listed
        ({ record with children := record.children ++ below } :: others) (labels ++ more) := by
  have size_eq : draft.records.size = (adopt listed draft.records.toList parent).length := by simp
  simp only [graft, size_eq, adopt_last, List.append_assoc, List.cons_append, List.nil_append]

theorem enter_eq (draft : Draft) (head : Head) (parent : Option Nat) :
    draft.enter head parent =
      draft.graft parent [Int.ofNat draft.records.size]
        [{ kind := head.kind, name := head.name, parent := parent.map Int.ofNat, children := [] }]
        (head.label.toList.map fun text =>
          { text, node := Int.ofNat draft.records.size, expected := head.expected }) := by
  unfold enter graft adopt
  cases parent <;> cases head.label <;> simp [← Array.toList_inj]

end Draft

namespace Decl

/-! ## From the stack to the nest -/

mutual

/-- The draft with a nest put below a parent. -/
def place (parent : Option Nat) (draft : Draft) : Decl → Except TreeFault Draft
  | .foreign sort => .error (.notADeclaration sort)
  | .declare head children =>
      match draft.objection? head with
      | some fault => .error fault
      | none => placeAll draft.records.size (draft.enter head parent) children

/-- The draft with several nests put below a parent, one after the other. -/
def placeAll (parent : Nat) (draft : Draft) : List Decl → Except TreeFault Draft
  | [] => .ok draft
  | decl :: rest => do
      let placed ← decl.place (some parent) draft
      placeAll parent placed rest

end

mutual

/-- A nest on top of the stack is entered with all that is in it before the rest of the stack. -/
theorem enterAll_cons {parent : Option Nat} {draft : Draft} {stack : List (Decl × Option Nat)} :
    ∀ decl : Decl, draft.enterAll ((decl, parent) :: stack) =
      (decl.place parent draft).bind (·.enterAll stack)
  | .foreign sort => by
      rw [Draft.enterAll, place]
      rfl
  | .declare head children => by
      rw [Draft.enterAll, place]
      cases draft.objection? head with
      | some fault => rfl
      | none => exact enterAll_append children

theorem enterAll_append {parent : Nat} {draft : Draft} {stack : List (Decl × Option Nat)} :
    ∀ decls : List Decl, draft.enterAll (decls.map (·, some parent) ++ stack) =
      (placeAll parent draft decls).bind (·.enterAll stack)
  | [] => rfl
  | decl :: rest => by
      rw [List.map_cons, List.cons_append, enterAll_cons decl, placeAll]
      cases decl.place (some parent) draft with
      | error fault => rfl
      | ok placed => exact enterAll_append rest

end

/-- Laying out a nest with the stack is placing it below no parent. -/
theorem layout_eq (decl : Decl) :
    decl.layout = (do
      let draft ← decl.place none .empty
      let tree ← ScopeTree.ofRecords draft.records
      pure { tree, labels := draft.labels.toList }) := by
  rw [layout, enterAll_cons]
  cases decl.place none .empty with
  | error fault => rfl
  | ok draft =>
      change (Draft.enterAll draft []).bind _ = _
      rw [Draft.enterAll]
      rfl

/-! ## From the nest to its records -/

mutual

/-- Placing a nest grafts its records and labels, or stops at its first problem. -/
theorem place_eq {parent : Option Nat} {draft : Draft} :
    ∀ decl : Decl, decl.place parent draft =
      match problem? draft.taken decl.entries with
      | some fault => .error fault
      | none => .ok (draft.graft parent [Int.ofNat draft.records.size]
          (decl.records parent draft.records.size) (decl.labels draft.records.size))
  | .foreign sort => rfl
  | .declare head children => by
      rw [place, entries, problem?, Draft.objection?_eq]
      cases head.objection? draft.taken with
      | some fault => rfl
      | none =>
          have entered := Draft.enter_eq draft head parent
          have taken_eq : (draft.enter head parent).taken = draft.taken ++ head.label.toList := by
            simp [entered, Function.comp_def]
          have size_eq : (draft.enter head parent).records.size = draft.records.size + 1 := by
            simp [entered]
          have below :=
            @placeAll_eq draft.records.size (draft.enter head parent) (by omega) children
          rw [taken_eq, size_eq] at below
          simp only [below, Option.none_or]
          cases problem? (draft.taken ++ head.label.toList) (entriesAll children) with
          | some fault => rfl
          | none =>
              simp only [entered, Draft.graft_graft_below, List.nil_append, records, labels]

theorem placeAll_eq {parent : Nat} {draft : Draft} (present : parent < draft.records.size) :
    ∀ decls : List Decl, placeAll parent draft decls =
      match problem? draft.taken (entriesAll decls) with
      | some fault => .error fault
      | none => .ok (draft.graft (some parent) (starts draft.records.size decls)
          (recordsAll parent draft.records.size decls) (labelsAll draft.records.size decls))
  | [] => by simp [placeAll, entriesAll, problem?, starts, recordsAll, labelsAll, Draft.graft_nil]
  | decl :: rest => by
      have first := @place_eq (some parent) draft decl
      rw [placeAll, first, entriesAll, problem?_append]
      cases sound : problem? draft.taken decl.entries with
      | some fault => rfl
      | none =>
          let placed := draft.graft (some parent) [Int.ofNat draft.records.size]
            (decl.records (some parent) draft.records.size) (decl.labels draft.records.size)
          have taken_eq : placed.taken = draft.taken ++ labelTexts decl.entries := by
            simp [placed, map_text_labels]
          have size_eq : placed.records.size = draft.records.size + decl.count := by
            simp [placed, length_records (some parent) draft.records.size decl sound]
          have others := @placeAll_eq parent placed (by omega) rest
          rw [taken_eq, size_eq] at others
          change placeAll parent placed rest = _
          simp only [others, Option.none_or]
          cases problem? (draft.taken ++ labelTexts decl.entries) (entriesAll rest) with
          | some fault => rfl
          | none =>
              have present' : ∀ place ∈ some parent, place < draft.records.size := by
                simpa using present
              simp only [placed, Draft.graft_graft present', starts, recordsAll, labelsAll,
                List.singleton_append]

end

end Decl

theorem ScopeTree.ofRecords_records (tree : ScopeTree) : ofRecords tree.records = .ok tree := by
  rw [ofRecords, dif_pos tree.size_pos, dif_pos tree.parent_root]

theorem ScopeTree.records_of_ofRecords {records : Array Record} {tree : ScopeTree}
    (made : ofRecords records = .ok tree) : tree.records = records := by
  unfold ofRecords at made
  split at made
  · split at made
    · injection made with made
      rw [← made]
    · contradiction
  · contradiction

/-- A nest has a layout exactly if none of its entries is a problem, and then its records and labels
are those of the closed form. -/
theorem Decl.layout_eq_ok_iff (decl : Decl) (built : LabelledTree) :
    decl.layout = .ok built ↔
      problem? [] decl.entries = none ∧ built.tree.records = (decl.records none 0).toArray ∧
        built.labels = decl.labels 0 := by
  have placed := @place_eq none .empty decl
  rw [show Draft.empty.taken = [] from rfl] at placed
  cases sound : problem? [] decl.entries with
  | some fault => simp [layout_eq, placed, sound, bind, Except.bind]
  | none =>
      have grown : Draft.empty.graft none [Int.ofNat 0] (decl.records none 0) (decl.labels 0) =
          { records := (decl.records none 0).toArray, labels := (decl.labels 0).toArray } := by
        simp [Draft.graft, Draft.adopt, Draft.empty]
      have closed : decl.layout =
          (ScopeTree.ofRecords (decl.records none 0).toArray).map fun tree =>
            { tree, labels := decl.labels 0 } := by
        rw [layout_eq, placed, sound]
        simp only [show Draft.empty.records.size = 0 from rfl, grown, bind, Except.bind, pure,
          Except.pure, List.toList_toArray]
        cases ScopeTree.ofRecords (decl.records none 0).toArray <;> rfl
      rw [closed]
      constructor
      · intro built_eq
        cases made : ScopeTree.ofRecords (decl.records none 0).toArray with
        | error fault => simp [made, Except.map] at built_eq
        | ok tree =>
            rw [made] at built_eq
            injection built_eq with built_eq
            subst built_eq
            exact ⟨rfl, ScopeTree.records_of_ofRecords made, rfl⟩
      · rintro ⟨-, records_eq, labels_eq⟩
        rw [← records_eq, ScopeTree.ofRecords_records, ← labels_eq]
        rfl

/-- A nest without problems has a layout. -/
theorem Decl.exists_layout {decl : Decl} (sound : problem? [] decl.entries = none) :
    ∃ built, decl.layout = .ok built := by
  cases decl with
  | foreign sort => simp [entries, problem?] at sound
  | declare head children =>
      let records := ((declare head children).records none 0).toArray
      let tree : ScopeTree :=
        { records, size_pos := by simp [records, Decl.records]
          parent_root := by simp [records, Decl.records] }
      exact ⟨{ tree, labels := (declare head children).labels 0 },
        (layout_eq_ok_iff _ _).mpr ⟨sound, rfl, rfl⟩⟩

/-- A nest with a problem has no layout, and its first problem is the fault. -/
theorem Decl.layout_eq_error_iff (decl : Decl) (fault : TreeFault) :
    decl.layout = .error fault ↔ problem? [] decl.entries = some fault := by
  have placed := @place_eq none .empty decl
  rw [show Draft.empty.taken = [] from rfl] at placed
  cases sound : problem? [] decl.entries with
  | some first => simp [layout_eq, placed, sound, bind, Except.bind]
  | none =>
      obtain ⟨built, laid⟩ := exists_layout sound
      simp [laid]

end BinaryName
