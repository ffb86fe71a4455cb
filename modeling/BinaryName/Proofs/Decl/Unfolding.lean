import Mathlib.Data.List.Forall2
import BinaryName.Decl.Outline
import BinaryName.Proofs.Decl.Layout

/-!
# Unfolding an outline

Unfolding an outline goes through its entries depth first, through a shared entry once for every
place that names it.  There is a nest to unfold into exactly if every entry that is reached names
later entries only, and then the entries of the nest are those that are gone through, in the same
order.
-/

namespace BinaryName

namespace Entry

/-- The places of what is in an entry. -/
def children : Entry → List Nat
  | .declaration _ children => children
  | .foreign _ => []

/-- What an entry puts into a nest. -/
def content : Entry → Except ValueSort Head
  | .declaration head _ => .ok head
  | .foreign sort => .error sort

end Entry

namespace Outline

/-! ## The entries that unfolding goes through -/

/-- The places that are gone through from a stack of places.  The entry on top comes next, whatever
it is, and its children take its place on the stack. -/
inductive Visits (outline : List Entry) : List Nat → List Nat → Prop
  /-- Nothing is left. -/
  | done : Visits outline [] []
  /-- There is an entry at the place on top. -/
  | visit {place : Nat} {entry : Entry} {stack rest : List Nat}
      (entry_eq : outline[place]? = some entry)
      (later : Visits outline (entry.children ++ stack) rest) :
      Visits outline (place :: stack) (place :: rest)

/-- The entries that unfolding meets from a stack of places: those at the places it goes through. -/
def Unfolds (outline : List Entry) (stack : List Nat) (entries : List Entry) : Prop :=
  ∃ route, Visits outline stack route ∧ route.map (outline[·]?) = entries.map some

/-- The places that are reached from the first. -/
inductive Reaches (outline : List Entry) : Nat → Prop
  /-- The first place. -/
  | first : Reaches outline 0
  /-- A place that is named by an entry at a reached place. -/
  | child {place child : Nat} {entry : Entry} (reached : Reaches outline place)
      (entry_eq : outline[place]? = some entry) (member : child ∈ entry.children) :
      Reaches outline child

/-- At every place that is reached there is an entry, and it names later places only. -/
def Acyclic (outline : List Entry) : Prop :=
  ∀ place, Reaches outline place →
    ∃ entry, outline[place]? = some entry ∧ ∀ child ∈ entry.children, place < child

variable {outline : List Entry}

theorem Visits.unique {stack route other : List Nat} (visits : Visits outline stack route)
    (also : Visits outline stack other) : route = other := by
  induction visits generalizing other with
  | done =>
      cases also
      rfl
  | visit entry_eq _ ih =>
      cases also with
      | visit other_eq later =>
          obtain rfl := Option.some.inj (entry_eq.symm.trans other_eq)
          rw [ih later]

/-- From a stack of places unfolding meets these entries and no others. -/
theorem Unfolds.unique {stack : List Nat} {entries others : List Entry}
    (unfolds : Unfolds outline stack entries) (also : Unfolds outline stack others) :
    entries = others := by
  obtain ⟨route, visits, entries_eq⟩ := unfolds
  obtain ⟨other, other_visits, others_eq⟩ := also
  obtain rfl := visits.unique other_visits
  exact List.map_injective_iff.mpr (fun _ _ => Option.some.inj) (entries_eq.symm.trans others_eq)

/-- An outline is acyclic if all its entries, reached or not, name later ones only. -/
theorem acyclic_of_forward (inhabited : 0 < outline.length)
    (forward : ∀ place, ∀ inside : place < outline.length,
      ∀ child ∈ outline[place].children, place < child ∧ child < outline.length) :
    Acyclic outline := by
  have inside : ∀ place, Reaches outline place → place < outline.length := by
    intro place reached
    cases reached with
    | first => exact inhabited
    | child _ entry_eq member =>
        obtain ⟨above_inside, rfl⟩ := List.getElem?_eq_some_iff.mp entry_eq
        exact (forward _ above_inside _ member).2
  intro place reached
  refine ⟨_, List.getElem?_eq_getElem (inside place reached), fun child member => ?_⟩
  exact (forward place (inside place reached) child member).1

/-! ## The nest of an outline -/

/-- The nest at a place of an outline, if there is one. -/
def nestAt? (outline : List Entry) (place : Nat) : Option Decl :=
  (nestsFrom 0 outline)[place]?.join

theorem toDecl?_eq (outline : List Entry) : toDecl? outline = nestAt? outline 0 := by
  rw [toDecl?, nestAt?, List.head?_eq_getElem?]

theorem drop_nestsFrom (start count : Nat) (outline : List Entry) :
    (nestsFrom start outline).drop count = nestsFrom (start + count) (outline.drop count) := by
  induction count generalizing start outline with
  | zero => rfl
  | succ count ih =>
      cases outline with
      | nil => rfl
      | cons entry rest =>
          rw [nestsFrom, List.drop_succ_cons, List.drop_succ_cons, ih]
          congr 1
          omega

theorem nestAt?_eq (outline : List Entry) (place : Nat) :
    nestAt? outline place =
      outline[place]?.bind (nest? place ((nestsFrom 0 outline).drop (place + 1))) := by
  have dropped := drop_nestsFrom 0 place outline
  rw [Nat.zero_add] at dropped
  have here : (nestsFrom 0 outline)[place]? = (nestsFrom place (outline.drop place))[0]? := by
    rw [← dropped, List.getElem?_drop, Nat.add_zero]
  have after : (nestsFrom 0 outline).drop (place + 1) =
      nestsFrom (place + 1) (outline.drop (place + 1)) := by
    rw [drop_nestsFrom, Nat.zero_add]
  have entry_eq : outline[place]? = (outline.drop place)[0]? := by
    rw [List.getElem?_drop, Nat.add_zero]
  rw [nestAt?, here, after, entry_eq, ← List.drop_drop]
  cases outline.drop place with
  | nil => rfl
  | cons entry rest => rfl

theorem later_nest_eq {place child : Nat} (later : place < child) (outline : List Entry) :
    ((nestsFrom 0 outline).drop (place + 1))[child - place - 1]?.join = nestAt? outline child := by
  rw [List.getElem?_drop, nestAt?, show place + 1 + (child - place - 1) = child by omega]

theorem forall₂_of_mapM_eq_some {α β : Type} {f : α → Option β} {inputs : List α}
    {outputs : List β} (mapped : inputs.mapM f = some outputs) :
    List.Forall₂ (fun input output => f input = some output) inputs outputs := by
  induction inputs generalizing outputs with
  | nil =>
      obtain rfl : [] = outputs := by simpa using mapped
      exact .nil
  | cons input rest ih =>
      rw [List.mapM_cons] at mapped
      obtain ⟨output, output_eq, mapped⟩ := Option.bind_eq_some_iff.mp mapped
      obtain ⟨others, others_eq, mapped⟩ := Option.bind_eq_some_iff.mp mapped
      obtain rfl : output :: others = outputs := by simpa using mapped
      exact .cons output_eq (ih others_eq)

theorem exists_of_mem_left {α β : Type} {related : α → β → Prop} {inputs : List α}
    {outputs : List β} (pairs : List.Forall₂ related inputs outputs) {input : α}
    (member : input ∈ inputs) : ∃ output, related input output := by
  induction pairs with
  | nil => contradiction
  | cons first _ ih =>
      rcases List.mem_cons.mp member with rfl | later
      · exact ⟨_, first⟩
      · exact ih later

/-- A nest that is a declaration stands at an entry for that declaration, which names later entries
only.  The nests in it stand at the children of the entry. -/
theorem exists_entry_of_nestAt? {place : Nat} {head : Head} {nested : List Decl}
    (nest_eq : nestAt? outline place = some (.declare head nested)) :
    ∃ children, outline[place]? = some (.declaration head children) ∧
      (∀ child ∈ children, place < child) ∧
      List.Forall₂ (fun child nest => nestAt? outline child = some nest) children nested := by
  rw [nestAt?_eq] at nest_eq
  obtain ⟨entry, entry_eq, nest_eq⟩ := Option.bind_eq_some_iff.mp nest_eq
  cases entry with
  | foreign sort => simp [nest?] at nest_eq
  | declaration named children =>
      rw [nest?] at nest_eq
      obtain ⟨nests, mapped, nest_eq⟩ := Option.bind_eq_some_iff.mp nest_eq
      obtain ⟨rfl, rfl⟩ : named = head ∧ nests = nested := by simpa using nest_eq
      refine ⟨children, entry_eq, (List.forall₂_and_left _ _).mp
        ((forall₂_of_mapM_eq_some mapped).imp fun child nest child_eq => ?_)⟩
      by_cases later : place < child
      · rw [if_pos later, later_nest_eq later] at child_eq
        exact ⟨later, child_eq⟩
      · simp [later] at child_eq

theorem entry_of_nestAt?_foreign {place : Nat} {sort : ValueSort}
    (nest_eq : nestAt? outline place = some (.foreign sort)) :
    outline[place]? = some (.foreign sort) := by
  rw [nestAt?_eq] at nest_eq
  obtain ⟨entry, entry_eq, nest_eq⟩ := Option.bind_eq_some_iff.mp nest_eq
  cases entry with
  | foreign other =>
      obtain rfl : other = sort := by simpa [nest?] using nest_eq
      exact entry_eq
  | declaration head children =>
      rw [nest?] at nest_eq
      obtain ⟨nests, -, nest_eq⟩ := Option.bind_eq_some_iff.mp nest_eq
      simp at nest_eq

theorem exists_mapM_eq_some {α β : Type} {f : α → Option β} {inputs : List α}
    (each : ∀ input ∈ inputs, ∃ output, f input = some output) :
    ∃ outputs, inputs.mapM f = some outputs := by
  induction inputs with
  | nil => exact ⟨[], rfl⟩
  | cons input rest ih =>
      obtain ⟨⟨output, output_eq⟩, others⟩ := List.forall_mem_cons.mp each
      obtain ⟨outputs, outputs_eq⟩ := ih others
      exact ⟨output :: outputs, by rw [List.mapM_cons, output_eq, outputs_eq]; rfl⟩

/-- There is a nest at every place that an acyclic outline reaches. -/
theorem Acyclic.exists_nestAt? (acyclic : Acyclic outline) {place : Nat}
    (reached : Reaches outline place) : ∃ nest, nestAt? outline place = some nest := by
  induction spare : outline.length - place using Nat.strongRecOn generalizing place with
  | ind spare ih =>
      obtain ⟨entry, entry_eq, forward⟩ := acyclic place reached
      have inside : place < outline.length := (List.getElem?_eq_some_iff.mp entry_eq).choose
      rw [nestAt?_eq, entry_eq, Option.bind_some]
      cases entry with
      | foreign sort => exact ⟨.foreign sort, rfl⟩
      | declaration head children =>
          have each : ∀ child ∈ children, ∃ nest, (if place < child then
              ((nestsFrom 0 outline).drop (place + 1))[child - place - 1]?.join else none) =
                some nest := by
            intro child member
            have later : place < child := forward child member
            rw [if_pos later, later_nest_eq later]
            exact ih _ (by omega) (.child reached entry_eq member) rfl
          obtain ⟨nested, nested_eq⟩ := exists_mapM_eq_some each
          exact ⟨.declare head nested, by rw [nest?, nested_eq]; rfl⟩

/-- The places that are reached from a nest have nests themselves. -/
theorem Reaches.exists_nestAt? {decl : Decl} (unfolds : toDecl? outline = some decl) {place : Nat}
    (reached : Reaches outline place) : ∃ nest, nestAt? outline place = some nest := by
  induction reached with
  | first => exact ⟨decl, by rwa [← toDecl?_eq]⟩
  | child _ entry_eq member ih =>
      obtain ⟨nest, nest_eq⟩ := ih
      cases nest with
      | foreign sort =>
          obtain rfl := Option.some.inj (entry_eq.symm.trans (entry_of_nestAt?_foreign nest_eq))
          contradiction
      | declare head nested =>
          obtain ⟨children, found, -, below⟩ := exists_entry_of_nestAt? nest_eq
          obtain rfl := Option.some.inj (entry_eq.symm.trans found)
          exact exists_of_mem_left below member

/-- An outline unfolds into a nest exactly if it is acyclic. -/
theorem exists_toDecl?_iff : (∃ decl, toDecl? outline = some decl) ↔ Acyclic outline := by
  constructor
  · rintro ⟨decl, unfolds⟩ place reached
    obtain ⟨nest, nest_eq⟩ := reached.exists_nestAt? unfolds
    cases nest with
    | foreign sort =>
        exact ⟨_, entry_of_nestAt?_foreign nest_eq, fun child member => nomatch member⟩
    | declare head nested =>
        obtain ⟨children, entry_eq, forward, -⟩ := exists_entry_of_nestAt? nest_eq
        exact ⟨_, entry_eq, forward⟩
  · intro acyclic
    rw [toDecl?_eq]
    exact acyclic.exists_nestAt? .first

/-! ## The entries of the nest -/

mutual

/-- The entries of the nest at a place are gone through first, whatever is still to come on the
stack. -/
theorem exists_visits :
    ∀ (nest : Decl) (place : Nat), nestAt? outline place = some nest →
      ∃ (route : List Nat) (entries : List Entry), route.map (outline[·]?) = entries.map some ∧
        entries.map Entry.content = nest.entries ∧
        ∀ stack later, Visits outline stack later →
          Visits outline (place :: stack) (route ++ later)
  | .foreign sort, place, nest_eq => by
      have entry_eq := entry_of_nestAt?_foreign nest_eq
      exact ⟨[place], [.foreign sort], by simp [entry_eq], rfl,
        fun _ _ after => .visit entry_eq after⟩
  | .declare head nested, place, nest_eq => by
      obtain ⟨children, entry_eq, -, below⟩ := exists_entry_of_nestAt? nest_eq
      obtain ⟨route, entries, route_eq, content_eq, visits⟩ :=
        exists_visitsAll nested children below
      refine ⟨place :: route, .declaration head children :: entries, ?_, ?_, ?_⟩
      · rw [List.map_cons, List.map_cons, route_eq, entry_eq]
      · rw [List.map_cons, content_eq, Decl.entries]
        rfl
      · intro stack later after
        exact .visit entry_eq (visits stack later after)

theorem exists_visitsAll :
    ∀ (nests : List Decl) (places : List Nat),
      List.Forall₂ (fun place nest => nestAt? outline place = some nest) places nests →
      ∃ (route : List Nat) (entries : List Entry), route.map (outline[·]?) = entries.map some ∧
        entries.map Entry.content = Decl.entriesAll nests ∧
        ∀ stack later, Visits outline stack later →
          Visits outline (places ++ stack) (route ++ later)
  | [], _, .nil => ⟨[], [], rfl, rfl, fun _ _ after => after⟩
  | nest :: rest, place :: places, .cons nest_eq rest_eq => by
      obtain ⟨first, firsts, first_eq, first_content, first_visits⟩ :=
        exists_visits nest place nest_eq
      obtain ⟨route, others, route_eq, other_content, other_visits⟩ :=
        exists_visitsAll rest places rest_eq
      refine ⟨first ++ route, firsts ++ others, ?_, ?_, ?_⟩
      · rw [List.map_append, List.map_append, first_eq, route_eq]
      · rw [List.map_append, first_content, other_content, Decl.entriesAll]
      · intro stack later after
        rw [List.cons_append, List.append_assoc]
        exact first_visits _ _ (other_visits stack later after)

end

/-- An acyclic outline unfolds into a nest with the entries that are gone through from its first
place. -/
theorem Acyclic.exists_visits (acyclic : Acyclic outline) :
    ∃ (decl : Decl) (route : List Nat) (entries : List Entry), toDecl? outline = some decl ∧
      Visits outline [0] route ∧ route.map (outline[·]?) = entries.map some ∧
      entries.map Entry.content = decl.entries := by
  obtain ⟨decl, unfolds⟩ := exists_toDecl?_iff.mpr acyclic
  obtain ⟨route, entries, route_eq, content_eq, visits⟩ :=
    Outline.exists_visits decl 0 (by rwa [← toDecl?_eq])
  exact ⟨decl, route, entries, unfolds, by simpa using visits [] [] .done, route_eq, content_eq⟩

end Outline

end BinaryName
