import BinaryName.Proofs.Cache.Misses

/-!
# A key that is shared

Some handles in ascending order share a key, and each of the others has a key of its own.  A key of
its own is missed once.  The shared key is missed the first time, and again whenever its users have
been apart for as many other keys as there is room for.
-/

namespace BinaryName

/-- The pairs of successive handles with at least so many of the others between them. -/
def wideGaps (room : Nat) (others handles : List Handle) : Nat :=
  (handles.zip handles.tail).countP fun pair =>
    room ≤ others.countP fun other => pair.1 < other ∧ other < pair.2

/-- The key that a handle uses: the shared one, or its own. -/
def keyOf (shares : Handle → Bool) (shared handle : Handle) : Handle :=
  if shares handle then shared else handle

variable {room : Nat} {shares : Handle → Bool} {shared last : Handle}
  {before seen older recency handles : List Handle}

theorem wideGaps_cons_cons (room : Nat) (others : List Handle) (first second : Handle)
    (rest : List Handle) :
    wideGaps room others (first :: second :: rest) =
      wideGaps room others (second :: rest) +
        if room ≤ others.countP fun other => first < other ∧ other < second then 1 else 0 := by
  rw [wideGaps, wideGaps, List.tail_cons, List.tail_cons, List.zip_cons_cons, List.countP_cons]
  simp

/-- Only what has been seen since the last one is between it and the next one. -/
theorem countP_between {next : Handle} {later : List Handle}
    (passed : ∀ other ∈ before, other < last)
    (between : ∀ other ∈ seen, last < other ∧ other < next)
    (beyond : ∀ other ∈ later, next < other) :
    ((before ++ seen ++ later).countP fun other => last < other ∧ other < next) = seen.length := by
  have none_before : (before.countP fun other => last < other ∧ other < next) = 0 := by
    rw [List.countP_eq_zero]
    intro other member inside
    exact Int.lt_asymm (passed other member) (of_decide_eq_true inside).1
  have none_later : (later.countP fun other => last < other ∧ other < next) = 0 := by
    rw [List.countP_eq_zero]
    intro other member inside
    exact Int.lt_asymm (beyond other member) (of_decide_eq_true inside).2
  have all_seen : (seen.countP fun other => last < other ∧ other < next) = seen.length := by
    rw [List.countP_eq_length]
    exact fun other member => decide_eq_true (between other member)
  rw [List.countP_append, List.countP_append, none_before, none_later, all_seen]
  omega

theorem shared_mem_take_iff (new : shared ∉ seen) :
    shared ∈ (seen.reverse ++ shared :: older).take room ↔ seen.length < room := by
  rw [List.take_append, List.length_reverse, List.mem_append]
  constructor
  · rintro (member | member)
    · exact absurd (List.mem_reverse.mp (List.mem_of_mem_take member)) new
    · have := List.length_pos_of_mem member
      simp only [List.length_take] at this
      omega
  · intro roomy
    obtain ⟨more, more_eq⟩ := Nat.exists_eq_add_of_lt roomy
    have spare : room - seen.length = more + 1 := by omega
    rw [spare]
    exact Or.inr List.mem_cons_self

/-- The shared key has been used last at a handle, with some others before it and some seen since,
and there are handles to come. -/
structure Since (shared last : Handle) (before seen older handles : List Handle) : Prop where
  ascending : (last :: handles).Pairwise (· < ·)
  apart : shared ∉ handles
  unused : ∀ handle ∈ handles, handle ∉ older
  passed : ∀ other ∈ before, other < last
  between : ∀ other ∈ seen, last < other ∧ ∀ handle ∈ handles, other < handle
  new : shared ∉ seen

namespace Since

variable {handle : Handle} {rest : List Handle}

theorem notMem_recency (since : Since shared last before seen older handles) :
    ∀ handle ∈ handles, handle ∉ seen.reverse ++ shared :: older := by
  intro handle member
  have differs : handle ≠ shared := fun same => since.apart (same ▸ member)
  have unseen : handle ∉ seen := fun met =>
    Int.lt_irrefl handle ((since.between handle met).2 handle member)
  simp [unseen, differs, since.unused handle member]

theorem ne_next (since : Since shared last before seen older (handle :: rest)) : shared ≠ handle :=
  fun same => since.apart (same ▸ List.mem_cons_self)

/-- What has been seen is what lies between the last use and a next one. -/
theorem countP_between_next (since : Since shared last before seen older (handle :: rest))
    (keeps : Handle → Bool) :
    ((before ++ seen ++ rest.filter keeps).countP fun other => last < other ∧ other < handle) =
      seen.length := by
  obtain ⟨above_handle, -⟩ := List.pairwise_cons.mp since.ascending.of_cons
  apply countP_between since.passed
  · intro other member
    obtain ⟨above, below⟩ := since.between other member
    exact ⟨above, below handle List.mem_cons_self⟩
  · exact fun other member => above_handle other (List.mem_filter.mp member).1

/-- The next handle uses the shared key. -/
theorem use (since : Since shared last before seen older (handle :: rest)) :
    Since shared handle (before ++ seen) [] ((seen.reverse ++ shared :: older).filter (· ≠ shared))
      rest where
  ascending := since.ascending.of_cons
  apart := fun member => since.apart (List.mem_cons_of_mem _ member)
  unused := fun later member used =>
    since.notMem_recency later (List.mem_cons_of_mem _ member) (List.mem_filter.mp used).1
  passed := by
    intro other member
    rcases List.mem_append.mp member with earlier | recent
    · exact Int.lt_trans (since.passed other earlier)
        ((List.pairwise_cons.mp since.ascending).1 handle List.mem_cons_self)
    · exact (since.between other recent).2 handle List.mem_cons_self
  between := by simp
  new := by simp

/-- The next handle has a key of its own. -/
theorem see (since : Since shared last before seen older (handle :: rest)) :
    Since shared last before (seen ++ [handle]) older rest where
  ascending := since.ascending.sublist ((List.sublist_cons_self handle rest).cons_cons last)
  apart := fun member => since.apart (List.mem_cons_of_mem _ member)
  unused := fun later member => since.unused later (List.mem_cons_of_mem _ member)
  passed := since.passed
  between := by
    intro other member
    rcases List.mem_append.mp member with earlier | here
    · obtain ⟨above, below⟩ := since.between other earlier
      exact ⟨above, fun later later_member => below later (List.mem_cons_of_mem _ later_member)⟩
    · obtain rfl := List.mem_singleton.mp here
      obtain ⟨above_last, -⟩ := List.pairwise_cons.mp since.ascending
      obtain ⟨above_handle, -⟩ := List.pairwise_cons.mp since.ascending.of_cons
      exact ⟨above_last other List.mem_cons_self, above_handle⟩
  new := by simp [since.new, since.ne_next]

end Since

/-- A key of its own is used once. -/
theorem count_map_keyOf {own : Handle} (distinct : handles.Nodup) (apart : shared ∉ handles)
    (member : own ∈ handles) (keeps : shares own = false) :
    (handles.map (keyOf shares shared)).count own = 1 := by
  have differs : shared ≠ own := fun same => apart (same ▸ member)
  have same_test : ((· == own) ∘ keyOf shares shared) = (· == own) := by
    funext handle
    rw [Function.comp_apply, keyOf]
    cases shares_eq : shares handle with
    | true =>
        have other : handle ≠ own := by
          rintro rfl
          simp [keeps] at shares_eq
        rw [if_pos rfl, beq_false_of_ne differs, beq_false_of_ne other]
    | false => rw [if_neg Bool.false_ne_true]
  rw [List.count, List.countP_map, same_test]
  exact List.count_eq_one_of_mem distinct member

namespace Recency

theorem count_misses_cons (room : Nat) (recency : List Handle) (key : Handle) (rest : List Handle) :
    (misses room recency (key :: rest)).count key =
      (misses room (key :: recency.filter (· ≠ key)) rest).count key +
        if key ∈ recency.take room then 0 else 1 := by
  by_cases hit : key ∈ recency.take room
  · rw [misses_of_hit hit, if_pos hit, Nat.add_zero]
  · rw [misses_of_miss hit, if_neg hit, List.count_cons_self]

/-- After the shared key has been used and some other keys have been seen since then, it is missed
at each wide gap. -/
theorem count_misses_seen (since : Since shared last before seen older handles) :
    (misses room (seen.reverse ++ shared :: older)
        (handles.map (keyOf shares shared))).count shared =
      wideGaps room (before ++ seen ++ handles.filter (!shares ·))
        (last :: handles.filter shares) := by
  induction handles generalizing last before seen older with
  | nil => rfl
  | cons handle rest ih =>
      rw [List.map_cons, List.filter_cons, List.filter_cons]
      cases shares_eq : shares handle with
      | true =>
          have gap_eq := since.countP_between_next (!shares ·)
          have further := ih since.use
          rw [List.reverse_nil, List.nil_append, List.append_nil] at further
          rw [keyOf, if_pos shares_eq, count_misses_cons, further]
          simp only [Bool.not_true, Bool.false_eq_true, if_false, if_true, wideGaps_cons_cons,
            gap_eq, shared_mem_take_iff since.new]
          by_cases roomy : seen.length < room
          · rw [if_pos roomy, if_neg (by omega)]
          · rw [if_neg roomy, if_pos (by omega)]
      | false =>
          have further := ih since.see
          rw [keyOf, shares_eq, if_neg Bool.false_ne_true,
            misses_of_new (since.notMem_recency handle List.mem_cons_self),
            List.count_cons_of_ne (Ne.symm since.ne_next)]
          simpa using further

/-- The shared key is missed the first time and at each wide gap. -/
theorem count_misses_shared (ascending : handles.Pairwise (· < ·)) (apart : shared ∉ handles)
    (new : shared ∉ recency) (unused : ∀ handle ∈ handles, handle ∉ recency)
    (passed : ∀ other ∈ before, ∀ handle ∈ handles, other < handle) :
    (misses room recency (handles.map (keyOf shares shared))).count shared =
      if handles.filter shares = [] then 0
      else wideGaps room (before ++ handles.filter (!shares ·)) (handles.filter shares) + 1 := by
  induction handles generalizing before recency with
  | nil => rfl
  | cons handle rest ih =>
      obtain ⟨above_handle, rest_ascending⟩ := List.pairwise_cons.mp ascending
      obtain ⟨handle_apart, rest_apart⟩ : shared ≠ handle ∧ shared ∉ rest := by simpa using apart
      have handle_new : handle ∉ rest :=
        fun member => Int.lt_irrefl handle (above_handle handle member)
      rw [List.map_cons, List.filter_cons, List.filter_cons]
      cases shares_eq : shares handle with
      | true =>
          have since : Since shared handle before [] recency rest :=
            { ascending
              apart := rest_apart
              unused := fun later member => unused later (List.mem_cons_of_mem _ member)
              passed := fun other member => passed other member handle List.mem_cons_self
              between := by simp
              new := by simp }
          have further := @count_misses_seen room shares shared handle before [] recency rest since
          rw [keyOf, if_pos shares_eq, misses_of_new new, List.count_cons_self]
          simpa using further
      | false =>
          have further := @ih (before ++ [handle]) (handle :: recency) rest_ascending rest_apart
            (by simp [handle_apart, new])
            (by
              intro later member
              have differs : later ≠ handle := fun same => handle_new (same ▸ member)
              simp [differs, unused later (List.mem_cons_of_mem _ member)])
            (by
              intro other member later later_member
              rcases List.mem_append.mp member with earlier | here
              · exact passed other earlier later (List.mem_cons_of_mem _ later_member)
              · obtain rfl := List.mem_singleton.mp here
                exact above_handle later later_member)
          rw [keyOf, shares_eq, if_neg Bool.false_ne_true,
            misses_of_new (unused handle List.mem_cons_self),
            List.count_cons_of_ne (Ne.symm handle_apart)]
          simpa using further

end Recency

end BinaryName
