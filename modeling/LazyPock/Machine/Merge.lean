import Mathlib.Data.List.Basic

/-!
# Merged queues

Several queues are read by one reader, who takes the head of some queue each time until all of them are
empty. What was read is a merge of the queues: each of them in its own order, and any order between two
of them.

## Main definitions

* `Machine.Merge`: the merges of some queues.

## Main results

* `Machine.Merge.mem_iff`, `Machine.Merge.split`: what is read is in a queue, behind what was ahead of
  it there.
* `Machine.exists_merge_of_split`: a queue may be read first, up to any of its items.
-/

namespace Machine

variable {α : Type*}

/-- What a reader of some queues reads, until all of them are empty. -/
inductive Merge : List (List α) → List α → Prop
  | done {queues : List (List α)} (hempty : ∀ q ∈ queues, q = []) : Merge queues []
  | take {queues : List (List α)} {a : α} {rest items : List α} (i : ℕ)
      (hhead : queues[i]? = some (a :: rest)) (hmerge : Merge (queues.set i rest) items) :
      Merge queues (a :: items)

/-- The items of some queues, one of them by its position. -/
theorem exists_mem_iff_of_getElem? {queues : List (List α)} {i : ℕ} {q : List α}
    (hq : queues[i]? = some q) {P : List α → Prop} :
    (∃ r ∈ queues, P r) ↔ P q ∨ ∃ j, j ≠ i ∧ ∃ r, queues[j]? = some r ∧ P r := by
  simp only [List.mem_iff_getElem?]
  constructor
  · rintro ⟨r, ⟨j, hj⟩, hr⟩
    by_cases hij : j = i
    · obtain rfl := hij
      obtain rfl := Option.some.inj (hq.symm.trans hj)
      exact .inl hr
    · exact .inr ⟨j, hij, r, hj, hr⟩
  · rintro (h | ⟨j, -, r, hj, hr⟩)
    · exact ⟨q, ⟨i, hq⟩, h⟩
    · exact ⟨r, ⟨j, hj⟩, hr⟩

/-- The items of some queues after one of them was replaced. -/
theorem exists_mem_set_iff {queues : List (List α)} {i : ℕ} {q : List α}
    (hq : queues[i]? = some q) (new : List α) {P : List α → Prop} :
    (∃ r ∈ queues.set i new, P r) ↔ P new ∨ ∃ j, j ≠ i ∧ ∃ r, queues[j]? = some r ∧ P r := by
  have hi : i < queues.length := (List.getElem?_eq_some_iff.mp hq).1
  have hnew : (queues.set i new)[i]? = some new := List.getElem?_set_self hi
  rw [exists_mem_iff_of_getElem? hnew]
  refine or_congr_right (exists_congr fun j => and_congr_right fun hj => ?_)
  rw [List.getElem?_set_ne hj.symm]

namespace Merge

variable {queues : List (List α)}

/-- What is read is what the queues hold. -/
theorem mem_iff {items : List α} (h : Merge queues items) {a : α} :
    a ∈ items ↔ ∃ q ∈ queues, a ∈ q := by
  induction h with
  | done hempty =>
    constructor
    · intro hmem
      cases hmem
    · rintro ⟨q, hq, hmem⟩
      rw [hempty q hq] at hmem
      cases hmem
  | take i hhead hmerge ih =>
    rw [List.mem_cons, ih, exists_mem_set_iff hhead, exists_mem_iff_of_getElem? hhead, List.mem_cons,
      or_assoc]

/-- **What is ahead of an item in its queue was read before it.** -/
theorem split {before after : List α} {a : α}
    (h : Merge queues (before ++ a :: after)) :
    ∃ q ∈ queues, ∃ ahead behind, q = ahead ++ a :: behind ∧ ahead ⊆ before := by
  induction before generalizing queues with
  | nil =>
    cases h with
    | take i hhead hmerge =>
      exact ⟨_, List.mem_of_getElem? hhead, [], _, rfl, List.nil_subset _⟩
  | cons b before ih =>
    cases h with
    | take i hhead hmerge =>
      obtain hsplit := ih hmerge
      rw [exists_mem_set_iff hhead] at hsplit
      rw [exists_mem_iff_of_getElem? hhead]
      refine hsplit.imp (fun ⟨ahead, behind, hq, hahead⟩ => ?_) fun ⟨j, hj, r, hr, ahead, behind, hq,
        hahead⟩ => ⟨j, hj, r, hr, ahead, behind, hq, List.subset_cons_of_subset b hahead⟩
      exact ⟨b :: ahead, behind, by rw [hq, List.cons_append], List.cons_subset_cons b hahead⟩

/-- A queue may be read first, as far as one likes. -/
theorem of_start {i : ℕ} {first rest items : List α}
    (hqueue : queues[i]? = some (first ++ rest)) (h : Merge (queues.set i rest) items) :
    Merge queues (first ++ items) := by
  induction first generalizing queues with
  | nil =>
    obtain ⟨hi, rfl⟩ := List.getElem?_eq_some_iff.mp hqueue
    rwa [List.set_getElem_self] at h
  | cons a first ih =>
    refine .take i hqueue (ih ?_ ?_)
    · exact List.getElem?_set_self (List.getElem?_eq_some_iff.mp hqueue).1
    · rwa [List.set_set]

theorem nil_cons {items : List α} (h : Merge queues items) :
    Merge ([] :: queues) items := by
  induction h with
  | done hempty => exact .done (List.forall_mem_cons.mpr ⟨rfl, hempty⟩)
  | take i hhead hmerge ih => exact .take (i + 1) hhead ih

end Merge

/-- Some order always works: one queue after the other. -/
theorem exists_merge (queues : List (List α)) : ∃ items, Merge queues items := by
  induction queues with
  | nil => exact ⟨[], .done fun _ h => by cases h⟩
  | cons q queues ih =>
    obtain ⟨items, hitems⟩ := ih
    have hq : (q :: queues)[0]? = some (q ++ []) := by rw [List.append_nil]; rfl
    exact ⟨q ++ items, .of_start hq hitems.nil_cons⟩

/-- **An item may be the first that is read, after those ahead of it in its queue.** -/
theorem exists_merge_of_split {queues : List (List α)} {ahead behind : List α} {a : α}
    (hq : ahead ++ a :: behind ∈ queues) :
    ∃ after, Merge queues (ahead ++ a :: after) := by
  obtain ⟨i, hi⟩ := List.mem_iff_getElem?.mp hq
  obtain ⟨items, hitems⟩ := exists_merge (queues.set i behind)
  refine ⟨items, ?_⟩
  have hsplit : queues[i]? = some ((ahead ++ [a]) ++ behind) := by
    rw [hi, List.append_assoc]
    rfl
  have hmerge := Merge.of_start hsplit hitems
  rwa [List.append_assoc] at hmerge

end Machine
