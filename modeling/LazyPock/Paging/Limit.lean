import Mathlib.Data.List.Sort
import Mathlib.Data.Prod.Lex
import Mathlib.Order.BooleanAlgebra.Basic

/-!
# A limit in front of a filter

A worker asks for the first `n` rows by some key and then works on those that are its own. Rows with
equal keys come in any order, so the answer depends on the order in which the table is read.

`Limit.forall_perm_exists_mine_iff` says when the worker finds a row of its own in every order: when
fewer than `n` rows of others have a key no greater than that of some row of its own.

## Main definitions

* `Limit.first`: the first rows by their key.
* `Limit.ahead`: the rows of others in front of a row.

## Main results

* `Limit.forall_perm_exists_mine_iff`.
-/

namespace Limit

open List

variable {α κ : Type*} [LinearOrder κ] (key : α → κ) (mine : α → Bool) (n : ℕ)

/-- The first `n` rows by their key. -/
def first (rows : List α) : List α := (rows.insertionSort fun a b => key a ≤ key b).take n

/-- How many rows of others have a key no greater than that of `a`. -/
def ahead (rows : List α) (a : α) : ℕ := rows.countP fun b => !mine b && decide (key b ≤ key a)

section Order

theorem pairwise_sorted (rows : List α) :
    (rows.insertionSort fun a b => key a ≤ key b).Pairwise fun a b => key a ≤ key b :=
  haveI : Std.Total fun a b => key a ≤ key b := ⟨fun a b => le_total (key a) (key b)⟩
  haveI : IsTrans α fun a b => key a ≤ key b := ⟨fun _ _ _ => le_trans⟩
  pairwise_insertionSort _ rows

end Order

variable {key mine n} {rows : List α}

/-- **Few rows of others in front.** A row of the worker's own is among the first. -/
theorem exists_mine_of_ahead_lt {a : α} (ha : a ∈ rows) (hmine : mine a = true)
    (hahead : ahead key mine rows a < n) : ∃ b ∈ first key n rows, mine b = true := by
  by_contra hnone
  have hothers : ∀ b ∈ first key n rows, mine b = false := fun b hb =>
    Bool.eq_false_iff.mpr fun hb' => hnone ⟨b, hb, hb'⟩
  have hperm := rows.perm_insertionSort fun a b => key a ≤ key b
  have hsorted := pairwise_sorted key rows
  rw [← take_append_drop n (rows.insertionSort _)] at hperm hsorted
  -- the row itself stands behind the first rows, which are all in front of it
  have hdrop : a ∈ (rows.insertionSort fun a b => key a ≤ key b).drop n := by
    rcases mem_append.mp (hperm.mem_iff.mpr ha) with hfirst | hdrop
    · rw [hothers a hfirst] at hmine
      cases hmine
    · exact hdrop
  have hlength : (first key n rows).length = n := by
    have hpos := length_pos_of_mem hdrop
    rw [length_drop] at hpos
    rw [first, length_take]
    omega
  have hcount : (first key n rows).countP (fun b => !mine b && decide (key b ≤ key a)) = n := by
    refine (countP_eq_length.mpr fun b hb => ?_).trans hlength
    have hle : key b ≤ key a := (pairwise_append.mp hsorted).2.2 b hb a hdrop
    simp [hothers b hb, hle]
  have hle : n ≤ ahead key mine rows a := by
    rw [ahead, ← hperm.countP_eq, countP_append]
    exact hcount.ge.trans (Nat.le_add_right _ _)
  omega

/-- The rows of others in front of those with the same key. -/
def othersFirst (key : α → κ) (mine : α → Bool) (rows : List α) : List α :=
  rows.insertionSort fun a b => toLex (key a, mine a) ≤ toLex (key b, mine b)

variable (key mine rows) in
theorem othersFirst_perm : (othersFirst key mine rows).Perm rows := rows.perm_insertionSort _

theorem first_othersFirst :
    first key n (othersFirst key mine rows) = (othersFirst key mine rows).take n := by
  have hsorted := pairwise_sorted (fun a => toLex (key a, mine a)) rows
  rw [first, List.Pairwise.insertionSort_eq]
  exact hsorted.imp fun hle => (Prod.Lex.toLex_le_toLex.mp hle).elim le_of_lt fun h => h.1.le

/-- **Many rows of others in front.** Some order puts the worker's own rows behind the first. -/
theorem none_mine_of_le_ahead
    (hahead : ∀ a ∈ rows, mine a = true → n ≤ ahead key mine rows a) :
    ∀ b ∈ first key n (othersFirst key mine rows), mine b = false := by
  intro a ha
  rw [first_othersFirst] at ha
  rw [Bool.eq_false_iff]
  intro hmine
  have hle := hahead a ((othersFirst_perm key mine rows).mem_iff.mp (mem_of_mem_take ha)) hmine
  obtain ⟨front, back, hsplit⟩ := append_of_mem ha
  have hsorted := pairwise_sorted (fun a => toLex (key a, mine a)) rows
  have hlist : othersFirst key mine rows =
      front ++ a :: (back ++ (othersFirst key mine rows).drop n) := by
    rw [← cons_append, ← append_assoc, ← hsplit, take_append_drop]
  -- no row of others behind `a` has a key that is no greater
  have hbehind : (a :: (back ++ (othersFirst key mine rows).drop n)).countP
      (fun b => !mine b && decide (key b ≤ key a)) = 0 := by
    rw [countP_eq_zero]
    intro b hb
    rcases mem_cons.mp hb with rfl | hb
    · simp [hmine]
    · have hlex : toLex (key a, mine a) ≤ toLex (key b, mine b) := by
        have hpair : (othersFirst key mine rows).Pairwise
            fun a b => toLex (key a, mine a) ≤ toLex (key b, mine b) := hsorted
        rw [hlist] at hpair
        exact (pairwise_cons.mp (pairwise_append.mp hpair).2.1).1 b hb
      rcases Prod.Lex.toLex_le_toLex.mp hlex with hlt | ⟨-, hle⟩
      · simp [not_le.mpr hlt]
      · have hb' : mine b = true := by
          rw [hmine] at hle
          exact top_le_iff.mp hle
        simp [hb']
  have hfront : front.length < n := by
    have hlength := congrArg List.length hsplit
    rw [length_take, length_append, length_cons] at hlength
    omega
  have hcount : ahead key mine rows a ≤ front.length := by
    rw [ahead, ← (othersFirst_perm key mine rows).countP_eq, hlist, countP_append, hbehind,
      Nat.add_zero]
    exact countP_le_length
  omega

/-- **When a worker gets to its own rows.** In every order of the table the first `n` rows have one of
the worker's own exactly when fewer than `n` rows of others are in front of some such row. -/
theorem forall_perm_exists_mine_iff :
    (∀ table : List α, table.Perm rows → ∃ a ∈ first key n table, mine a = true) ↔
      ∃ a ∈ rows, mine a = true ∧ ahead key mine rows a < n := by
  constructor
  · intro h
    by_contra hnone
    obtain ⟨a, ha, hmine⟩ := h _ (othersFirst_perm key mine rows)
    refine absurd hmine (Bool.eq_false_iff.mp (none_mine_of_le_ahead (fun b hb hb' => ?_) a ha))
    by_contra hlt
    exact hnone ⟨b, hb, hb', not_le.mp hlt⟩
  · rintro ⟨a, ha, hmine, hahead⟩ table hperm
    refine exists_mine_of_ahead_lt (hperm.mem_iff.mpr ha) hmine ?_
    rwa [ahead, hperm.countP_eq]

/-- The orders of the rows that are asked for are those that the orders of the whole table give. -/
theorem forall_perm_filter_iff (asked : α → Bool) (P : List α → Prop) :
    (∀ table : List α, table.Perm rows → P (table.filter asked)) ↔
      ∀ found : List α, found.Perm (rows.filter asked) → P found := by
  constructor
  · intro h found hfound
    have hasked : found.filter asked = found := filter_eq_self.mpr fun a ha =>
      (mem_filter.mp (hfound.mem_iff.mp ha)).2
    have hrest : (rows.filter fun a => !asked a).filter asked = [] := by
      rw [filter_eq_nil_iff]
      intro a ha
      simpa using (mem_filter.mp ha).2
    have hperm : (found ++ rows.filter fun a => !asked a).Perm rows :=
      (hfound.append_right _).trans (filter_append_perm asked rows)
    have hP := h _ hperm
    rwa [filter_append, hasked, hrest, append_nil] at hP
  · exact fun h table hperm => h _ (hperm.filter asked)

/-- **Getting to one's own rows among those that are asked for.** -/
theorem forall_perm_filter_exists_mine_iff (asked : α → Bool) :
    (∀ table : List α, table.Perm rows →
        ∃ a ∈ first key n (table.filter asked), mine a = true) ↔
      ∃ a ∈ rows, asked a = true ∧ mine a = true ∧
        rows.countP (fun b => asked b && !mine b && decide (key b ≤ key a)) < n := by
  rw [forall_perm_filter_iff asked fun found => ∃ a ∈ first key n found, mine a = true,
    forall_perm_exists_mine_iff]
  simp only [mem_filter, ahead, countP_filter, and_assoc]
  have hcomm (a : α) : (fun b => !mine b && (decide (key b ≤ key a) && asked b)) =
      fun b => asked b && (!mine b && decide (key b ≤ key a)) := by
    funext b
    cases asked b <;> cases mine b <;> simp
  simp only [Bool.and_assoc, hcomm]

end Limit
