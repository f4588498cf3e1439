import Mathlib.Data.List.Sort
import Mathlib.Data.Prod.Lex
import Mathlib.Order.Lattice

/-!
# Walking a list by its pages

A list is read in pages of one size, the `i`-th of them behind `i * size` rows. The first `n` pages are
the list exactly when it has no more than `n * size` rows; a number of pages that is rounded down
leaves the last rows out.

## Main definitions

* `Paging.page`: the rows of a page, from the zeroth.
* `Paging.newest`: the rows by descending keys.

## Main results

* `Paging.flatMap_page`, `Paging.perm_flatMap_page_iff`: what the first pages hold.
* `Paging.length_le_floor_iff`: when rounding down leaves no row out.
* `Paging.newest_eq_of_perm`: rows of distinct keys have one order.
-/

namespace Paging

variable {α : Type*}

/-! ### Pages -/

section Pages

variable (size : ℕ) (rows : List α)

/-- The rows of a page. -/
def page (i : ℕ) : List α := (rows.drop (i * size)).take size

/-- The first pages in turn are the first rows. -/
theorem flatMap_page (n : ℕ) : (List.range n).flatMap (page size rows) = rows.take (n * size) := by
  induction n with
  | zero => simp
  | succ n ih =>
    rw [List.range_succ, List.flatMap_append, ih, List.flatMap_cons, List.flatMap_nil, List.append_nil,
      page, ← List.take_add, Nat.succ_mul]

variable {size rows}

/-- The first pages hold every row once exactly when there are no more rows. -/
theorem perm_flatMap_page_iff {n : ℕ} :
    ((List.range n).flatMap (page size rows)).Perm rows ↔ rows.length ≤ n * size := by
  rw [flatMap_page]
  constructor
  · intro h
    have hlength := h.length_eq
    rw [List.length_take] at hlength
    omega
  · intro h
    rw [List.take_of_length_le h]

/-- A page behind the last row is empty. -/
theorem page_eq_nil {i : ℕ} (h : rows.length ≤ i * size) : page size rows i = [] := by
  rw [page, List.drop_eq_nil_of_le h, List.take_nil]

/-- **Pages rounded down.** One page at least, and otherwise as many as are full: they hold all rows
where there is no more than a page, or where the last page is full. -/
theorem length_le_floor_iff {total : ℕ} (hsize : 0 < size) :
    total ≤ max (total / size) 1 * size ↔ total ≤ size ∨ size ∣ total := by
  rcases Nat.lt_or_ge (total / size) 1 with hlt | hge
  · rw [max_eq_right hlt.le, Nat.one_mul]
    have hle : total < size := Nat.lt_of_div_eq_zero hsize (Nat.lt_one_iff.mp hlt)
    exact ⟨.inl, fun _ => hle.le⟩
  · rw [max_eq_left hge]
    have hfloor : total / size * size ≤ total := Nat.div_mul_le_self total size
    constructor
    · intro h
      exact .inr ⟨total / size, by rw [Nat.mul_comm]; exact le_antisymm h hfloor⟩
    · rintro (hle | hdvd)
      · exact hle.trans (Nat.le_mul_of_pos_left size hge)
      · exact (Nat.div_mul_cancel hdvd).ge

end Pages

/-! ### Order -/

section Order

variable {κ : Type*} [LinearOrder κ] (key : α → κ)

/-- The rows by descending keys. -/
def newest (rows : List α) : List α := rows.insertionSort fun a b => key b ≤ key a

theorem newest_perm (rows : List α) : (newest key rows).Perm rows := rows.perm_insertionSort _

theorem pairwise_newest (rows : List α) : (newest key rows).Pairwise fun a b => key b ≤ key a :=
  haveI : Std.Total fun a b => key b ≤ key a := ⟨fun a b => le_total (key b) (key a)⟩
  haveI : IsTrans α fun a b => key b ≤ key a := ⟨fun _ _ _ hab hbc => hbc.trans hab⟩
  List.pairwise_insertionSort _ rows

variable {key}

/-- **Rows of distinct keys have one order**, in whichever order they are read. -/
theorem newest_eq_of_perm {rows other : List α} (hperm : rows.Perm other)
    (hkey : ∀ a ∈ rows, ∀ b ∈ rows, key a = key b → a = b) : newest key rows = newest key other := by
  have hsorted : (newest key rows).Perm (newest key other) :=
    (newest_perm key rows).trans (hperm.trans (newest_perm key other).symm)
  refine hsorted.eq_of_pairwise ?_ (pairwise_newest key rows) (pairwise_newest key other)
  intro a b ha hb hba hab
  refine hkey a ((newest_perm key rows).mem_iff.mp ha) b ?_ (le_antisymm hab hba)
  exact hperm.mem_iff.mpr ((newest_perm key other).mem_iff.mp hb)

end Order

end Paging
