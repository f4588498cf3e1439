import Mathlib.Data.List.Basic
import Mathlib.Logic.Function.Basic

/-!
# A disk with names

A file has a name and contents that are apart: whoever has opened a file goes on with its contents when
the name is given to another one. A rename takes one step; the contents are written piece by piece. No
two names share their contents.

## Main definitions

* `Machine.Disk`, with `truncate`, `write`, `rename` and `read`.
* `Machine.splice`: a piece written at a place.

## Main results

* `Machine.Disk.contents_truncate_of_ne`, `Machine.Disk.names_rename_of_ne`: what the operations leave.
* `Machine.splice_take`: pieces written one behind the other.
-/

namespace Machine

variable {N B : Type*}

/-- The names, and the contents by their numbers. -/
structure Disk (N B : Type*) where
  names : N → Option ℕ
  contents : ℕ → List B
  /-- The number of the next contents. -/
  fresh : ℕ
  lt_fresh : ∀ name n, names name = some n → n < fresh
  separate : ∀ a b n, names a = some n → names b = some n → a = b

/-- A piece written at a place, over what is there; a gap is filled. -/
def splice [Inhabited B] (contents : List B) (offset : ℕ) (piece : List B) : List B :=
  contents.take offset ++ List.replicate (offset - contents.length) default ++ piece ++
    contents.drop (offset + piece.length)

/-- The next piece of a text, behind those that were written. -/
theorem splice_take [Inhabited B] (text : List B) (offset n : ℕ) (h : offset ≤ text.length) :
    splice (text.take offset) offset ((text.drop offset).take n) = text.take (offset + n) := by
  have hlength : (text.take offset).length = offset := List.length_take_of_le h
  have hrest (k : ℕ) : (text.take offset).drop (offset + k) = [] := by
    rw [List.drop_eq_nil_iff, hlength]
    exact Nat.le_add_right _ _
  rw [splice, hrest, hlength, Nat.sub_self, List.replicate_zero, List.append_nil, List.append_nil,
    List.take_take, Nat.min_self, List.take_add]

namespace Disk

/-- A disk without files. -/
def empty (N B : Type*) : Disk N B where
  names _ := none
  contents _ := []
  fresh := 0
  lt_fresh := by simp
  separate := by simp

variable (disk : Disk N B)

/-- The contents under a name. -/
def read (name : N) : Option (List B) := (disk.names name).map disk.contents

/-- Write a piece into contents that somebody has opened. -/
def write [Inhabited B] (n offset : ℕ) (piece : List B) : Disk N B :=
  { disk with contents := Function.update disk.contents n (splice (disk.contents n) offset piece) }

variable [DecidableEq N]

/-- Open a file to write it anew: its number, and the disk after it. -/
def truncate (name : N) : ℕ × Disk N B :=
  match hname : disk.names name with
  | some n => (n, { disk with contents := Function.update disk.contents n [] })
  | none => (disk.fresh, {
      names := Function.update disk.names name (some disk.fresh)
      contents := Function.update disk.contents disk.fresh []
      fresh := disk.fresh + 1
      lt_fresh := by
        intro other n hother
        rw [Function.update_apply] at hother
        split_ifs at hother
        · obtain rfl := Option.some.inj hother
          exact Nat.lt_succ_self _
        · exact Nat.lt_succ_of_lt (disk.lt_fresh other n hother)
      separate := by
        intro a b n ha hb
        rw [Function.update_apply] at ha hb
        split_ifs at ha hb with hna hnb hnb
        · rw [hna, hnb]
        · obtain rfl := Option.some.inj ha
          exact absurd (disk.lt_fresh b _ hb) (Nat.lt_irrefl _)
        · obtain rfl := Option.some.inj hb
          exact absurd (disk.lt_fresh a _ ha) (Nat.lt_irrefl _)
        · exact disk.separate a b n ha hb })

/-- Give a file the name of another one, which loses it. -/
def rename (old new : N) : Option (Disk N B) :=
  match hold : disk.names old with
  | none => none
  | some n => some { disk with
      names := Function.update (Function.update disk.names old none) new (some n)
      lt_fresh := by
        intro name m hname
        simp only [Function.update_apply] at hname
        split_ifs at hname
        · exact Option.some.inj hname ▸ disk.lt_fresh old n hold
        · exact disk.lt_fresh name m hname
      separate := by
        intro a b m ha hb
        simp only [Function.update_apply] at ha hb
        split_ifs at ha hb with hna hnb hob hoa hnb hob
        · rw [hna, hnb]
        · obtain rfl := Option.some.inj ha
          exact absurd (disk.separate b old n hb hold) hob
        · obtain rfl := Option.some.inj hb
          exact absurd (disk.separate a old n ha hold) hoa
        · exact disk.separate a b m ha hb }

/-! ### What the operations leave -/

variable {disk} {name old new other : N} {n : ℕ} {next : Disk N B}

/-- The contents that are opened are those under the name, or new ones. -/
theorem truncate_fst : disk.names name = some (disk.truncate name).1 ∨
    (disk.names name = none ∧ (disk.truncate name).1 = disk.fresh) := by
  unfold truncate
  split
  · exact .inl ‹_›
  · exact .inr ⟨‹_›, rfl⟩

@[simp] theorem names_truncate_self :
    (disk.truncate name).2.names name = some (disk.truncate name).1 := by
  unfold truncate
  split
  · assumption
  · simp

theorem names_truncate_of_ne (h : other ≠ name) :
    (disk.truncate name).2.names other = disk.names other := by
  unfold truncate
  split
  · rfl
  · simp [h]

@[simp] theorem contents_truncate_self :
    (disk.truncate name).2.contents (disk.truncate name).1 = [] := by
  unfold truncate
  split <;> simp

theorem contents_truncate_of_ne (h : n ≠ (disk.truncate name).1) :
    (disk.truncate name).2.contents n = disk.contents n := by
  unfold truncate at h ⊢
  split at h
  · simpa using Function.update_of_ne h _ _
  · simpa using Function.update_of_ne h _ _

theorem fresh_le_truncate : disk.fresh ≤ (disk.truncate name).2.fresh := by
  unfold truncate
  split
  · exact Nat.le_refl _
  · exact Nat.le_succ _

/-- A rename gives the number of a file to another name. -/
theorem rename_eq_some (h : disk.rename old new = some next) :
    ∃ n, disk.names old = some n ∧
      next.names = Function.update (Function.update disk.names old none) new (some n) ∧
        next.contents = disk.contents ∧ next.fresh = disk.fresh := by
  unfold rename at h
  split at h
  · cases h
  · obtain rfl := Option.some.inj h
    exact ⟨_, ‹_›, rfl, rfl, rfl⟩

theorem rename_eq_none : disk.rename old new = none ↔ disk.names old = none := by
  unfold rename
  split
  · exact iff_of_true rfl ‹_›
  · rename_i n hold
    simp [hold]

end Disk

end Machine
