import Mathlib.Data.List.Basic

/-!
# Paths in a tree

A tree is given by its children: what stands below a node under a name. `Paths.follow` walks down a
path of names. Where each child of one tree has its counterpart in another, so has everything below
(`Paths.follow_of_step`).

## Main definitions

* `Paths.follow`: the node at the end of a path.

## Main results

* `Paths.follow_of_step`: a simulation of children is one of paths.
-/

namespace Paths

variable {κ S T : Type*}

/-- The node at the end of a path. -/
def follow (child : T → κ → Option T) : T → List κ → Option T
  | t, [] => some t
  | t, name :: path => (child t name).bind fun below => follow child below path

variable {child : T → κ → Option T} {other : S → κ → Option S}

@[simp]
theorem follow_nil (t : T) : follow child t [] = some t := rfl

theorem follow_cons (t : T) (name : κ) (path : List κ) :
    follow child t (name :: path) = (child t name).bind fun below => follow child below path := rfl

theorem follow_cons_eq_some {t below : T} {name : κ} {path : List κ} :
    follow child t (name :: path) = some below ↔
      ∃ next, child t name = some next ∧ follow child next path = some below := by
  rw [follow_cons, Option.bind_eq_some_iff]

theorem follow_append (t : T) (path rest : List κ) :
    follow child t (path ++ rest) =
      (follow child t path).bind fun below => follow child below rest := by
  induction path generalizing t with
  | nil => rfl
  | cons name path ih =>
    rw [List.cons_append, follow_cons, follow_cons, Option.bind_assoc]
    exact Option.bind_congr fun below _ => ih below

/-- **A simulation of children is one of paths.** -/
theorem follow_of_step {R : S → T → Prop}
    (hstep : ∀ s t name next, R s t → other s name = some next →
      ∃ below, child t name = some below ∧ R next below)
    {s last : S} {t : T} {path : List κ} (hR : R s t) (h : follow other s path = some last) :
    ∃ below, follow child t path = some below ∧ R last below := by
  induction path generalizing s t with
  | nil =>
    obtain rfl := Option.some.inj h
    exact ⟨t, rfl, hR⟩
  | cons name path ih =>
    obtain ⟨next, hnext, h⟩ := follow_cons_eq_some.mp h
    obtain ⟨below, hbelow, hR⟩ := hstep s t name next hR hnext
    obtain ⟨last, hlast, hR⟩ := ih hR h
    exact ⟨last, follow_cons_eq_some.mpr ⟨below, hbelow, hlast⟩, hR⟩

end Paths
