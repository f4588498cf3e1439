import Mathlib.Data.Finset.Card
import Mathlib.Data.Finset.Dedup
import Mathlib.Data.List.Sort

/-!
# Walking a set page by page

A server answers a request with the first `n` rows of a set in some order, and offers to continue
behind the last row of a full page. The order leaves rows tied, so a request has several possible
answers; the rows behind a given row are selected by a relation that need not be the order itself.

`Keyset.Delivers` says that every possible walk ends and hands out each expected row exactly once.
`Keyset.delivers_of_cuts` and `Keyset.cuts_of_delivers` characterise it by the rows at the page
boundaries: each of them must be tied with no other row and select exactly the rows the order puts
after it.

## Main definitions

* `Keyset.WeakOrder`: a strict order in which being tied is transitive.
* `Keyset.IsPage`: a possible answer.
* `Keyset.Delivers`: every walk hands out the expected rows exactly once.
* `Keyset.Cut`, `Keyset.Cuts`: the rows at the page boundaries.

## Main results

* `Keyset.WeakOrder.lex`: the order by two keys.
* `Keyset.delivers_of_cuts`, `Keyset.cuts_of_delivers`.
-/

namespace Keyset

open Classical List

variable {α : Type*}

/-! ### Orders with ties -/

/-- A strict order in which being tied is transitive. -/
structure WeakOrder (before : α → α → Prop) : Prop where
  asymm : ∀ {a b}, before a b → ¬ before b a
  cotrans : ∀ {a c} (b), before a c → before a b ∨ before b c

namespace WeakOrder

variable {before : α → α → Prop} (h : WeakOrder before)

include h

theorem irrefl (a : α) : ¬ before a a := fun haa => h.asymm haa haa

theorem trans {a b c : α} (hab : before a b) (hbc : before b c) : before a c :=
  (h.cotrans c hab).resolve_right (h.asymm hbc)

/-- Not being before is transitive. -/
theorem not_trans {a b c : α} (hab : ¬ before a b) (hbc : ¬ before b c) : ¬ before a c :=
  fun hac => (h.cotrans b hac).elim hab hbc

theorem flip : WeakOrder fun a b => before b a where
  asymm := fun hab => h.asymm hab
  cotrans := fun b hac => (h.cotrans b hac).symm

/-- The order by a first key and, where that leaves a tie, a second one. -/
theorem lex {then_ : α → α → Prop} (h' : WeakOrder then_) :
    WeakOrder fun a b => before a b ∨ (¬ before b a ∧ then_ a b) where
  asymm := by
    rintro a b (hab | ⟨hba, hthen⟩) (hba' | ⟨hab', hthen'⟩)
    · exact h.asymm hab hba'
    · exact hab' hab
    · exact hba hba'
    · exact h'.asymm hthen hthen'
  cotrans := by
    rintro a c b (hac | ⟨hca, hthen⟩)
    · exact (h.cotrans b hac).imp .inl .inl
    · by_cases hab : before a b
      · exact .inl (.inl hab)
      by_cases hbc : before b c
      · exact .inr (.inl hbc)
      -- Neither side decides, so all three are tied in the first key.
      rcases h'.cotrans b hthen with hthen | hthen
      · exact .inl (.inr ⟨fun hba => (h.cotrans c hba).elim hbc hca, hthen⟩)
      · exact .inr (.inr ⟨fun hcb => (h.cotrans a hcb).elim hca hab, hthen⟩)

end WeakOrder

theorem weakOrder_false : WeakOrder fun _ _ : α => False := ⟨fun h => h.elim, fun _ h => h.elim⟩

/-- The order by a key that orders linearly. -/
theorem weakOrder_key {β : Type*} [LinearOrder β] (f : α → β) :
    WeakOrder fun a b => f a < f b where
  asymm := fun hab => not_lt_of_gt hab
  cotrans := fun {a c} b hac => by
    by_cases hab : f a < f b
    · exact .inl hab
    · exact .inr (lt_of_le_of_lt (not_lt.mp hab) hac)

/-! ### Pages -/

section Pages

variable (before : α → α → Prop) (n : ℕ)

/-- A possible answer: `n` rows of the set, or all of it, in order, none of the others coming before
one of them. -/
structure IsPage (S : Finset α) (out : List α) : Prop where
  nodup : out.Nodup
  mem : ∀ a ∈ out, a ∈ S
  length : out.length = min n S.card
  sorted : out.Pairwise fun a b => ¬ before b a
  first : ∀ a ∈ out, ∀ r ∈ S, r ∉ out → ¬ before r a

variable {before n}

theorem exists_isPage (h : WeakOrder before) (S : Finset α) : ∃ out, IsPage before n S out := by
  let le : α → α → Prop := fun a b => ¬ before b a
  have htotal : Std.Total le := ⟨fun a b => by
    by_cases hba : before b a
    · exact .inr (h.asymm hba)
    · exact .inl hba⟩
  have htrans : IsTrans α le := ⟨fun a b c hab hbc => h.not_trans hbc hab⟩
  let sorted := S.toList.insertionSort le
  have hperm : sorted.Perm S.toList := perm_insertionSort le _
  have hpair : sorted.Pairwise le := pairwise_insertionSort le _
  have hnodup : sorted.Nodup := hperm.nodup_iff.mpr S.nodup_toList
  have hmem : ∀ a, a ∈ sorted ↔ a ∈ S := fun a => by rw [hperm.mem_iff, Finset.mem_toList]
  refine ⟨sorted.take n, ?_, ?_, ?_, ?_, ?_⟩
  · exact hnodup.sublist (take_sublist n sorted)
  · exact fun a ha => (hmem a).mp (mem_of_mem_take ha)
  · rw [length_take, hperm.length_eq, Finset.length_toList]
  · exact hpair.sublist (take_sublist n sorted)
  · intro a ha r hr hrout
    have hsplit : sorted = sorted.take n ++ sorted.drop n := (take_append_drop n sorted).symm
    have hrdrop : r ∈ sorted.drop n := by
      have hr' := (hmem r).mpr hr
      rw [hsplit, mem_append] at hr'
      exact hr'.resolve_left hrout
    rw [hsplit, pairwise_append] at hpair
    exact hpair.2.2 a ha r hrdrop

namespace IsPage

variable {S : Finset α} {out : List α}

theorem toFinset_subset (h : IsPage before n S out) : out.toFinset ⊆ S := fun a ha =>
  h.mem a (mem_toFinset.mp ha)

/-- A page that is not full is the whole set. -/
theorem toFinset_eq (h : IsPage before n S out) (hshort : out.length < n) : out.toFinset = S := by
  refine Finset.eq_of_subset_of_card_le h.toFinset_subset ?_
  rw [toFinset_card_of_nodup h.nodup]
  have := h.length
  omega

/-- No row of a page comes after its last one. -/
theorem not_before_of_getLast (h : IsPage before n S out) (hw : WeakOrder before) {b a : α}
    (hb : out.getLast? = some b) (ha : a ∈ out) : ¬ before b a := by
  obtain ⟨init, rfl⟩ := List.getLast?_eq_some_iff.mp hb
  have hsorted := h.sorted
  rw [pairwise_append] at hsorted
  rcases mem_append.mp ha with ha | ha
  · exact hsorted.2.2 a ha b (by simp)
  · rw [mem_singleton.mp ha]
    exact hw.irrefl b

theorem mem_of_getLast {b : α} (h : IsPage before n S out) (hb : out.getLast? = some b) :
    b ∈ S := h.mem b (mem_of_getLast? hb)

/-- A row tied with the last one may stand in its place: first within the page. -/
theorem move_last (h : IsPage before n S out) (hw : WeakOrder before) {b r : α}
    (hb : out.getLast? = some b) (hr : r ∈ out) (hrb : ¬ before r b) :
    IsPage before n S (out.erase r ++ [r]) where
  nodup := by
    rw [nodup_append]
    refine ⟨h.nodup.erase r, nodup_singleton r, fun a ha c hc hac => ?_⟩
    rw [mem_singleton.mp hc] at hac
    subst hac
    exact (List.Nodup.not_mem_erase h.nodup) ha
  mem := by
    intro a ha
    rcases mem_append.mp ha with ha | ha
    · exact h.mem a (mem_of_mem_erase ha)
    · rw [mem_singleton.mp ha]
      exact h.mem r hr
  length := by
    have hpos : 0 < out.length := length_pos_of_mem hr
    rw [length_append, length_erase_of_mem hr, length_singleton, ← h.length]
    omega
  sorted := by
    rw [pairwise_append]
    refine ⟨h.sorted.sublist erase_sublist, pairwise_singleton _ _,
      fun a ha c hc => ?_⟩
    rw [mem_singleton.mp hc]
    exact hw.not_trans hrb (h.not_before_of_getLast hw hb (mem_of_mem_erase ha))
  first := by
    intro a ha c hc hcout
    have hmem : ∀ x, x ∈ out.erase r ++ [r] ↔ x ∈ out := by
      intro x
      rw [mem_append, mem_singleton]
      constructor
      · rintro (hx | rfl)
        · exact mem_of_mem_erase hx
        · exact hr
      · intro hx
        by_cases hxr : x = r
        · exact .inr hxr
        · exact .inl ((mem_erase_of_ne hxr).mpr hx)
    exact h.first a ((hmem a).mp ha) c hc (mt (hmem c).mpr hcout)

/-- A row tied with the last one may stand in its place: then in exchange for it. -/
theorem replace_last {init : List α} {b r : α} (h : IsPage before n S (init ++ [b]))
    (hw : WeakOrder before) (hr : r ∈ S) (hrout : r ∉ init ++ [b]) (hrb : ¬ before r b)
    (hbr : ¬ before b r) : IsPage before n S (init ++ [r]) where
  nodup := by
    have hnodup := h.nodup
    rw [nodup_append] at hnodup ⊢
    refine ⟨hnodup.1, nodup_singleton r, fun a ha c hc hac => ?_⟩
    rw [mem_singleton.mp hc] at hac
    subst hac
    exact hrout (mem_append_left _ ha)
  mem := by
    intro a ha
    rcases mem_append.mp ha with ha | ha
    · exact h.mem a (mem_append_left _ ha)
    · rw [mem_singleton.mp ha]
      exact hr
  length := by
    have := h.length
    simpa using this
  sorted := by
    have hsorted := h.sorted
    rw [pairwise_append] at hsorted ⊢
    refine ⟨hsorted.1, pairwise_singleton _ _, fun a ha c hc => ?_⟩
    rw [mem_singleton.mp hc]
    exact hw.not_trans hrb (hsorted.2.2 a ha b (by simp))
  first := by
    have hsorted := h.sorted
    rw [pairwise_append] at hsorted
    have hlast : ∀ x ∈ S, x ∉ init ++ [r] → ¬ before x b := by
      intro x hx hxout
      by_cases hxb : x = b
      · rw [hxb]
        exact hw.irrefl b
      · refine h.first b (by simp) x hx ?_
        simp only [mem_append, mem_singleton, not_or] at hxout ⊢
        exact ⟨hxout.1, hxb⟩
    intro a ha x hx hxout
    rcases mem_append.mp ha with ha | ha
    · exact hw.not_trans (hlast x hx hxout) (hsorted.2.2 a ha b (by simp))
    · rw [mem_singleton.mp ha]
      exact hw.not_trans (hlast x hx hxout) hbr

end IsPage

end Pages

/-! ### Walks -/

section Walks

variable (before behind : α → α → Prop) (mints : α → Prop) (n : ℕ) (M : Finset α)

/-- Every walk that starts with a request for `S` ends, and hands out each row of `E` exactly once
and no other: a page that is not full ends it, and the last row of a full one must be one that can
be continued from. -/
inductive Delivers : Finset α → Finset α → Prop
  | page {S E : Finset α} (rest : List α → Finset α)
      (hshort : ∀ out, IsPage before n S out → out.length < n → out.toFinset = E)
      (hmints : ∀ out b, IsPage before n S out → out.length = n → out.getLast? = some b → mints b)
      (hsplit : ∀ out, IsPage before n S out → out.length = n →
        Disjoint out.toFinset (rest out) ∧ out.toFinset ∪ rest out = E)
      (hnext : ∀ out b, IsPage before n S out → out.length = n → out.getLast? = some b →
        Delivers (M.filter (behind b)) (rest out)) :
      Delivers S E

/-- The row that ends the `k`-th full page: no other is tied with it, a walk can be continued from
it, and the rows behind it are those after it in the order. -/
structure Cut (k : ℕ) (b : α) : Prop where
  mem : b ∈ M
  rank : (M.filter fun r => before r b).card + 1 = k * n
  untied : ∀ r ∈ M, r ≠ b → before r b ∨ before b r
  mints : mints b
  behind : ∀ r ∈ M, behind b r ↔ before b r

/-- Every full page ends in such a row. -/
def Cuts : Prop := ∀ k, 1 ≤ k → k * n ≤ M.card → ∃ b, Cut before behind mints n M k b

variable {before behind mints n M}

/-- What is left after `j` full pages. -/
structure Front (before : α → α → Prop) (n : ℕ) (M : Finset α) (j : ℕ) (S : Finset α) : Prop where
  subset : S ⊆ M
  card : S.card + j * n = M.card
  done : ∀ r ∈ M, r ∉ S → ∀ s ∈ S, before r s

theorem front_zero : Front before n M 0 M := ⟨fun _ h => h, by simp, fun _ h h' => absurd h h'⟩

variable {S : Finset α} {b : α}

/-- The rows before one that is left. -/
theorem Front.filter_before {j : ℕ} (h : Front before n M j S) (hb : b ∈ S) :
    M.filter (fun r => before r b) = (M \ S) ∪ S.filter fun r => before r b := by
  ext r
  simp only [Finset.mem_filter, Finset.mem_union, Finset.mem_sdiff]
  constructor
  · rintro ⟨hr, hrb⟩
    by_cases hrS : r ∈ S
    · exact .inr ⟨hrS, hrb⟩
    · exact .inl ⟨hr, hrS⟩
  · rintro (⟨hr, hrS⟩ | ⟨hrS, hrb⟩)
    · exact ⟨hr, h.done r hr hrS b hb⟩
    · exact ⟨h.subset hrS, hrb⟩

theorem Front.card_filter_before {j : ℕ} (h : Front before n M j S)
    (hb : b ∈ S) :
    (M.filter fun r => before r b).card = j * n + (S.filter fun r => before r b).card := by
  have hdisjoint : Disjoint (M \ S) (S.filter fun r => before r b) :=
    Finset.disjoint_left.mpr fun r hr hr' =>
      (Finset.mem_sdiff.mp hr).2 (Finset.mem_filter.mp hr').1
  rw [h.filter_before hb, Finset.card_union_of_disjoint hdisjoint,
    Finset.card_sdiff_of_subset h.subset]
  have := h.card
  omega

/-- An untied row parts the others. -/
theorem split_of_untied (hw : WeakOrder before) (hb : b ∈ S)
    (huntied : ∀ r ∈ S, r ≠ b → before r b ∨ before b r) :
    Disjoint (insert b (S.filter fun r => before r b)) (S.filter (before b)) ∧
      insert b (S.filter fun r => before r b) ∪ S.filter (before b) = S := by
  constructor
  · refine Finset.disjoint_left.mpr fun r hr hr' => ?_
    have hafter := (Finset.mem_filter.mp hr').2
    rcases Finset.mem_insert.mp hr with rfl | hr
    · exact hw.irrefl _ hafter
    · exact hw.asymm hafter (Finset.mem_filter.mp hr).2
  · ext r
    simp only [Finset.mem_union, Finset.mem_insert, Finset.mem_filter]
    constructor
    · rintro ((rfl | hr) | hr)
      · exact hb
      · exact hr.1
      · exact hr.1
    · intro hr
      by_cases hrb : r = b
      · exact .inl (.inl hrb)
      · exact (huntied r hr hrb).imp (fun hbefore => .inr ⟨hr, hbefore⟩) fun hafter => ⟨hr, hafter⟩

/-- What is left after one more page, which ends in `b`. -/
theorem Front.next {j : ℕ} (h : Front before n M j S) (hw : WeakOrder before) (hb : b ∈ S) (hrank : (S.filter fun r => before r b).card + 1 = n)
    (huntied : ∀ r ∈ S, r ≠ b → before r b ∨ before b r) :
    Front before n M (j + 1) (S.filter (before b)) where
  subset := fun _ hr => h.subset (Finset.mem_filter.mp hr).1
  card := by
    obtain ⟨hdisjoint, hsplit⟩ := split_of_untied hw hb huntied
    have hnotMem : b ∉ S.filter fun r => before r b :=
      fun hmem => hw.irrefl b (Finset.mem_filter.mp hmem).2
    have hcard := congrArg Finset.card hsplit
    rw [Finset.card_union_of_disjoint hdisjoint, Finset.card_insert_of_notMem hnotMem] at hcard
    have := h.card
    rw [Nat.succ_mul]
    omega
  done := by
    intro r hr hrS s hs
    obtain ⟨hsS, hbs⟩ := Finset.mem_filter.mp hs
    by_cases hrS' : r ∈ S
    · by_cases hrb : r = b
      · exact hrb ▸ hbs
      · rcases huntied r hrS' hrb with hbefore | hafter
        · exact hw.trans hbefore hbs
        · exact absurd (Finset.mem_filter.mpr ⟨hrS', hafter⟩) hrS
    · exact h.done r hr hrS' s hsS

variable {out : List α}

/-- Where the `n`-th row is tied with no other, every page is full and ends in it. -/
theorem IsPage.eq_of_untied (h : IsPage before n S out)
    (hw : WeakOrder before) (hb : b ∈ S)
    (hrank : (S.filter fun r => before r b).card + 1 = n)
    (huntied : ∀ r ∈ S, r ≠ b → before r b ∨ before b r) :
    out.length = n ∧ out.getLast? = some b ∧
      out.toFinset = insert b (S.filter fun r => before r b) := by
  have hnotMem : b ∉ S.filter fun r => before r b :=
    fun hmem => hw.irrefl b (Finset.mem_filter.mp hmem).2
  have hsub : insert b (S.filter fun r => before r b) ⊆ S := by
    refine Finset.insert_subset hb (Finset.filter_subset _ _)
  have hcard := Finset.card_le_card hsub
  rw [Finset.card_insert_of_notMem hnotMem] at hcard
  have hlength : out.length = n := by
    have := h.length
    omega
  have hbout : b ∈ out := by
    by_contra hbout
    have hall : out.toFinset ⊆ S.filter fun r => before r b := by
      intro a ha
      have haout := mem_toFinset.mp ha
      have hab : a ≠ b := fun hab => hbout (hab ▸ haout)
      refine Finset.mem_filter.mpr ⟨h.mem a haout, ?_⟩
      exact (huntied a (h.mem a haout) hab).resolve_right (h.first a haout b hb hbout)
    have hle := Finset.card_le_card hall
    rw [toFinset_card_of_nodup h.nodup] at hle
    omega
  have hbefore : insert b (S.filter fun r => before r b) ⊆ out.toFinset := by
    intro r hr
    rw [mem_toFinset]
    rcases Finset.mem_insert.mp hr with rfl | hr
    · exact hbout
    · obtain ⟨hrS, hrb⟩ := Finset.mem_filter.mp hr
      by_contra hrout
      exact h.first b hbout r hrS hrout hrb
  have heq : insert b (S.filter fun r => before r b) = out.toFinset := by
    refine Finset.eq_of_subset_of_card_le hbefore ?_
    rw [Finset.card_insert_of_notMem hnotMem, toFinset_card_of_nodup h.nodup]
    omega
  refine ⟨hlength, ?_, heq.symm⟩
  obtain ⟨c, hc⟩ : ∃ c, out.getLast? = some c := by
    cases hlast : out.getLast? with
    | none =>
      rw [List.getLast?_eq_none_iff] at hlast
      simp [hlast] at hbout
    | some c => exact ⟨c, rfl⟩
  have hcmem : c ∈ insert b (S.filter fun r => before r b) := by
    rw [heq, mem_toFinset]
    exact mem_of_getLast? hc
  rcases Finset.mem_insert.mp hcmem with rfl | hcbefore
  · exact hc
  · exact absurd (Finset.mem_filter.mp hcbefore).2 (h.not_before_of_getLast hw hc hbout)

/-- A cut row is among those that are left, `n`-th in their order. -/
theorem Cut.mem_front {j : ℕ}
    (hcut : Cut before behind mints n M (j + 1) b) (h : Front before n M j S)
    (hw : WeakOrder before) (hn : 1 ≤ n) :
    b ∈ S ∧ (S.filter fun r => before r b).card + 1 = n := by
  have hrank := hcut.rank
  rw [Nat.succ_mul] at hrank
  have hbS : b ∈ S := by
    by_contra hbS
    -- All rows before it were handed out, and it with them: there are too few of those.
    have hsub : M.filter (fun r => before r b) ⊆ (M \ S).erase b := by
      intro r hr
      obtain ⟨hrM, hrb⟩ := Finset.mem_filter.mp hr
      refine Finset.mem_erase.mpr ⟨fun hrb' => hw.irrefl b (hrb' ▸ hrb), ?_⟩
      refine Finset.mem_sdiff.mpr ⟨hrM, fun hrS => ?_⟩
      exact hw.asymm hrb (h.done b hcut.mem hbS r hrS)
    have hbdone : b ∈ M \ S := Finset.mem_sdiff.mpr ⟨hcut.mem, hbS⟩
    have hpos : 0 < (M \ S).card := Finset.card_pos.mpr ⟨b, hbdone⟩
    have hle := Finset.card_le_card hsub
    rw [Finset.card_erase_of_mem hbdone] at hle
    have hdone := Finset.card_sdiff_of_subset h.subset
    have := h.card
    omega
  refine ⟨hbS, ?_⟩
  have := h.card_filter_before hbS
  omega

/-- **Cuts are enough**: every walk hands out every row exactly once. -/
theorem delivers_of_cuts (hw : WeakOrder before) (hn : 1 ≤ n)
    (hcuts : Cuts before behind mints n M) : Delivers before behind mints n M M M := by
  suffices hfront : ∀ c j S, S.card = c → Front before n M j S →
      Delivers before behind mints n M S S from hfront _ 0 M rfl front_zero
  intro c
  induction c using Nat.strong_induction_on with
  | _ c ih =>
    intro j S hc h
    by_cases hshort : S.card < n
    · have hlength : ∀ out, IsPage before n S out → out.length ≠ n := by
        intro out hout
        have := hout.length
        omega
      refine .page (fun _ => ∅) (fun out hout hlt => hout.toFinset_eq hlt) ?_ ?_ ?_
      · exact fun out b hout hfull => absurd hfull (hlength out hout)
      · exact fun out hout hfull => absurd hfull (hlength out hout)
      · exact fun out b hout hfull => absurd hfull (hlength out hout)
    · obtain ⟨b, hcut⟩ := hcuts (j + 1) (by omega) (by have := h.card; rw [Nat.succ_mul]; omega)
      obtain ⟨hbS, hrank⟩ := hcut.mem_front h hw hn
      have huntied : ∀ r ∈ S, r ≠ b → before r b ∨ before b r :=
        fun r hr => hcut.untied r (h.subset hr)
      have hpage := fun out (hout : IsPage before n S out) => hout.eq_of_untied hw hbS hrank huntied
      have hnext := h.next hw hbS hrank huntied
      have hselect : M.filter (behind b) = S.filter (before b) := by
        ext r
        simp only [Finset.mem_filter]
        constructor
        · rintro ⟨hr, hbehind⟩
          have hafter := (hcut.behind r hr).mp hbehind
          refine ⟨?_, hafter⟩
          by_contra hrS
          exact hw.asymm hafter (h.done r hr hrS b hbS)
        · rintro ⟨hr, hafter⟩
          exact ⟨h.subset hr, (hcut.behind r (h.subset hr)).mpr hafter⟩
      refine .page (fun _ => S.filter (before b)) ?_ ?_ ?_ ?_
      · exact fun out hout hlt => hout.toFinset_eq hlt
      · intro out b' hout hfull hlast
        rw [(hpage out hout).2.1, Option.some.injEq] at hlast
        exact hlast ▸ hcut.mints
      · intro out hout hfull
        rw [(hpage out hout).2.2]
        exact split_of_untied hw hbS huntied
      · intro out b' hout hfull hlast
        rw [(hpage out hout).2.1, Option.some.injEq] at hlast
        subst hlast
        rw [hselect]
        refine ih _ ?_ (j + 1) _ rfl hnext
        have hcard := hnext.card
        have hcard' := h.card
        rw [Nat.succ_mul] at hcard
        omega

/-- Rows of a page are expected ones. -/
theorem Delivers.subset_of_isPage {E : Finset α} (h : Delivers before behind mints n M S E) (hout : IsPage before n S out) : out.toFinset ⊆ E := by
  obtain ⟨rest, hshort, -, hsplit, -⟩ := h
  have hle : out.length ≤ n := by
    rw [hout.length]
    exact Nat.min_le_left n S.card
  rcases Nat.lt_or_eq_of_le hle with hlt | hfull
  · rw [hshort out hout hlt]
  · rw [← (hsplit out hout hfull).2]
    exact Finset.subset_union_left

/-- The last row of a full page is one that can be continued from. -/
theorem Delivers.mints_of_isPage {E : Finset α} (h : Delivers before behind mints n M S E) (hout : IsPage before n S out) (hfull : out.length = n)
    (hb : out.getLast? = some b) : mints b := by
  obtain ⟨rest, -, hmints, -, -⟩ := h
  exact hmints out b hout hfull hb

/-- The rows behind a row, when these are the smaller ones of a linear order. -/
structure LinearOn (behind : α → α → Prop) (mints : α → Prop) (M : Finset α) : Prop where
  irrefl : ∀ b ∈ M, ¬ behind b b
  trans : ∀ a ∈ M, ∀ b ∈ M, ∀ c ∈ M, behind a b → behind b c → behind a c
  total : ∀ a ∈ M, ∀ b ∈ M, mints a → mints b → a ≠ b → behind a b ∨ behind b a

/-- A set that holds, with a row, all rows behind it. -/
structure Lower (behind : α → α → Prop) (M S : Finset α) : Prop where
  subset : S ⊆ M
  closed : ∀ b ∈ S, M.filter (behind b) ⊆ S

theorem LinearOn.lower_filter (hl : LinearOn behind mints M) (hb : b ∈ M) :
    Lower behind M (M.filter (behind b)) where
  subset := Finset.filter_subset _ _
  closed := by
    intro c hc r hr
    obtain ⟨hcM, hbc⟩ := Finset.mem_filter.mp hc
    obtain ⟨hrM, hcr⟩ := Finset.mem_filter.mp hr
    exact Finset.mem_filter.mpr ⟨hrM, hl.trans b hb c hcM r hrM hbc hcr⟩

theorem exists_getLast_of_length (hn : 1 ≤ n) (h : out.length = n) :
    ∃ b, out.getLast? = some b := by
  have hne : out ≠ [] := by
    rintro rfl
    simp at h
    omega
  exact ⟨_, List.getLast?_eq_some_getLast hne⟩

/-- A walk hands out rows of its own request only. -/
theorem Delivers.expected_subset (hw : WeakOrder before) (hl : LinearOn behind mints M) (hn : 1 ≤ n)
    {E : Finset α} (h : Delivers before behind mints n M S E) (hlower : Lower behind M S) :
    E ⊆ S := by
  induction h with
  | @page S E rest hshort hmints hsplit hnext ih =>
    obtain ⟨out, hout⟩ := exists_isPage (n := n) hw S
    have hle : out.length ≤ n := by
      rw [hout.length]
      exact Nat.min_le_left n S.card
    rcases Nat.lt_or_eq_of_le hle with hlt | hfull
    · rw [← hshort out hout hlt]
      exact hout.toFinset_subset
    · obtain ⟨b, hb⟩ := exists_getLast_of_length hn hfull
      have hbS := hout.mem_of_getLast hb
      rw [← (hsplit out hout hfull).2]
      refine Finset.union_subset hout.toFinset_subset ?_
      exact (ih out b hout hfull hb (hl.lower_filter (hlower.subset hbS))).trans
        (hlower.closed b hbS)

/-- In a walk that hands out all it may, what is behind the last row of a full page is what the page
leaves. -/
theorem Delivers.behind_eq (hw : WeakOrder before) (hl : LinearOn behind mints M) (hn : 1 ≤ n) (h : Delivers before behind mints n M S S) (hlower : Lower behind M S) (hout : IsPage before n S out) (hfull : out.length = n)
    (hb : out.getLast? = some b) :
    M.filter (behind b) = S \ out.toFinset ∧
      Delivers before behind mints n M (M.filter (behind b)) (M.filter (behind b)) := by
  obtain ⟨rest, -, -, hsplit, hnext⟩ := h
  have hbS := hout.mem_of_getLast hb
  have hlower' := hl.lower_filter (hlower.subset hbS)
  have hrest : rest out = S \ out.toFinset := by
    obtain ⟨hdisjoint, hunion⟩ := hsplit out hout hfull
    rw [← hunion, Finset.union_sdiff_left, Finset.sdiff_eq_self_of_disjoint hdisjoint.symm]
  have hwalk := hnext out b hout hfull hb
  have hsub : rest out ⊆ M.filter (behind b) := hwalk.expected_subset hw hl hn hlower'
  have hsup : M.filter (behind b) ⊆ rest out := by
    rw [hrest]
    intro r hr
    refine Finset.mem_sdiff.mpr ⟨hlower.closed b hbS hr, fun hrout => ?_⟩
    -- A row of the page would come first again, and be handed out twice.
    have hrout' := mem_toFinset.mp hrout
    obtain ⟨again, hagain⟩ := exists_isPage (n := n) hw (M.filter (behind b))
    have hnotAgain : ∀ a ∈ again, a ∈ S ∧ a ∉ out := by
      intro a ha
      have haE := hwalk.subset_of_isPage hagain (mem_toFinset.mpr ha)
      rw [hrest, Finset.mem_sdiff, mem_toFinset] at haE
      exact haE
    have hrnot : r ∉ again := fun hra => (hnotAgain r hra).2 hrout'
    have hpos : again.length ≠ 0 := by
      have hcard : 0 < (M.filter (behind b)).card := Finset.card_pos.mpr ⟨r, hr⟩
      rw [hagain.length]
      omega
    obtain ⟨c, hc⟩ := exists_getLast_of_length (n := again.length) (by omega) rfl
    obtain ⟨init, rfl⟩ := List.getLast?_eq_some_iff.mp hc
    obtain ⟨hcS, hcout⟩ := hnotAgain c (by simp)
    have hswap := hagain.replace_last hw hr hrnot (hagain.first c (by simp) r hr hrnot)
      (hout.first r hrout' c hcS hcout)
    have hrE : r ∈ rest out := hwalk.subset_of_isPage hswap (mem_toFinset.mpr (by simp))
    rw [hrest, Finset.mem_sdiff] at hrE
    exact hrE.2 hrout
  have heq : rest out = M.filter (behind b) := Finset.Subset.antisymm hsub hsup
  exact ⟨heq ▸ hrest, by rwa [heq] at hwalk⟩

/-- In such a walk the last row of a full page is tied with no other. -/
theorem Delivers.untied (hw : WeakOrder before) (hl : LinearOn behind mints M) (hn : 1 ≤ n) (h : Delivers before behind mints n M S S) (hlower : Lower behind M S) (hout : IsPage before n S out) (hfull : out.length = n)
    (hb : out.getLast? = some b) : ∀ r ∈ S, r ≠ b → before r b ∨ before b r := by
  intro r hr hrb
  by_contra htied
  obtain ⟨hrb', hbr'⟩ := not_or.mp htied
  have hbS := hout.mem_of_getLast hb
  have hbM := hlower.subset hbS
  have hrM := hlower.subset hr
  have hbehind := (h.behind_eq hw hl hn hlower hout hfull hb).1
  by_cases hrout : r ∈ out
  · -- With the two exchanged the page is the same, but continued from the other row.
    have hmoved := hout.move_last hw hb hrout hrb'
    have hlength : (out.erase r ++ [r]).length = n := by
      have hmovedLength := hmoved.length
      have houtLength := hout.length
      omega
    have hsame : (out.erase r ++ [r]).toFinset = out.toFinset := by
      ext a
      simp only [mem_toFinset, mem_append, mem_singleton]
      constructor
      · rintro (ha | rfl)
        · exact mem_of_mem_erase ha
        · exact hrout
      · intro ha
        by_cases har : a = r
        · exact .inr har
        · exact .inl ((mem_erase_of_ne har).mpr ha)
    have hbehind' := (h.behind_eq hw hl hn hlower hmoved hlength
      (List.getLast?_concat)).1
    rw [hsame, ← hbehind] at hbehind'
    have hmintsb := h.mints_of_isPage hout hfull hb
    have hmintsr := h.mints_of_isPage hmoved hlength List.getLast?_concat
    rcases hl.total b hbM r hrM hmintsb hmintsr (Ne.symm hrb) with hlt | hlt
    · have hmem : r ∈ M.filter (behind r) := hbehind' ▸ Finset.mem_filter.mpr ⟨hrM, hlt⟩
      exact hl.irrefl r hrM (Finset.mem_filter.mp hmem).2
    · have hmem : b ∈ M.filter (behind b) := hbehind' ▸ Finset.mem_filter.mpr ⟨hbM, hlt⟩
      exact hl.irrefl b hbM (Finset.mem_filter.mp hmem).2
  · -- With the two exchanged each would be behind the other.
    obtain ⟨init, rfl⟩ := List.getLast?_eq_some_iff.mp hb
    have hswap := hout.replace_last hw hr hrout hrb' hbr'
    have hlength : (init ++ [r]).length = n := by simpa using hfull
    have hbehind' := (h.behind_eq hw hl hn hlower hswap hlength
      (List.getLast?_concat)).1
    have hrbehind : r ∈ M.filter (behind b) := by
      rw [hbehind, Finset.mem_sdiff, mem_toFinset]
      exact ⟨hr, hrout⟩
    have hbbehind : b ∈ M.filter (behind r) := by
      rw [hbehind', Finset.mem_sdiff, mem_toFinset]
      refine ⟨hbS, ?_⟩
      have hnodup := hout.nodup
      rw [nodup_append] at hnodup
      simp only [mem_append, mem_singleton, not_or]
      exact ⟨fun hbinit => hnodup.2.2 b hbinit b (by simp) rfl, Ne.symm hrb⟩
    exact hl.irrefl b hbM (hl.trans b hbM r hrM b hbM (Finset.mem_filter.mp hrbehind).2
      (Finset.mem_filter.mp hbbehind).2)

/-- **Cuts are needed**, where the rows behind a row are the smaller ones of a linear order. -/
theorem cuts_of_delivers (hw : WeakOrder before) (hl : LinearOn behind mints M) (hn : 1 ≤ n)
    (h : Delivers before behind mints n M M M) : Cuts before behind mints n M := by
  suffices hfront : ∀ c j S, S.card = c → Front before n M j S → Lower behind M S →
      Delivers before behind mints n M S S → ∀ k, j < k → k * n ≤ M.card →
        ∃ b, Cut before behind mints n M k b by
    have hlower : Lower behind M M := ⟨fun _ h => h, fun _ _ => Finset.filter_subset _ _⟩
    exact fun k hk => hfront _ 0 M rfl front_zero hlower h k (by omega)
  intro c
  induction c using Nat.strong_induction_on with
  | _ c ih =>
    intro j S hc hS hlower hwalk k hk hle
    obtain ⟨out, hout⟩ := exists_isPage (n := n) hw S
    have hjn : (j + 1) * n ≤ k * n := Nat.mul_le_mul_right n hk
    have hfull : out.length = n := by
      have hcard := hS.card
      rw [Nat.succ_mul] at hjn
      rw [hout.length]
      omega
    obtain ⟨b, hb⟩ := exists_getLast_of_length hn hfull
    have hbS := hout.mem_of_getLast hb
    have huntied := hwalk.untied hw hl hn hlower hout hfull hb
    obtain ⟨hbehind, hnext⟩ := hwalk.behind_eq hw hl hn hlower hout hfull hb
    have hbout := mem_of_getLast? hb
    -- The page is the last row and those before it.
    have hpage : out.toFinset = insert b (S.filter fun r => before r b) := by
      ext r
      simp only [mem_toFinset, Finset.mem_insert, Finset.mem_filter]
      constructor
      · intro hr
        by_cases hrb : r = b
        · exact .inl hrb
        · exact .inr ⟨hout.mem r hr, (huntied r (hout.mem r hr) hrb).resolve_right
            (hout.not_before_of_getLast hw hb hr)⟩
      · rintro (rfl | ⟨hr, hrb⟩)
        · exact hbout
        · by_contra hrout
          exact hout.first b hbout r hr hrout hrb
    have hrank : (S.filter fun r => before r b).card + 1 = n := by
      have hnotMem : b ∉ S.filter fun r => before r b :=
        fun hmem => hw.irrefl b (Finset.mem_filter.mp hmem).2
      rw [← Finset.card_insert_of_notMem hnotMem, ← hpage,
        toFinset_card_of_nodup hout.nodup, hfull]
    obtain ⟨hdisjoint, hsplit⟩ := split_of_untied hw hbS huntied
    have hafter : M.filter (behind b) = S.filter (before b) := by
      rw [← hpage] at hdisjoint hsplit
      calc M.filter (behind b) = S \ out.toFinset := hbehind
        _ = (out.toFinset ∪ S.filter (before b)) \ out.toFinset := by rw [hsplit]
        _ = S.filter (before b) := by
          rw [Finset.union_sdiff_left, Finset.sdiff_eq_self_of_disjoint hdisjoint.symm]
    rcases Nat.lt_or_eq_of_le hk with hlater | rfl
    · have hnextFront := hS.next hw hbS hrank huntied
      rw [← hafter] at hnextFront
      refine ih _ ?_ (j + 1) _ rfl hnextFront (hl.lower_filter (hlower.subset hbS)) hnext k hlater hle
      have hcard := hnextFront.card
      have hcard' := hS.card
      rw [Nat.succ_mul] at hcard
      omega
    · refine ⟨b, hlower.subset hbS, ?_, ?_, ?_, ?_⟩
      · rw [hS.card_filter_before hbS, Nat.succ_mul]
        omega
      · intro r hr hrb
        by_cases hrS : r ∈ S
        · exact huntied r hrS hrb
        · exact .inl (hS.done r hr hrS b hbS)
      · exact hwalk.mints_of_isPage hout hfull hb
      · intro r hr
        constructor
        · intro hbr
          have hmem : r ∈ M.filter (behind b) := Finset.mem_filter.mpr ⟨hr, hbr⟩
          rw [hafter] at hmem
          exact (Finset.mem_filter.mp hmem).2
        · intro hbr
          have hrS : r ∈ S := by
            by_contra hrS
            exact hw.asymm hbr (hS.done r hr hrS b hbS)
          have hmem : r ∈ S.filter (before b) := Finset.mem_filter.mpr ⟨hrS, hbr⟩
          rw [← hafter] at hmem
          exact (Finset.mem_filter.mp hmem).2

end Walks

end Keyset
