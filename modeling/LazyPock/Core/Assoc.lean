import Mathlib.Data.String.Basic

/-!
# Maps with string keys

A map as the list of its entries in key order. `insert` replaces an entry or adds one; the entries
found after a sequence of insertions do not depend on the order they stand in.

## Main definitions

* `Assoc.lookup`, `Assoc.insert`, `Assoc.erase`,
  `Assoc.insertAll`, `Assoc.updateAll`.
* `Assoc.Sorted`: the entries stand in key order, each key once.

## Main results

* `Assoc.lookup_insertAll`: the entries inserted last win.
* `Assoc.lookup_updateAll`: what updates of different keys leave.
* `Assoc.Sorted.lookup_filter`: what is found where some entries were dropped.
* `Assoc.Sorted.ext`: a map is determined by its entries.
-/

namespace LazyPock.Assoc

open List

variable {α : Type}

/-- The value under a key. -/
@[grind =]
def lookup (key : String) : List (String × α) → Option α
  | [] => none
  | (k, v) :: rest => if k = key then some v else lookup key rest

/-- The entry of `key` replaced, or added where the key order puts it. -/
@[grind =]
def insert (key : String) (value : α) : List (String × α) → List (String × α)
  | [] => [(key, value)]
  | (k, v) :: rest =>
    if k = key then (key, value) :: rest
    else if key < k then (key, value) :: (k, v) :: rest
    else (k, v) :: insert key value rest

/-- The entries without that of `key`. -/
def erase (key : String) (entries : List (String × α)) : List (String × α) :=
  entries.filter fun e => e.1 ≠ key

/-- The entry of `key`, where there is a value for it. -/
@[grind =]
def insertSome (key : String) (value : Option α) (entries : List (String × α)) : List (String × α) :=
  match value with
  | some v => insert key v entries
  | none => entries

/-- Every entry of `overrides` inserted in turn. -/
def insertAll (entries overrides : List (String × α)) : List (String × α) :=
  overrides.foldl (fun acc (k, v) => insert k v acc) entries

@[simp] theorem lookup_nil (key : String) : lookup key ([] : List (String × α)) = none := rfl

variable {key : String} {entries : List (String × α)}

theorem mem_of_lookup {value : α}
    (h : lookup key entries = some value) : (key, value) ∈ entries := by
  induction entries with
  | nil => cases h
  | cons e es ih =>
    obtain ⟨k, v⟩ := e
    simp only [lookup] at h
    split_ifs at h with hk
    · obtain rfl := Option.some.inj h
      exact hk ▸ mem_cons_self
    · exact mem_cons_of_mem _ (ih h)

theorem lookup_insert_self (key : String) (value : α) (entries : List (String × α)) :
    lookup key (insert key value entries) = some value := by
  induction entries with
  | nil => simp [insert, lookup]
  | cons entry rest ih =>
    obtain ⟨k, v⟩ := entry
    simp only [insert]
    split_ifs with hk hlt <;> simp [lookup, *]

theorem lookup_insert_of_ne {other : String} (h : other ≠ key) (value : α)
    (entries : List (String × α)) :
    lookup other (insert key value entries) = lookup other entries := by
  induction entries with
  | nil => simp [insert, lookup, h.symm]
  | cons entry rest ih =>
    obtain ⟨k, v⟩ := entry
    simp only [insert]
    split_ifs with hk hlt
    · subst hk
      simp [lookup, h.symm]
    · simp [lookup, h.symm]
    · simp [lookup, ih]

/-- Where nothing is found there are no entries. -/
theorem eq_nil_of_lookup (h : ∀ key, lookup key entries = none) :
    entries = [] := by
  cases entries with
  | nil => rfl
  | cons entry rest => simpa [lookup] using h entry.1

theorem lookup_erase_self (key : String) (entries : List (String × α)) :
    lookup key (erase key entries) = none := by
  induction entries with
  | nil => rfl
  | cons entry rest ih =>
    obtain ⟨k, v⟩ := entry
    by_cases hk : k = key
    · simpa [erase, hk] using ih
    · simpa [erase, lookup, hk] using ih

theorem lookup_erase_of_ne {other : String} (h : other ≠ key) (entries : List (String × α)) :
    lookup other (erase key entries) = lookup other entries := by
  induction entries with
  | nil => rfl
  | cons entry rest ih =>
    obtain ⟨k, v⟩ := entry
    by_cases hk : k = key
    · simpa [erase, lookup, hk, h.symm] using ih
    · by_cases ho : k = other
      · simp [erase, lookup, ho, h]
      · simpa [erase, lookup, hk, ho] using ih

theorem lookup_insertSome_self (key : String) (value : Option α) (entries : List (String × α)) :
    lookup key (insertSome key value entries) = value.or (lookup key entries) := by
  cases value with
  | none => rfl
  | some v => exact lookup_insert_self key v entries

theorem lookup_insertSome_of_ne {other : String} (h : other ≠ key) (value : Option α)
    (entries : List (String × α)) :
    lookup other (insertSome key value entries) = lookup other entries := by
  cases value with
  | none => rfl
  | some v => exact lookup_insert_of_ne h v entries

/-- The entries stand in key order, each key once. -/
def Sorted (entries : List (String × α)) : Prop := entries.Pairwise fun a b => a.1 < b.1

instance (entries : List (String × α)) : Decidable (Sorted entries) :=
  inferInstanceAs (Decidable (entries.Pairwise fun a b => a.1 < b.1))

theorem lookup_eq_none_of_lt
    (h : ∀ e ∈ entries, key < e.1) : lookup key entries = none := by
  induction entries with
  | nil => rfl
  | cons e es ih =>
    have hne : e.1 ≠ key := (ne_of_lt (h e (by simp))).symm
    simp only [lookup, hne, ↓reduceIte]
    exact ih fun e' he' => h e' (mem_cons_of_mem _ he')

theorem mem_insert {value : α}
    {e : String × α} (h : e ∈ insert key value entries) : e = (key, value) ∨ e ∈ entries := by
  induction entries with
  | nil => simpa [insert] using h
  | cons entry rest ih =>
    obtain ⟨k, v⟩ := entry
    simp only [insert] at h
    split_ifs at h with hk hlt
    · rcases mem_cons.mp h with h | h
      · exact .inl h
      · exact .inr (mem_cons_of_mem _ h)
    · simpa using h
    · rcases mem_cons.mp h with h | h
      · exact .inr (h ▸ mem_cons_self)
      · rcases ih h with h | h
        · exact .inl h
        · exact .inr (mem_cons_of_mem _ h)

theorem Sorted.insert (h : Sorted entries) (key : String)
    (value : α) : Sorted (Assoc.insert key value entries) := by
  induction entries with
  | nil => exact pairwise_singleton _ _
  | cons entry rest ih =>
    obtain ⟨k, v⟩ := entry
    obtain ⟨hk, hrest⟩ := pairwise_cons.mp h
    simp only [Assoc.insert]
    split_ifs with heq hlt
    · subst heq
      exact pairwise_cons.mpr ⟨hk, hrest⟩
    · refine pairwise_cons.mpr ⟨fun e he => ?_, h⟩
      rcases mem_cons.mp he with rfl | he
      · exact hlt
      · exact lt_trans hlt (hk e he)
    · refine pairwise_cons.mpr ⟨fun e he => ?_, ih hrest⟩
      rcases mem_insert he with rfl | he
      · exact lt_of_le_of_ne (not_lt.mp hlt) heq
      · exact hk e he

theorem Sorted.insertAll {overrides : List (String × α)} (h : Sorted entries) :
    Sorted (Assoc.insertAll entries overrides) := by
  induction overrides generalizing entries with
  | nil => exact h
  | cons e es ih => exact ih (h.insert e.1 e.2)

/-- After inserting every entry of a map, its own entries are the ones found. -/
theorem lookup_insertAll {overrides : List (String × α)} (hsorted : Sorted overrides)
    (key : String) :
    lookup key (insertAll entries overrides) = (lookup key overrides).or (lookup key entries) := by
  induction overrides generalizing entries with
  | nil => simp [insertAll]
  | cons entry rest ih =>
    obtain ⟨k, v⟩ := entry
    obtain ⟨hk, hrest⟩ := pairwise_cons.mp hsorted
    have hstep : insertAll entries ((k, v) :: rest) = insertAll (insert k v entries) rest := rfl
    rw [hstep, ih hrest]
    by_cases heq : k = key
    · subst heq
      simp [lookup, lookup_eq_none_of_lt hk, lookup_insert_self]
    · simp [lookup, heq, lookup_insert_of_ne (Ne.symm heq)]

/-- Every update in turn, each of the entry that is there: one that gives nothing leaves it. -/
@[grind =]
def updateAll {β : Type} (f : Option α → β → Option α) (entries : List (String × α))
    (updates : List (String × β)) : List (String × α) :=
  updates.foldl (fun acc (k, v) =>
    match f (lookup k acc) v with
    | some new => insert k new acc
    | none => acc) entries

theorem Sorted.updateAll {β : Type} {f : Option α → β → Option α}
    {updates : List (String × β)} (h : Sorted entries) : Sorted (updateAll f entries updates) := by
  induction updates generalizing entries with
  | nil => exact h
  | cons e es ih =>
    have hnext : Sorted (match f (lookup e.1 entries) e.2 with
        | some new => Assoc.insert e.1 new entries
        | none => entries) := by
      split
      · exact h.insert e.1 _
      · exact h
    exact ih hnext

/-- What is found after updates of different keys: each is of the entry that was there before. -/
theorem lookup_updateAll {β : Type} {f : Option α → β → Option α}
    {updates : List (String × β)} (hsorted : Sorted updates) (key : String) :
    lookup key (updateAll f entries updates) =
      ((lookup key updates).bind (f (lookup key entries))).or (lookup key entries) := by
  induction updates generalizing entries with
  | nil => simp [updateAll]
  | cons entry rest ih =>
    obtain ⟨k, v⟩ := entry
    obtain ⟨hk, hrest⟩ := pairwise_cons.mp hsorted
    have hstep : updateAll f entries ((k, v) :: rest) =
        updateAll f (match f (lookup k entries) v with
          | some new => insert k new entries
          | none => entries) rest := rfl
    rw [hstep, ih hrest]
    by_cases heq : k = key
    · subst heq
      cases hnew : f (lookup k entries) v <;>
        simp [lookup, lookup_eq_none_of_lt hk, lookup_insert_self, hnew]
    · cases hnew : f (lookup k entries) v <;>
        simp [lookup, heq, lookup_insert_of_ne (Ne.symm heq)]

theorem Sorted.filter (h : Sorted entries)
    (p : String × α → Bool) : Sorted (entries.filter p) := List.Pairwise.filter p h

/-- What is found where some entries were dropped. -/
theorem Sorted.lookup_filter (h : Sorted entries)
    (p : String × α → Bool) (key : String) :
    lookup key (entries.filter p) = (lookup key entries).filter fun value => p (key, value) := by
  induction entries with
  | nil => rfl
  | cons entry rest ih =>
    obtain ⟨k, v⟩ := entry
    obtain ⟨hk, hrest⟩ := pairwise_cons.mp h
    by_cases hp : p (k, v) = true
    · rw [filter_cons_of_pos hp]
      by_cases heq : k = key
      · subst heq
        simp [lookup, Option.filter_some, hp]
      · simp [lookup, heq, ih hrest]
    · rw [filter_cons_of_neg hp]
      by_cases heq : k = key
      · subst heq
        have hnone : lookup k (rest.filter p) = none :=
          lookup_eq_none_of_lt fun e he => hk e (mem_of_mem_filter he)
        simp [lookup, Option.filter_some, hp, hnone]
      · simp [lookup, heq, ih hrest]

/-- The entries of a map are what is found in it. -/
theorem Sorted.lookup_eq_some (h : Sorted entries)
    {value : α} : lookup key entries = some value ↔ (key, value) ∈ entries := by
  refine ⟨mem_of_lookup, fun hmem => ?_⟩
  induction entries with
  | nil => cases hmem
  | cons entry rest ih =>
    obtain ⟨hk, hrest⟩ := pairwise_cons.mp h
    rcases mem_cons.mp hmem with rfl | hmem
    · simp [lookup]
    · rw [lookup, if_neg (ne_of_lt (hk _ hmem)), ih hrest hmem]

/-- A rewriting of the values leaves the keys. -/
theorem lookup_map {β : Type} (f : String → α → β) (entries : List (String × α)) (key : String) :
    lookup key (entries.map fun e => (e.1, f e.1 e.2)) = (lookup key entries).map (f key) := by
  induction entries with
  | nil => rfl
  | cons entry rest ih =>
    obtain ⟨k, v⟩ := entry
    by_cases heq : k = key
    · simp [lookup, heq]
    · simp only [map_cons, lookup, heq, ↓reduceIte, ih]

theorem Sorted.map {β : Type} (h : Sorted entries)
    (f : String → α → β) : Sorted (entries.map fun e => (e.1, f e.1 e.2)) :=
  pairwise_map.mpr h

/-- Two maps with the same entry under every key are the same. -/
theorem Sorted.ext {a b : List (String × α)} (ha : Sorted a) (hb : Sorted b)
    (h : ∀ key, lookup key a = lookup key b) : a = b := by
  induction a generalizing b with
  | nil =>
    cases b with
    | nil => rfl
    | cons e es => simpa [lookup] using h e.1
  | cons x xs ih =>
    obtain ⟨k, v⟩ := x
    obtain ⟨hk, hxs⟩ := pairwise_cons.mp ha
    cases b with
    | nil => simpa [lookup] using h k
    | cons y ys =>
      obtain ⟨l, w⟩ := y
      obtain ⟨hl, hys⟩ := pairwise_cons.mp hb
      have hkey : k = l := by
        rcases lt_trichotomy k l with hlt | heq | hgt
        · have hnone : lookup k ((l, w) :: ys) = none := by
            refine lookup_eq_none_of_lt fun e he => ?_
            rcases mem_cons.mp he with rfl | he
            · exact hlt
            · exact lt_trans hlt (hl e he)
          rw [← h k] at hnone
          simp [lookup] at hnone
        · exact heq
        · have hnone : lookup l ((k, v) :: xs) = none := by
            refine lookup_eq_none_of_lt fun e he => ?_
            rcases mem_cons.mp he with rfl | he
            · exact hgt
            · exact lt_trans hgt (hk e he)
          rw [h l] at hnone
          simp [lookup] at hnone
      subst hkey
      have hval : v = w := by simpa [lookup] using h k
      subst hval
      have hrest : ∀ key, lookup key xs = lookup key ys := by
        intro key
        by_cases heq : k = key
        · subst heq
          rw [lookup_eq_none_of_lt hk, lookup_eq_none_of_lt hl]
        · simpa [lookup, heq] using h key
      rw [ih hxs hys hrest]

/-- Updates leave a map as it is where each of them leaves its own entry. -/
theorem Sorted.updateAll_eq_self {β : Type} {f : Option α → β → Option α} {updates : List (String × β)} (h : Sorted entries)
    (hupdates : Sorted updates) :
    Assoc.updateAll f entries updates = entries ↔
      ∀ e ∈ updates, (f (lookup e.1 entries) e.2).or (lookup e.1 entries) = lookup e.1 entries := by
  constructor
  · intro heq e he
    have hlookup : lookup e.1 (Assoc.updateAll f entries updates) = _ := lookup_updateAll hupdates e.1
    rw [heq, hupdates.lookup_eq_some.mpr he, Option.bind_some] at hlookup
    exact hlookup.symm
  · intro hall
    refine h.updateAll.ext h fun key => ?_
    rw [lookup_updateAll hupdates]
    cases hkey : lookup key updates with
    | none => simp
    | some v => exact hall (key, v) (mem_of_lookup hkey)

/-- Updates made twice are those made once, where each of them is. -/
theorem Sorted.updateAll_updateAll {β : Type} {f : Option α → β → Option α} {updates : List (String × β)} (h : Sorted entries)
    (hupdates : Sorted updates)
    (htwice : ∀ e ∈ updates,
      let once := (f (lookup e.1 entries) e.2).or (lookup e.1 entries)
      (f once e.2).or once = once) :
    Assoc.updateAll f (Assoc.updateAll f entries updates) updates =
      Assoc.updateAll f entries updates := by
  refine (h.updateAll.updateAll_eq_self hupdates).mpr fun e he => ?_
  rw [lookup_updateAll hupdates, hupdates.lookup_eq_some.mpr he, Option.bind_some]
  exact htwice e he

end LazyPock.Assoc
