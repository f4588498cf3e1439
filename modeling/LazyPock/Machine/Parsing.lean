import Mathlib.Data.List.Basic

/-!
# Exact parsers

A parser takes a prefix off a list of tokens and returns what it read with the tokens left. It is
exact for a language when it reads the phrases of the language and nothing else: what it takes is a
phrase, and a phrase is taken whole wherever the tokens behind it cannot prolong it.

## Main definitions

* `Machine.Parser`: a parser that can fail.
* `Machine.Exact`: a parser reads a language.
* `Machine.LeftChain`: phrases with a separator between them, read as a left-associative tree.
* `Machine.chain`: the loop that reads such a chain.

## Main results

* `Machine.Exact.chain`: the loop is exact for the chains of what its item parser reads.
* `Machine.Exact.unique`: a language that a parser reads is unambiguous.
* `Machine.Exact.whole_iff`: what a parser reads to the end is a phrase.
-/

namespace Machine

variable {τ ε α : Type}

/-- A parser: what it read, and the tokens left. -/
def Parser (τ ε α : Type) : Type := List τ → Except ε (α × List τ)

/-- **A parser reads a language**, before the tokens that satisfy `stop`. -/
structure Exact (stop : List τ → Prop) (parser : Parser τ ε α) (language : List τ → α → Prop) :
    Prop where
  /-- What the parser takes is a phrase. -/
  sound : ∀ {tokens rest a}, parser tokens = .ok (a, rest) →
    ∃ phrase, tokens = phrase ++ rest ∧ language phrase a
  /-- A phrase is taken whole. -/
  complete : ∀ {phrase rest a}, language phrase a → stop rest →
    parser (phrase ++ rest) = .ok (a, rest)

namespace Exact

variable {stop : List τ → Prop} {parser : Parser τ ε α} {language : List τ → α → Prop}

/-- **A language that a parser reads is unambiguous.** -/
theorem unique (h : Exact stop parser language) (hnil : stop []) {phrase : List τ} {a b : α}
    (ha : language phrase a) (hb : language phrase b) : a = b := by
  have hread := (h.complete ha hnil).symm.trans (h.complete hb hnil)
  exact congrArg Prod.fst (Except.ok.inj hread)

/-- **What a parser reads to the end is a phrase.** -/
theorem whole_iff (h : Exact stop parser language) (hnil : stop []) {tokens : List τ} {a : α} :
    parser tokens = .ok (a, []) ↔ language tokens a := by
  constructor
  · intro hread
    obtain ⟨phrase, rfl, hphrase⟩ := h.sound hread
    rwa [List.append_nil]
  · intro hphrase
    have hread := h.complete hphrase hnil
    rwa [List.append_nil] at hread

/-- A parser is exact for a language with the same phrases. -/
theorem congr {other : List τ → α → Prop} (h : Exact stop parser language)
    (heq : ∀ phrase a, language phrase a ↔ other phrase a) : Exact stop parser other where
  sound hread := by
    obtain ⟨phrase, rfl, hphrase⟩ := h.sound hread
    exact ⟨phrase, rfl, (heq _ _).mp hphrase⟩
  complete hphrase hstop := h.complete ((heq _ _).mpr hphrase) hstop

end Exact

/-! ### Left-associative chains -/

/-- The tokens behind the first item of a chain. -/
def tailTokens (separator : τ) (items : List (List τ × α)) : List τ :=
  items.flatMap fun item => separator :: item.1

/-- The tree of a chain: each item is joined to the tree of the items before it. -/
def leftTree (build : α → α → α) (first : α) (items : List (List τ × α)) : α :=
  items.foldl (fun tree item => build tree item.2) first

/-- **Phrases with a separator between them**, read as a left-associative tree:
`item (separator item)*`. -/
def LeftChain (separator : τ) (build : α → α → α) (language : List τ → α → Prop)
    (phrase : List τ) (a : α) : Prop :=
  ∃ first items, (∀ item ∈ first :: items, language item.1 item.2) ∧
    phrase = first.1 ++ tailTokens separator items ∧ a = leftTree build first.2 items

@[simp] theorem tailTokens_nil (separator : τ) :
    tailTokens separator ([] : List (List τ × α)) = [] := rfl

@[simp] theorem tailTokens_cons (separator : τ) (item : List τ × α) (items : List (List τ × α)) :
    tailTokens separator (item :: items) =
      separator :: (item.1 ++ tailTokens separator items) := rfl

@[simp] theorem leftTree_nil (build : α → α → α) (first : α) :
    leftTree build first ([] : List (List τ × α)) = first := rfl

@[simp] theorem leftTree_cons (build : α → α → α) (first : α) (item : List τ × α)
    (items : List (List τ × α)) :
    leftTree build first (item :: items) = leftTree build (build first item.2) items := rfl

theorem length_le_tailTokens (separator : τ) (items : List (List τ × α)) :
    items.length ≤ (tailTokens separator items).length := by
  induction items with
  | nil => exact Nat.le_refl _
  | cons item items ih =>
    simp only [tailTokens_cons, List.length_cons, List.length_append]
    omega

/-- A property of the items that joining keeps holds of the tree. -/
theorem leftTree_induction {build : α → α → α} {motive : α → Prop}
    (hbuild : ∀ a b, motive a → motive b → motive (build a b)) {first : α} (hfirst : motive first)
    {items : List (List τ × α)} (hitems : ∀ item ∈ items, motive item.2) :
    motive (leftTree build first items) := by
  induction items generalizing first with
  | nil => exact hfirst
  | cons item items ih =>
    obtain ⟨hitem, hitems⟩ := List.forall_mem_cons.mp hitems
    exact ih (hbuild first item.2 hfirst hitem) hitems

/-- The tokens of an item stand in the chain. -/
theorem subset_tailTokens (separator : τ) {items : List (List τ × α)} {item : List τ × α}
    (h : item ∈ items) {t : τ} (ht : t ∈ item.1) : t ∈ tailTokens separator items :=
  List.mem_flatMap.mpr ⟨item, h, List.mem_cons_of_mem _ ht⟩

variable [DecidableEq τ]

/-- Read the items behind the first one, for at most `fuel` separators. -/
def chain (separator : τ) (build : α → α → α) (item : Parser τ ε α) :
    (fuel : ℕ) → α → Parser τ ε α
  | 0, left, tokens => .ok (left, tokens)
  | _ + 1, left, [] => .ok (left, [])
  | fuel + 1, left, t :: rest =>
    if t = separator then do
      let (right, rest) ← item rest
      chain separator build item fuel (build left right) rest
    else .ok (left, t :: rest)

section Chain

variable {separator : τ} {build : α → α → α} {item : Parser τ ε α} {language : List τ → α → Prop}
  {stop stopItem : List τ → Prop}

/-- What the loop takes is a tail of a chain. -/
theorem chain_sound (hitem : Exact stopItem item language) {fuel : ℕ} {left a : α}
    {tokens rest : List τ} (h : chain separator build item fuel left tokens = .ok (a, rest)) :
    ∃ items, (∀ p ∈ items, language p.1 p.2) ∧
      tokens = tailTokens separator items ++ rest ∧ a = leftTree build left items := by
  induction fuel generalizing left tokens with
  | zero =>
    cases h
    exact ⟨[], by simp, rfl, rfl⟩
  | succ fuel ih =>
    cases tokens with
    | nil =>
      cases h
      exact ⟨[], by simp, rfl, rfl⟩
    | cons t ts =>
      rw [chain] at h
      split at h
      · rename_i hsep
        cases hread : item ts with
        | error e =>
          rw [hread] at h
          cases h
        | ok result =>
          obtain ⟨right, behind⟩ := result
          rw [hread] at h
          obtain ⟨phrase, rfl, hphrase⟩ := hitem.sound hread
          obtain ⟨items, hitems, rfl, rfl⟩ := ih h
          refine ⟨(phrase, right) :: items, ?_, ?_, rfl⟩
          · simpa using ⟨hphrase, fun a b hab => hitems (a, b) hab⟩
          · simp [hsep]
      · cases h
        exact ⟨[], by simp, rfl, rfl⟩

/-- A tail of a chain is taken whole. -/
theorem chain_complete (hitem : Exact stopItem item language)
    (hsep : ∀ rest, stopItem (separator :: rest)) (hstop : ∀ rest, stop rest → stopItem rest)
    (hend : ∀ rest, ¬ stop (separator :: rest)) {items : List (List τ × α)}
    (hitems : ∀ p ∈ items, language p.1 p.2) {rest : List τ} (hrest : stop rest) {fuel : ℕ}
    (hfuel : items.length ≤ fuel) (left : α) :
    chain separator build item fuel left (tailTokens separator items ++ rest) =
      .ok (leftTree build left items, rest) := by
  induction items generalizing fuel left with
  | nil =>
    cases fuel with
    | zero => rfl
    | succ fuel =>
      cases rest with
      | nil => rfl
      | cons t ts =>
        have hne : t ≠ separator := by
          rintro rfl
          exact hend ts hrest
        simp [chain, hne]
  | cons p items ih =>
    cases fuel with
    | zero => simp at hfuel
    | succ fuel =>
      have hbehind : stopItem (tailTokens separator items ++ rest) := by
        cases items with
        | nil => exact hstop rest hrest
        | cons q items => exact hsep _
      have hread : item (p.1 ++ (tailTokens separator items ++ rest)) =
          .ok (p.2, tailTokens separator items ++ rest) :=
        hitem.complete (hitems p List.mem_cons_self) hbehind
      have htail := ih (fun q hq => hitems q (List.mem_cons_of_mem _ hq))
        (Nat.le_of_succ_le_succ hfuel) (build left p.2)
      simp only [tailTokens_cons, List.cons_append, List.append_assoc, chain, if_true]
      rw [hread]
      exact htail

end Chain

/-- The parser of a chain: the first item, then the loop. -/
def chained (separator : τ) (build : α → α → α) (item : Parser τ ε α) : Parser τ ε α :=
  fun tokens => do
    let (left, rest) ← item tokens
    chain separator build item rest.length left rest

/-- **The loop is exact for chains**: an item ends before a separator and wherever the chain ends,
and the chain does not end before a separator. -/
theorem Exact.chain {separator : τ} {build : α → α → α} {item : Parser τ ε α}
    {language : List τ → α → Prop} {stop stopItem : List τ → Prop}
    (hitem : Exact stopItem item language) (hsep : ∀ rest, stopItem (separator :: rest))
    (hstop : ∀ rest, stop rest → stopItem rest) (hend : ∀ rest, ¬ stop (separator :: rest)) :
    Exact stop (chained separator build item) (LeftChain separator build language) where
  sound {tokens rest a} h := by
    rw [chained] at h
    cases hread : item tokens with
    | error e =>
      rw [hread] at h
      cases h
    | ok result =>
      obtain ⟨left, behind⟩ := result
      rw [hread] at h
      obtain ⟨phrase, rfl, hphrase⟩ := hitem.sound hread
      obtain ⟨items, hitems, rfl, rfl⟩ := chain_sound hitem h
      refine ⟨phrase ++ tailTokens separator items, by simp, (phrase, left), items, ?_, rfl, rfl⟩
      simpa using ⟨hphrase, fun a b hab => hitems (a, b) hab⟩
  complete {phrase rest a} h hrest := by
    obtain ⟨first, items, hitems, rfl, rfl⟩ := h
    have hbehind : stopItem (tailTokens separator items ++ rest) := by
      cases items with
      | nil => exact hstop rest hrest
      | cons q items => exact hsep _
    have hread : item (first.1 ++ (tailTokens separator items ++ rest)) =
        .ok (first.2, tailTokens separator items ++ rest) :=
      hitem.complete (hitems first List.mem_cons_self) hbehind
    have hfuel : items.length ≤ (tailTokens separator items ++ rest).length := by
      have := length_le_tailTokens separator items
      simp only [List.length_append]
      omega
    rw [List.append_assoc, chained, hread]
    exact chain_complete hitem hsep hstop hend
      (fun q hq => hitems q (List.mem_cons_of_mem _ hq)) hrest hfuel first.2

end Machine
