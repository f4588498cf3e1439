import LazyPock.Sql.Semantics
import Mathlib.Data.List.Infix

/-!
# Patterns

What a pattern of `LIKE` matches: `%` any run of characters, `_` any character, a character behind
the escape character `\` itself. A pattern between two `%` whose own metacharacters are escaped
matches the texts that contain it.

## Main definitions

* `Sql.Like`: a pattern matches a text.
* `Sql.Complete`: a pattern that does not end in its escape character.
* `Sql.escaped`: a text as a pattern that matches it alone.

## Main results

* `Sql.likeMatch_complete`: `likeMatch` decides the relation.
* `Sql.like_contains_iff`: an escaped text between two `%` matches what contains it.
-/

namespace LazyPock.Sql

/-! ### The relation -/

/-- The metacharacters of a pattern. -/
def isMeta (c : Char) : Bool := c = '\\' || c = '%' || c = '_'

/-- **A pattern matches a text.** -/
inductive Like : List Char → List Char → Prop
  | nil : Like [] []
  | run {p text : List Char} (skipped : List Char) (h : Like p text) :
      Like ('%' :: p) (skipped ++ text)
  | any {p text : List Char} (c : Char) (h : Like p text) : Like ('_' :: p) (c :: text)
  | escape {p text : List Char} (c : Char) (h : Like p text) : Like ('\\' :: c :: p) (c :: text)
  | char {c : Char} {p text : List Char} (hc : isMeta c = false) (h : Like p text) :
      Like (c :: p) (c :: text)

/-- A pattern that does not end in its escape character. -/
@[grind =]
def Complete : List Char → Prop
  | [] => True
  | ['\\'] => False
  | '\\' :: _ :: p => Complete p
  | _ :: p => Complete p

/-- A text with its metacharacters escaped. -/
def escaped (text : List Char) : List Char :=
  text.flatMap fun c => if isMeta c then ['\\', c] else [c]

variable {text : List Char}

theorem like_nil_iff : Like [] text ↔ text = [] := by
  constructor
  · intro h
    cases h
    rfl
  · rintro rfl
    exact .nil

variable {p : List Char}

theorem like_run_iff :
    Like ('%' :: p) text ↔ ∃ rest ∈ text.tails, Like p rest := by
  constructor
  · intro h
    cases h with
    | run skipped h => exact ⟨_, (List.mem_tails _ _).mpr (List.suffix_append skipped _), h⟩
    | char hc => cases hc
  · rintro ⟨rest, hrest, h⟩
    obtain ⟨skipped, rfl⟩ := (List.mem_tails _ _).mp hrest
    exact .run skipped h

theorem like_any_iff {c : Char} :
    Like ('_' :: p) (c :: text) ↔ Like p text := by
  constructor
  · intro h
    cases h with
    | any _ h => exact h
    | char hc => cases hc
  · exact .any c

theorem like_escape_iff {c d : Char} :
    Like ('\\' :: c :: p) (d :: text) ↔ c = d ∧ Like p text := by
  constructor
  · intro h
    cases h with
    | escape _ h => exact ⟨rfl, h⟩
    | char hc => cases hc
  · rintro ⟨rfl, h⟩
    exact .escape c h

theorem like_char_iff {c d : Char} (hc : isMeta c = false) :
    Like (c :: p) (d :: text) ↔ c = d ∧ Like p text := by
  constructor
  · intro h
    generalize htext : d :: text = whole at h
    cases h with
    | run => cases hc
    | any => cases hc
    | escape => cases hc
    | char _ h =>
      obtain ⟨rfl, rfl⟩ := List.cons.inj htext
      exact ⟨rfl, h⟩
  · rintro ⟨rfl, h⟩
    exact .char hc h

/-- Only `%` matches the empty text. -/
theorem not_like_nil {c : Char} (hc : c ≠ '%') (p : List Char) : ¬ Like (c :: p) [] := by
  intro h
  generalize htext : ([] : List Char) = text at h
  cases h with
  | run => exact hc rfl
  | any => cases htext
  | escape => cases htext
  | char => cases htext

/-! ### The matcher -/

/-- The search for a rest of the text that matches. -/
theorem foldr_tails {f : List Char → Option Bool} {P : List Char → Prop}
    (h : ∀ t, ∃ b, f t = some b ∧ (b = true ↔ P t)) (ts : List (List Char)) :
    ∃ b, ts.foldr (fun t rest => match f t with
        | none => none
        | some true => some true
        | some false => rest) (some false) = some b ∧ (b = true ↔ ∃ t ∈ ts, P t) := by
  induction ts with
  | nil => exact ⟨false, rfl, by simp⟩
  | cons t ts ih =>
    obtain ⟨b, hb, hbP⟩ := h t
    obtain ⟨c, hc, hcP⟩ := ih
    rw [List.foldr_cons, hb]
    cases b with
    | true => exact ⟨true, rfl, by simpa using .inl (hbP.mp rfl)⟩
    | false =>
      have hnot : ¬ P t := fun hP => Bool.false_ne_true (hbP.mpr hP)
      exact ⟨c, hc, by simpa [hnot] using hcP⟩

theorem likeMatch_char {c : Char} (hc : isMeta c = false) (p : List Char) (d : Char)
    (text : List Char) :
    likeMatch (c :: p) (d :: text) = if c = d then likeMatch p text else some false := by
  have hne : c ≠ '%' ∧ c ≠ '_' ∧ c ≠ '\\' := by
    refine ⟨?_, ?_, ?_⟩ <;> rintro rfl <;> cases hc
  rw [likeMatch.eq_def]
  split <;> simp_all

theorem likeMatch_nil {c : Char} (hc : c ≠ '%') (p : List Char) :
    likeMatch (c :: p) [] = some false := by
  rw [likeMatch.eq_def]
  split <;> simp_all

theorem complete_cons {c : Char} (hc : c ≠ '\\') (h : Complete p) :
    Complete (c :: p) := by
  unfold Complete
  split <;> simp_all

theorem complete_tail {c : Char} (h : Complete (c :: p)) (hc : c ≠ '\\') :
    Complete p := by
  unfold Complete at h
  split at h <;> simp_all

/-- **The matcher decides the relation** on patterns that do not end in their escape character. -/
theorem likeMatch_complete (hp : Complete p) (text : List Char) :
    ∃ b, likeMatch p text = some b ∧ (b = true ↔ Like p text) := by
  induction hn : p.length using Nat.strong_induction_on generalizing p text with
  | _ n ih =>
    cases p with
    | nil => exact ⟨text.isEmpty, by simp [likeMatch], by simp [like_nil_iff]⟩
    | cons c p =>
      rw [List.length_cons] at hn
      by_cases hrun : c = '%'
      · subst hrun
        have hall := foldr_tails fun t => ih p.length (by omega) (complete_tail hp (by decide)) t rfl
        obtain ⟨b, hb, hiff⟩ := hall text.tails
        exact ⟨b, by rw [likeMatch.eq_def]; exact hb, by rw [hiff, like_run_iff]⟩
      cases text with
      | nil =>
        exact ⟨false, likeMatch_nil hrun p, by simpa using not_like_nil hrun p⟩
      | cons d text =>
        by_cases hany : c = '_'
        · subst hany
          obtain ⟨b, hb, hiff⟩ := ih p.length (by omega) (complete_tail hp (by decide)) text rfl
          exact ⟨b, by rw [likeMatch.eq_def]; exact hb, by rw [hiff, like_any_iff]⟩
        by_cases hescape : c = '\\'
        · subst hescape
          cases p with
          | nil => exact hp.elim
          | cons e p =>
            have hp' : Complete p := hp
            by_cases hed : e = d
            · obtain ⟨b, hb, hiff⟩ := ih p.length (by simp at hn; omega) hp' text rfl
              refine ⟨b, ?_, by simp [hiff, like_escape_iff, hed]⟩
              rw [likeMatch.eq_def]
              simpa [hed] using hb
            · refine ⟨false, ?_, by simp [like_escape_iff, hed]⟩
              rw [likeMatch.eq_def]
              simp [hed]
        · have hc : isMeta c = false := by simp [isMeta, hrun, hany, hescape]
          rw [likeMatch_char hc]
          by_cases hcd : c = d
          · obtain ⟨b, hb, hiff⟩ := ih p.length (by omega) (complete_tail hp hescape) text rfl
            refine ⟨b, by rw [if_pos hcd, hb], ?_⟩
            rw [hiff, like_char_iff hc]
            exact (and_iff_right hcd).symm
          · refine ⟨false, by rw [if_neg hcd], ?_⟩
            rw [like_char_iff hc]
            simp [hcd]

/-! ### Containment -/

/-- A pattern that ends in `%` does not end in its escape character. -/
theorem complete_append_run (p : List Char) : Complete (p ++ ['%']) := by
  induction hn : p.length using Nat.strong_induction_on generalizing p with
  | _ n ih =>
    cases p with
    | nil => trivial
    | cons c p =>
      rw [List.length_cons] at hn
      by_cases hc : c = '\\'
      · subst hc
        cases p with
        | nil => trivial
        | cons d p => exact ih p.length (by simp at hn; omega) p rfl
      · exact complete_cons hc (ih p.length (by omega) p rfl)

/-- An escaped text matches itself, and what is behind it is matched by the rest. -/
theorem like_escaped_append {whole : List Char} :
    Like (escaped text ++ p) whole ↔ ∃ rest, whole = text ++ rest ∧ Like p rest := by
  induction text generalizing whole with
  | nil => simp [escaped]
  | cons c text ih =>
    -- the first character is escaped or not a metacharacter, and stands for itself
    have hfirst : Like (escaped (c :: text) ++ p) whole ↔
        ∃ behind, whole = c :: behind ∧ Like (escaped text ++ p) behind := by
      have hsplit : escaped (c :: text) ++ p =
          (if isMeta c then ['\\', c] else [c]) ++ (escaped text ++ p) := by
        simp [escaped]
      rw [hsplit]
      cases whole with
      | nil =>
        have hnot : ∀ d q, d ≠ '%' → ¬ Like (d :: q) [] := fun d q hd => not_like_nil hd q
        cases hmeta : isMeta c
        · have hne : c ≠ '%' := by
            rintro rfl
            cases hmeta
          simpa using hnot c _ hne
        · simpa using hnot '\\' _ (by decide)
      | cons d whole =>
        cases hmeta : isMeta c
        · simp [like_char_iff hmeta, eq_comm]
        · simp [like_escape_iff, eq_comm]
    rw [hfirst]
    constructor
    · rintro ⟨behind, rfl, h⟩
      obtain ⟨rest, rfl, hrest⟩ := ih.mp h
      exact ⟨rest, rfl, hrest⟩
    · rintro ⟨rest, rfl, hrest⟩
      exact ⟨text ++ rest, rfl, ih.mpr ⟨rest, rfl, hrest⟩⟩

/-- **An escaped text between two `%` matches what contains it.** -/
theorem like_contains_iff {whole : List Char} :
    Like ('%' :: (escaped text ++ ['%'])) whole ↔ text <:+: whole := by
  have hany : ∀ rest, Like ['%'] rest := by
    intro rest
    have := Like.run rest .nil
    rwa [List.append_nil] at this
  rw [like_run_iff]
  constructor
  · rintro ⟨rest, hrest, h⟩
    obtain ⟨before, rfl⟩ := (List.mem_tails _ _).mp hrest
    obtain ⟨after, rfl, -⟩ := like_escaped_append.mp h
    exact ⟨before, after, List.append_assoc _ _ _⟩
  · rintro ⟨before, after, rfl⟩
    refine ⟨text ++ after, ?_, like_escaped_append.mpr ⟨after, rfl, hany after⟩⟩
    rw [List.append_assoc]
    exact (List.mem_tails _ _).mpr (List.suffix_append _ _)

end LazyPock.Sql
