import LazyPock.Sql.Syntax

/-!
# Placeholders and their values

A statement is sent with a list of values, and its placeholder `$n` stands for the `n`-th of them. A
condition that was written for a list of its own is put behind other values by moving its placeholders.

`Sql.Token.bound` puts the values into the tokens of a statement: two statements with the same bound
tokens say the same of the same values, however their placeholders are numbered.

## Main definitions

* `Sql.Bound`, `Sql.Token.bound`: tokens with values in place of placeholders.
* `Sql.Scalar.shift`, `Sql.Pred.shift`: an expression with its placeholders moved.
* `Sql.conjoin`: conditions joined by `and`.

## Main results

* `Sql.Pred.tokens_shift`: nothing but the placeholders changes.
* `Sql.map_bound_shift`: behind the values of others it is bound to its own values.
* `Sql.lexes_conjoin`: a conjunction reads as its conditions.
-/

namespace LazyPock.Sql

/-! ### Values in place of placeholders -/

/-- A token of a statement that is sent with values. -/
inductive Bound where
  | token (t : Token)
  /-- A placeholder, by its value; `none` where there is no such value. -/
  | value (v : Option String)
deriving DecidableEq

/-- A token with its value; `$1` is the first one. -/
@[grind =]
def Token.bound (values : List String) : Token → Bound
  | .param 0 => .value none
  | .param (n + 1) => .value values[n]?
  | t => .token t

/-- A token with its placeholder moved. -/
@[grind =]
def Token.shift (offset : ℕ) : Token → Token
  | .param n => .param (n + offset)
  | t => t

section Bound

variable (values front back : List String)

@[simp] theorem bound_word (s : String) : Token.bound values (.word s) = .token (.word s) := rfl

@[simp] theorem bound_sym (s : String) : Token.bound values (.sym s) = .token (.sym s) := rfl

@[simp] theorem bound_param_succ (n : ℕ) :
    Token.bound values (.param (n + 1)) = .value values[n]? := rfl

variable {values}

/-- Behind other values a moved placeholder has its own value. -/
theorem bound_shift {t : Token} (h : ∀ n, t = .param n → 1 ≤ n ∧ n ≤ values.length) :
    (t.shift front.length).bound (front ++ values ++ back) = t.bound values := by
  cases t with
  | param n =>
    obtain ⟨hpos, hle⟩ := h n rfl
    obtain ⟨k, rfl⟩ : ∃ k, n = k + 1 := ⟨n - 1, by omega⟩
    have hk : k + 1 + front.length = (k + front.length) + 1 := by omega
    rw [Token.shift, hk, bound_param_succ, bound_param_succ, List.append_assoc,
      List.getElem?_append_right (by omega), Nat.add_sub_cancel, List.getElem?_append_left (by omega)]
  | _ => rfl

theorem mem_params {ts : List Token} {n : ℕ} : n ∈ params ts ↔ .param n ∈ ts := by
  rw [params, List.mem_filterMap]
  constructor
  · rintro ⟨t, ht, hn⟩
    cases t with
    | param m =>
      obtain rfl := Option.some.inj hn
      exact ht
    | _ => cases hn
  · exact fun h => ⟨_, h, rfl⟩

theorem map_bound_of_params {ts : List Token} (h : params ts = []) :
    ts.map (Token.bound values) = ts.map .token := by
  refine List.map_congr_left fun t ht => ?_
  cases t with
  | param n => exact absurd (mem_params.mpr ht) (by simp [h])
  | _ => rfl

/-- **A condition behind the values of others** is bound to its own values. -/
theorem map_bound_shift {ts : List Token} (h : ∀ n ∈ params ts, 1 ≤ n ∧ n ≤ values.length) :
    (ts.map (Token.shift front.length)).map (Token.bound (front ++ values ++ back)) =
      ts.map (Token.bound values) := by
  rw [List.map_map]
  refine List.map_congr_left fun t ht => bound_shift front back fun n hn => h n (mem_params.mpr ?_)
  exact hn ▸ ht

end Bound

/-! ### Expressions with their placeholders moved -/

section Shift

@[grind =]
def Scalar.shift (offset : ℕ) : Scalar → Scalar
  | param index => param (index + offset)
  | callWith schema name argument => callWith schema name (argument.shift offset)
  | cast inner type => cast (inner.shift offset) type
  | concat left right => concat (left.shift offset) (right.shift offset)
  | other => other

@[grind =]
def Pred.shift (offset : ℕ) : Pred → Pred
  | true => true
  | isNull value => isNull (value.shift offset)
  | isNotNull value => isNotNull (value.shift offset)
  | compare left op right => compare (left.shift offset) op (right.shift offset)
  | ilike negated left pattern => ilike negated (left.shift offset) (pattern.shift offset)
  | eqAny left array => eqAny (left.shift offset) (array.shift offset)
  | not inner => not (inner.shift offset)
  | and left right => and (left.shift offset) (right.shift offset)
  | or left right => or (left.shift offset) (right.shift offset)
  | guarded guard inner => guarded (guard.shift offset) (inner.shift offset)
  | existsIn table row join inner => existsIn table row (join.shift offset) (inner.shift offset)

variable (offset : ℕ)

theorem map_shift_of_params {ts : List Token} (h : params ts = []) :
    ts.map (Token.shift offset) = ts := by
  refine (List.map_congr_left fun t ht => ?_).trans (List.map_id ts)
  cases t with
  | param n => exact absurd (mem_params.mpr ht) (by simp [h])
  | _ => rfl

theorem PgType.map_shift (t : PgType) : t.tokens.map (Token.shift offset) = t.tokens :=
  map_shift_of_params offset t.params_tokens

theorem Literal.map_shift (v : Literal) : v.tokens.map (Token.shift offset) = v.tokens := by
  rcases v with _ | ⟨_ | _, _⟩ | _ <;> rfl

theorem Scalar.tokens_shift (s : Scalar) :
    (s.shift offset).tokens = s.tokens.map (Token.shift offset) := by
  simp only [tokens]
  induction s with
  | column table name =>
    rcases table with _ | _ | _ <;> rfl
  | number negative magnitude type =>
    simp [shift, marks, PgType.map_shift, Literal.map_shift, Token.shift]
  | cast inner type ih => simp [shift, marks, ih, PgType.map_shift, Token.shift]
  | callWith schema name argument ih => simp [shift, marks, ih, Token.shift]
  | concat left right ihl ihr => simp [shift, marks, ihl, ihr, Token.shift]
  | str value => rfl
  | bool value => rfl
  | _ => rfl

/-- Nothing but the placeholders changes. -/
theorem Pred.tokens_shift (p : Pred) : (p.shift offset).tokens = p.tokens.map (Token.shift offset) := by
  have hscalar (s : Scalar) : (s.shift offset).marks.flatMap Mark.tokens =
      (s.marks.flatMap Mark.tokens).map (Token.shift offset) := s.tokens_shift offset
  simp only [tokens]
  induction p with
  | ilike negated left pattern =>
    cases negated <;> simp [shift, marks, hscalar, Token.shift]
  | not inner ih => simp [shift, marks, ih, Token.shift]
  | and left right ihl ihr => simp [shift, marks, ihl, ihr, Token.shift]
  | or left right ihl ihr => simp [shift, marks, ihl, ihr, Token.shift]
  | guarded guard inner ihg ihi => simp [shift, marks, ihg, ihi, Token.shift]
  | existsIn table row join inner ihj ihi =>
    simp [shift, marks, ihj, ihi, Token.shift]
  | _ => simp [shift, marks, hscalar, Token.shift]

theorem Scalar.shift_zero (s : Scalar) : s.shift 0 = s := by
  induction s with
  | cast inner type ih => rw [shift, ih]
  | callWith schema name argument ih => rw [shift, ih]
  | concat left right ihl ihr => rw [shift, ihl, ihr]
  | _ => rfl

theorem Pred.shift_zero (p : Pred) : p.shift 0 = p := by
  induction p with
  | not inner ih => rw [shift, ih]
  | and left right ihl ihr => rw [shift, ihl, ihr]
  | or left right ihl ihr => rw [shift, ihl, ihr]
  | guarded guard inner ihg ihi => rw [shift, ihg, ihi]
  | existsIn table row join inner ihj ihi => rw [shift, ihj, ihi]
  | _ => simp only [shift, Scalar.shift_zero]

end Shift

/-! ### Conjunctions -/

/-- Lists joined by one element. -/
@[grind =]
def conjoin {α : Type*} (word : α) : List (List α) → List α
  | [] => []
  | [a] => a
  | a :: b :: rest => a ++ word :: conjoin word (b :: rest)

theorem map_conjoin {α β : Type*} (f : α → β) (word : α) (items : List (List α)) :
    (conjoin word items).map f = conjoin (f word) (items.map (List.map f)) := by
  fun_induction conjoin word items with
  | case1 => rfl
  | case2 => rfl
  | case3 a b rest ih =>
    simp only [List.map_append, List.map_cons, conjoin] at ih ⊢
    rw [ih]

/-- A blank behind a text changes nothing. -/
theorem Lexes.spaced {cs : List Char} {ts : List Token} (h : Lexes cs ts) : Lexes (cs ++ [' ']) ts := by
  obtain ⟨last, hlast, rfl, hclosable⟩ := h
  rcases step_blank_of_closable hclosable hlast with hstep | hstep
  · exact ⟨[], by simp [run_append, run, hstep, flush], by simp [run_append, run, hstep],
      by simp [run_append, run, hstep, LexState.Closable]⟩
  · exact ⟨[], by simp [run_append, run, hstep, flush], by simp [run_append, run, hstep],
      by simp [run_append, run, hstep, LexState.Closable]⟩

/-- Conditions joined by `and` read as their tokens. -/
theorem lexes_conjoin {conditions : List (String × List Token)} (hne : conditions ≠ [])
    (h : ∀ c ∈ conditions, Lexes c.1.toList c.2) :
    Lexes (Text.join " and " (conditions.map Prod.fst)).toList
      (conjoin (.word "and") (conditions.map Prod.snd)) := by
  have hand : run .start " and ".toList = ([.word "and"], .start) := run_frame (by simp [fixedTexts])
  induction conditions with
  | nil => exact absurd rfl hne
  | cons first rest ih =>
    have hfirst := h first List.mem_cons_self
    cases rest with
    | nil => simpa [Text.join, conjoin] using hfirst
    | cons second rest =>
      have hrest := ih (by simp) fun c hc => h c (List.mem_cons_of_mem _ hc)
      have hboth := hfirst.between (by decide) (by decide) hand hrest
      simpa [Text.join, conjoin] using hboth

end LazyPock.Sql
