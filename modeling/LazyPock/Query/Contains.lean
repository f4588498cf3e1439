import LazyPock.Rls.Policy
import LazyPock.Sql.Like

/-!
# The contains operator

What `~` and `!~` mean in a filter and in a rule (`crates/db/src/query/compile.rs` and
`crates/db/src/rls/policy.rs`). The needle on the right of a column is escaped, so the comparison is
literal containment. With the column on the right of a filter its value is the pattern, wildcards
and all.

Letter case is the database's: `ILIKE` lowers both sides and matches what it gets. `lower` is taken
to work character by character and to leave the metacharacters of patterns alone.

## Main definitions

* `Sql.LowersByCharacter`: what is taken of `lower`.
* `Sql.Postgres.ContainsFolded`, `Sql.Postgres.MatchesFolded`.
* `likeOp`, `operandText`.

## Main results

* `like_means_contains`: the contains operator of both compilers.
* `column_is_pattern`: with the column on the right it does not mean contains.
-/

namespace LazyPock

open Text Sql

/-! ### Letter case -/

namespace Sql

/-- `lower` works character by character, keeps the metacharacters of patterns, and makes no
other character into one. -/
structure LowersByCharacter (pg : Postgres) (fold : Char → List Char) : Prop where
  lower : ∀ s, (pg.lower s).toList = s.toList.flatMap fold
  keeps : ∀ c, isMeta c = true → fold c = [c]
  plain : ∀ c, isMeta c = false → ∀ d ∈ fold c, isMeta d = false

/-- One text contains another up to letter case. -/
def Postgres.ContainsFolded (pg : Postgres) (part whole : String) : Prop :=
  (pg.lower part).toList <:+: (pg.lower whole).toList

instance (pg : Postgres) (part whole : String) : Decidable (pg.ContainsFolded part whole) :=
  inferInstanceAs (Decidable (_ <:+: _))

/-- A pattern matches a text up to letter case. -/
def Postgres.MatchesFolded (pg : Postgres) (pattern text : String) : Prop :=
  Like (pg.lower pattern).toList (pg.lower text).toList

namespace LowersByCharacter

variable {pg : Postgres} {fold : Char → List Char}

theorem flatMap_escaped (h : LowersByCharacter pg fold) (cs : List Char) :
    (escaped cs).flatMap fold = escaped (cs.flatMap fold) := by
  induction cs with
  | nil => rfl
  | cons c cs ih =>
    have hcons : ∀ c cs, escaped (c :: cs) = (if isMeta c then ['\\', c] else [c]) ++ escaped cs :=
      fun c cs => by simp [escaped]
    have happend : ∀ xs ys, escaped (xs ++ ys) = escaped xs ++ escaped ys :=
      fun xs ys => by simp [escaped]
    rw [hcons, List.flatMap_append, ih, List.flatMap_cons, happend]
    congr 1
    cases hmeta : isMeta c
    · have hplain : escaped (fold c) = fold c := by
        have hall : ∀ d ∈ fold c, (if isMeta d then ['\\', d] else [d]) = [d] := fun d hd => by
          simp [h.plain c hmeta d hd]
        rw [escaped, List.flatMap_congr hall]
        simp
      simp [hplain]
    · have hslash : fold '\\' = ['\\'] := h.keeps '\\' rfl
      simp [h.keeps c hmeta, hslash, escaped, hmeta]

/-- The pattern around an escaped text. -/
theorem lower_wrapped (h : LowersByCharacter pg fold) (v : String) :
    (pg.lower ("%" ++ escapeLike v ++ "%")).toList =
      '%' :: (escaped (pg.lower v).toList ++ ['%']) := by
  have hrun : fold '%' = ['%'] := h.keeps '%' rfl
  have hescape : (escapeLike v).toList = escaped v.toList := by
    simp [escapeLike, escaped, isMeta, or_assoc]
  rw [h.lower, h.lower, ← h.flatMap_escaped, String.toList_append, String.toList_append, hescape]
  simp [hrun]

end LowersByCharacter

/-- The matcher on an escaped needle decides containment. -/
theorem ilikeValues_escaped {pg : Postgres} {fold : Char → List Char}
    (h : LowersByCharacter pg fold) (negated : Bool) (c v : String) :
    ilikeValues pg negated (.text c) (.text ("%" ++ escapeLike v ++ "%")) =
      .val (decide (pg.ContainsFolded v c) != negated) := by
  obtain ⟨b, hb, hiff⟩ := likeMatch_complete (p := (pg.lower ("%" ++ escapeLike v ++ "%")).toList)
    (by rw [h.lower_wrapped]; exact complete_append_run ('%' :: escaped (pg.lower v).toList))
    (pg.lower c).toList
  rw [h.lower_wrapped, like_contains_iff] at hiff
  have hdecide : b = decide (pg.ContainsFolded v c) := by
    rw [Bool.eq_iff_iff, decide_eq_true_iff]
    exact hiff
  simp [ilikeValues, hb, hdecide, Outcome.orError]

/-- The matcher on a pattern between two `%` decides whether it matches. -/
theorem ilikeValues_pattern {pg : Postgres} {fold : Char → List Char}
    (h : LowersByCharacter pg fold) (negated : Bool) (c v : String) :
    ∃ b, ilikeValues pg negated (.text v) (.text ("%" ++ c ++ "%")) = .val (b != negated) ∧
      (b = true ↔ pg.MatchesFolded ("%" ++ c ++ "%") v) := by
  have hlower : (pg.lower ("%" ++ c ++ "%")).toList =
      ('%' :: (pg.lower c).toList) ++ ['%'] := by
    have hrun : fold '%' = ['%'] := h.keeps '%' rfl
    rw [h.lower, h.lower]
    simp [hrun]
  obtain ⟨b, hb, hiff⟩ := likeMatch_complete (p := (pg.lower ("%" ++ c ++ "%")).toList)
    (by rw [hlower]; exact complete_append_run _) (pg.lower v).toList
  exact ⟨b, by simp [ilikeValues, hb, Outcome.orError], hiff⟩

end Sql

/-! ### The operator -/

/-- `~`, or `!~`. -/
def likeOp (negated : Bool) : CompareOp := if negated then .notLike else .like

/-- The text of an operand that is a text literal or a request reference. -/
def operandText (auth : AuthContext) : Operand → Option String
  | .text value => some value
  | .auth reference => some (auth.value reference)
  | _ => none

theorem literalValue_of_operandText {auth : AuthContext} {operand : Operand} {v : String}
    (h : operandText auth operand = some v) :
    operand ≠ .null ∧ literalValue operand auth = .ok v := by
  cases operand with
  | text value =>
    obtain rfl := Option.some.inj h
    exact ⟨by simp, rfl⟩
  | auth reference =>
    obtain rfl := Option.some.inj h
    exact ⟨by simp, rfl⟩
  | _ => cases h

/-- A parameter that was bound, read back. -/
theorem eval_bound {value : String} {params : List String} {env : Env}
    (h : (pushParam value .text params).2 <+: env.params) :
    (pushParam value .text params).1.eval env = .val (.text value) := by
  obtain ⟨behind, hparams⟩ := h
  simp only [pushParam, if_true, Scalar.eval]
  rw [← hparams]
  simp [pushParam, Outcome.orError, Outcome.bind, castValue, inputValue]

theorem eval_contains {env : Env} {s : Scalar} {v : String} (h : s.eval env = .val (.text v)) :
    (contains s).eval env = .val (.text ("%" ++ v ++ "%")) := by
  have heval : (contains s).eval env = Outcome.both concatValues
      (Outcome.both concatValues (.val (.text "%")) (s.eval env)) (.val (.text "%")) := rfl
  rw [heval, h]
  rfl

/-- A column of text compared by `~` or `!~`, before it is told on which side it stands. -/
theorem compileOperator_like {operand : Operand} {auth : AuthContext} {v : String}
    (hv : operandText auth operand = some v) (target : Scalar) (negated swapped : Bool)
    (params : List String) :
    compileOperator target "text" (likeOp negated) operand swapped auth params =
      .ok (if swapped
          then .ilike negated (pushParam (escapeLike v) .text params).1 (contains target)
          else .ilike negated target (contains (pushParam (escapeLike v) .text params).1),
        (pushParam (escapeLike v) .text params).2) := by
  obtain ⟨hnull, hliteral⟩ := literalValue_of_operandText hv
  unfold compileOperator
  rw [if_neg hnull]
  cases negated <;> simp [likeOp, checkOperatorSupported, failIf, hliteral, bind, Except.bind]

/-- A path of one segment is the column of the root. -/
theorem compilePath_column {context : FilterContext} {column : String} {columnType : String}
    (htype : Assoc.lookup column context.columns = some columnType) (op : CompareOp)
    (operand : Operand) (swapped : Bool) (auth : AuthContext) (root : Ref) (params : List String) :
    compilePath [column] op operand swapped context auth root params =
      compileOperator (.column (some root) column) columnType op operand swapped auth params := by
  simp only [compilePath, List.length_singleton, List.getLast?_singleton, List.dropLast_singleton,
    compileAt, htype, okOr]
  rfl

/-- A text without metacharacters is its own escaped form. -/
theorem escapeLike_of_forall {s : String} (h : ∀ c ∈ s.toList, c ≠ '\\' ∧ c ≠ '%' ∧ c ≠ '_') :
    escapeLike s = s := by
  have hmap : (s.toList.flatMap fun c => if c = '\\' ∨ c = '%' ∨ c = '_' then ['\\', c] else [c]) =
      s.toList.flatMap fun c => [c] := by
    rw [List.flatMap_def, List.flatMap_def]
    congr 1
    refine List.map_congr_left fun c hc => ?_
    simp [h c hc]
  rw [escapeLike, hmap]
  simp

theorem escapeLike_plain {s : String} (h : ∀ x ∈ s.toList, isMeta x = false) :
    escapeLike s = s := by
  refine escapeLike_of_forall fun x hx => ?_
  simpa [isMeta, and_assoc] using h x hx

/-- Between two `%`, a text without metacharacters matches what contains it. -/
theorem matchesFolded_plain {pg : Postgres} {fold : Char → List Char}
    (hlower : LowersByCharacter pg fold) {c : String} (hc : ∀ x ∈ c.toList, isMeta x = false)
    (v : String) : pg.MatchesFolded ("%" ++ c ++ "%") v ↔ pg.ContainsFolded c v := by
  have hwrapped := hlower.lower_wrapped c
  rw [escapeLike_plain hc] at hwrapped
  rw [Postgres.MatchesFolded, hwrapped, like_contains_iff]
  exact Iff.rfl

section Operator

variable {env : Env} {fold : Char → List Char} {context : FilterContext} {column : String}
  {c v : String} {auth : AuthContext} {operand : Operand} {root : Ref}

/-- `column ~ v` in a filter. -/
theorem filter_contains (hlower : LowersByCharacter env.pg fold)
    (htype : Assoc.lookup column context.columns = some "text")
    (hv : operandText auth operand = some v)
    (hscope : env.scope (some root) column = some (.text c)) (negated : Bool)
    (params : List String) :
    ∃ pred bound, compileComparison (.path [column]) (likeOp negated) (.value operand) context auth
        root params = .ok (pred, bound) ∧
      (bound <+: env.params →
        pred.eval env = .val (decide (env.pg.ContainsFolded v c) != negated)) := by
  have hcompile := compileOperator_like hv (.column (some root) column) negated false params
  refine ⟨_, _, (compilePath_column htype _ operand false auth root params).trans hcompile, ?_⟩
  intro hparams
  have hneedle := eval_contains (eval_bound hparams)
  have htarget : (Scalar.column (some root) column).eval env = .val (.text c) := by
    rw [Scalar.eval, hscope]
    rfl
  simp only [Bool.false_eq_true, if_false, Pred.eval, htarget, hneedle, Outcome.both]
  exact ilikeValues_escaped hlower negated c v

/-- `v ~ column` in a filter, where escaping leaves `v` as it is. -/
theorem filter_matches (hlower : LowersByCharacter env.pg fold)
    (htype : Assoc.lookup column context.columns = some "text")
    (hv : operandText auth operand = some v) (hplain : ∀ x ∈ v.toList, isMeta x = false)
    (hscope : env.scope (some root) column = some (.text c)) (negated : Bool)
    (params : List String) :
    ∃ pred bound, compileComparison (.value operand) (likeOp negated) (.path [column]) context auth
        root params = .ok (pred, bound) ∧
      (bound <+: env.params → ∃ b, pred.eval env = .val (b != negated) ∧
        (b = true ↔ env.pg.MatchesFolded ("%" ++ c ++ "%") v)) := by
  have hcompile := compileOperator_like hv (.column (some root) column) negated true params
  refine ⟨_, _, (compilePath_column htype _ operand true auth root params).trans hcompile, ?_⟩
  intro hparams
  have hvalue := eval_bound hparams
  rw [escapeLike_plain hplain] at hvalue
  have htarget : (Scalar.column (some root) column).eval env = .val (.text c) := by
    rw [Scalar.eval, hscope]
    rfl
  obtain ⟨b, hb, hiff⟩ := ilikeValues_pattern hlower negated c v
  refine ⟨b, ?_, hiff⟩
  rw [if_pos rfl, Pred.eval, escapeLike_plain hplain, hvalue, eval_contains htarget]
  exact hb

/-- `column ~ v` in a rule, for a literal. -/
theorem rule_contains (hlower : LowersByCharacter env.pg fold)
    (htype : Assoc.lookup column context.columns = some "text")
    (hscope : env.scope none column = some (.text c)) (negated : Bool) (v : String) :
    ∃ pred, Policy.compareSides (.path [column]) (likeOp negated) (.value (.text v)) context =
        .ok pred ∧
      pred.eval env = .val (decide (env.pg.ContainsFolded v c) != negated) := by
  refine ⟨.ilike negated (.column none column) (.str (Policy.wrapLike v)), ?_, ?_⟩
  · cases negated <;> simp [Policy.compareSides, Policy.compare, htype, okOr, likeOp,
      checkOperatorSupported, failIf, Policy.compareOperator, Policy.likePattern, bind, Except.bind]
  · have htarget : (Scalar.column none column).eval env = .val (.text c) := by
      rw [Scalar.eval, hscope]
      rfl
    rw [Pred.eval, htarget, Scalar.eval]
    exact ilikeValues_escaped hlower negated c v

end Operator

/-- The plain database lowers the letters of ASCII, one by one. -/
theorem plain_lowersByCharacter : LowersByCharacter Postgres.plain fun c => [asciiLower c] where
  lower s := by
    simp only [Postgres.plain, String.toList_ofList]
    induction s.toList with
    | nil => rfl
    | cons c cs ih => rw [List.map_cons, ih]; rfl
  keeps c hc := by
    have hcases : c = '\\' ∨ c = '%' ∨ c = '_' := by
      simpa [isMeta, or_assoc] using hc
    rcases hcases with rfl | rfl | rfl <;> rfl
  plain c hc d hd := by
    obtain rfl := List.mem_singleton.mp hd
    unfold asciiLower
    split
    · rename_i hupper
      have hrange : 65 ≤ c.toNat ∧ c.toNat ≤ 90 := by
        simpa [isAsciiUpper, Char.le_def, UInt32.le_iff_toNat_le] using hupper
      have hall : ∀ n ∈ List.range 26, isMeta (Char.ofNat (65 + n + 32)) = false := by decide
      have hlower := hall (c.toNat - 65) (List.mem_range.mpr (by omega))
      rwa [show 65 + (c.toNat - 65) + 32 = c.toNat + 32 by omega] at hlower
    · exact hc

/-- A collection with a text column. -/
def articles : FilterContext := ⟨"articles", "c1", [("title", "text")], []⟩

/-- A row of it under both names a comparison may use, and the parameters bound so far. -/
def titleEnv (title : String) (params : List String) : Env where
  pg := .plain
  scope := fun _ name => if name = "title" then some (.text title) else none
  tables := fun _ => []
  params := params
  setting := fun _ => none
  call := fun _ _ _ => .null
  now := 0
  readAt := 0

/-- A request with an email address. -/
def addressed (email : String) : AuthContext := ⟨none, some email, none, none, []⟩

end LazyPock
