import LazyPock.Query.Read

/-!
# Values and placeholders

Two facts about the statements the query compiler builds. Values never influence the text: two
filters that differ in their values only, under any two identities, compile to the same SQL or both
fail. And the placeholders of every statement, read left to right by the lexical rules of SQL, are
`$1`, `$2`, … up to the number of parameters, each bound to the value its own clause appended.

## Main definitions

* `Expr.erase`: a filter with its values left out.
* `Numbered`: an expression whose placeholders continue a parameter list.

## Main results

* `compileExpr_erase`: compiling depends on the erased filter only.
* `numbered_compileExpr`: the placeholders a filter adds.
* `sqlOf_compileWithRoot_erase`, `numbered_compileWithRoot`: whole clauses.
-/

namespace LazyPock

open Text Sql

/-! ### Erasing values -/

/-- An operand with its value left out: only its kind is kept. -/
@[grind =]
def Operand.erase : Operand → Operand
  | .text _ => .text ""
  | .number _ => .number .nan
  | .bool _ => .bool false
  | .null => .null
  | .now => .now
  | .auth _ => .auth .id

@[grind =]
def Side.erase : Side → Side
  | .path segments => .path segments
  | .value operand => .value operand.erase

/-- A filter with its values left out: the tree, the operators, the paths and the kinds of the
operands are kept. -/
@[grind =]
def Expr.erase : Expr → Expr
  | .and left right => .and left.erase right.erase
  | .or left right => .or left.erase right.erase
  | .compare left op right => .compare left.erase op right.erase

variable {o : Operand}

theorem Operand.erase_eq_null : o.erase = .null ↔ o = .null := by
  cases o <;> simp [erase]

theorem Operand.erase_eq_now : o.erase = .now ↔ o = .now := by
  cases o <;> simp [erase]

/-- Two results with the same expression and equally many parameters. -/
def SameText {α : Type} (x y : α × List String) : Prop := x.1 = y.1 ∧ x.2.length = y.2.length

section Erase

variable (auth auth' : AuthContext)

theorem literalValue_erase (o : Operand) :
    Result.Rel (fun _ _ => True) (literalValue o auth) (literalValue o.erase auth') := by
  cases o <;> exact trivial

variable {ps ps' : List String}

theorem pushParam_sameText (h : ps.length = ps'.length) (v v' : String)
    (t : PgType) : SameText (pushParam v t ps) (pushParam v' t ps') := by
  simp [SameText, pushParam, h]

theorem valueSql_erase (h : ps.length = ps'.length) (o : Operand)
    (t : PgType) :
    Result.Rel SameText (valueSql o t auth ps) (valueSql o.erase t auth' ps') := by
  unfold valueSql
  by_cases hnow : o = .now
  · simp [hnow, Operand.erase, Result.Rel, SameText, h]
  · simp only [hnow, mt Operand.erase_eq_now.mp hnow, ↓reduceIte]
    exact (literalValue_erase auth auth' o).bind fun v v' _ => pushParam_sameText h v v' t

theorem compileOperator_erase (h : ps.length = ps'.length)
    (target : Scalar) (columnType : String) (op : CompareOp) (o : Operand) (swapped : Bool) :
    Result.Rel SameText (compileOperator target columnType op o swapped auth ps)
      (compileOperator target columnType op o.erase swapped auth' ps') := by
  unfold compileOperator
  by_cases hnull : o = .null
  · simp only [hnull, Operand.erase, ↓reduceIte]
    exact (Result.Rel.refl _).bind fun p q hpq => ⟨hpq, h⟩
  simp only [hnull, mt Operand.erase_eq_null.mp hnull, ↓reduceIte]
  refine (Result.Rel.refl (checkOperatorSupported op columnType target.text)).bind fun _ _ _ => ?_
  have hlit := literalValue_erase auth auth' o
  by_cases hnow : o = .now
  · subst hnow
    cases op <;> simp only [Operand.erase, ↓reduceIte]
    all_goals first
      | exact trivial
      | (by_cases hdate : columnType = "timestamptz" <;> simp [hdate, Result.Rel, SameText, h])
  · have hnow' := mt Operand.erase_eq_now.mp hnow
    cases op <;> simp only [hnow, hnow', ↓reduceIte]
    all_goals
      refine hlit.bind fun v v' _ => ?_
      simp [Result.Rel, SameText, pushParam, h]

theorem valuesCast_erase (l r : Operand) : valuesCast l.erase r.erase = valuesCast l r := by
  cases l <;> cases r <;> rfl

theorem compileValues_erase (h : ps.length = ps'.length) (l : Operand)
    (op : CompareOp) (r : Operand) :
    Result.Rel SameText (compileValues l op r auth ps)
      (compileValues l.erase op r.erase auth' ps') := by
  unfold compileValues
  by_cases hnull : l = .null ∨ r = .null
  · have hnull' : l.erase = .null ∨ r.erase = .null :=
      hnull.imp Operand.erase_eq_null.mpr Operand.erase_eq_null.mpr
    simp only [hnull, hnull', ↓reduceIte]
    exact trivial
  have hnull' : ¬ (l.erase = .null ∨ r.erase = .null) :=
    fun h => hnull (h.imp Operand.erase_eq_null.mp Operand.erase_eq_null.mp)
  simp only [hnull, hnull', ↓reduceIte, valuesCast_erase]
  cases op
  all_goals first
    | exact trivial
    | (refine (valueSql_erase auth auth' h l .text).bind fun x y hxy => ?_
       refine (literalValue_erase auth auth' r).bind fun v v' _ => ?_
       simp [Result.Rel, SameText, pushParam, hxy.1, hxy.2])
    | (refine (valueSql_erase auth auth' h l _).bind fun x y hxy => ?_
       refine (valueSql_erase auth auth' hxy.2 r _).bind fun x' y' hxy' => ?_
       simp [Result.Rel, SameText, hxy.1, hxy'.1, hxy'.2])

theorem compileAt_erase (h : ps.length = ps'.length) (column : String)
    (op : CompareOp) (o : Operand) (swapped : Bool) (hops : List String) (context : FilterContext)
    (parent : Ref) (counter : Nat) :
    Result.Rel SameText (compileAt column op o swapped auth ps hops context parent counter)
      (compileAt column op o.erase swapped auth' ps' hops context parent counter) := by
  induction hops generalizing context parent counter with
  | nil =>
    refine (Result.Rel.refl _).bind fun t t' ht => ?_
    rw [ht]
    exact compileOperator_erase auth auth' h _ t' op o swapped
  | cons hop hops ih =>
    refine (Result.Rel.refl _).bind fun relation relation' hrelation => ?_
    rw [hrelation]
    refine (ih relation'.context _ _).bind fun x y hxy => ?_
    exact ⟨by rw [hxy.1], hxy.2⟩

theorem compilePath_erase (h : ps.length = ps'.length) (path : List String)
    (op : CompareOp) (o : Operand) (swapped : Bool) (context : FilterContext) (root : Ref) :
    Result.Rel SameText (compilePath path op o swapped context auth root ps)
      (compilePath path op o.erase swapped context auth' root ps') := by
  unfold compilePath
  split
  · exact trivial
  · split
    · exact trivial
    · exact compileAt_erase auth auth' h _ op o swapped _ context root 0

theorem compileComparison_erase (h : ps.length = ps'.length) (left : Side)
    (op : CompareOp) (right : Side) (context : FilterContext) (root : Ref) :
    Result.Rel SameText (compileComparison left op right context auth root ps)
      (compileComparison left.erase op right.erase context auth' root ps') := by
  cases left with
  | path p =>
    cases right with
    | path q => exact trivial
    | value o => exact compilePath_erase auth auth' h p op o false context root
  | value o =>
    cases right with
    | path p => exact compilePath_erase auth auth' h p op o true context root
    | value o' => exact compileValues_erase auth auth' h o op o'

/-- **Compiling depends on the erased filter only**, and on how many parameters there are
already. -/
theorem compileExpr_erase (context : FilterContext) (root : Ref) (e : Expr)
    (h : ps.length = ps'.length) :
    Result.Rel SameText (compileExpr context auth root e ps)
      (compileExpr context auth' root e.erase ps') := by
  induction e generalizing ps ps' with
  | and left right ihl ihr =>
    refine (ihl h).bind fun x y hxy => (ihr hxy.2).bind fun x' y' hxy' => ?_
    exact ⟨by rw [hxy.1, hxy'.1], hxy'.2⟩
  | or left right ihl ihr =>
    refine (ihl h).bind fun x y hxy => (ihr hxy.2).bind fun x' y' hxy' => ?_
    exact ⟨by rw [hxy.1, hxy'.1], hxy'.2⟩
  | compare left op right => exact compileComparison_erase auth auth' h left op right context root

end Erase

/-- The SQL of a result, if it is a success. -/
def sqlOf (r : Result CompiledFilter) : Option String := r.toOption.map CompiledFilter.sql

/-- The SQL of a filter is that of the erased filter, under any identity. -/
theorem sqlOf_compileWithRoot_erase (e : Expr) (context : FilterContext) (auth auth' : AuthContext)
    (root : Ref) :
    sqlOf (compileWithRoot e context auth root) =
      sqlOf (compileWithRoot e.erase context auth' root) := by
  have h := compileExpr_erase auth auth' context root e (Eq.refl ([] : List String).length)
  unfold compileWithRoot
  cases hx : compileExpr context auth root e [] with
  | error e₁ =>
    cases hy : compileExpr context auth' root e.erase [] with
    | error e₂ => rfl
    | ok y => simp [hx, hy, Result.Rel] at h
  | ok x =>
    cases hy : compileExpr context auth' root e.erase [] with
    | error e₂ => simp [hx, hy, Result.Rel] at h
    | ok y =>
      simp only [hx, hy, Result.Rel, SameText] at h
      simp [sqlOf, CompiledFilter.sql, bind, Except.bind, Except.toOption, h.1]

/-! ### Placeholder numbers -/

/-- The placeholders `indices` continue the parameters `ps`, and the parameters after them are `ps`
with the values they stand for. -/
def Numbered (ps : List String) (indices : List Nat) (ps' : List String) : Prop :=
  ∃ added, ps' = ps ++ added ∧ indices = List.range' (ps.length + 1) added.length

theorem Numbered.nil (ps : List String) : Numbered ps [] ps := ⟨[], by simp, by simp⟩

variable {ps : List String}

theorem Numbered.append {ps' ps'' : List String} {is js : List Nat} (his : Numbered ps is ps')
    (hjs : Numbered ps' js ps'') : Numbered ps (is ++ js) ps'' := by
  obtain ⟨a, rfl, rfl⟩ := his
  obtain ⟨b, rfl, rfl⟩ := hjs
  refine ⟨a ++ b, by simp, ?_⟩
  rw [List.length_append, List.length_append, List.range'_append_1.symm]
  congr 2
  omega

theorem numbered_push (ps : List String) (v : String) :
    Numbered ps [ps.length + 1] (ps ++ [v]) := ⟨[v], rfl, rfl⟩

theorem numbered_pushParam (v : String) (t : PgType) (ps : List String) :
    Numbered ps (params (pushParam v t ps).1.tokens) (pushParam v t ps).2 := by
  by_cases ht : t = .text <;> simpa [pushParam, ht] using numbered_push ps v

variable {auth : AuthContext}

theorem numbered_valueSql {t : PgType}
    {r : Scalar × List String} (h : valueSql o t auth ps = .ok r) :
    Numbered ps (params r.1.tokens) r.2 := by
  unfold valueSql at h
  split at h
  · cases h
    exact .nil ps
  · obtain ⟨v, -, h⟩ := bind_eq_ok.mp h
    cases h
    exact numbered_pushParam v t ps

theorem params_comparePred (swapped : Bool) (target : Scalar) (op : CompareOp) (value : Scalar)
    (htarget : params target.tokens = []) :
    params (comparePred swapped target op value).tokens = params value.tokens := by
  cases swapped <;> simp [comparePred, htarget]

variable {r : Pred × List String}

/-- The placeholders of a comparison with a column. -/
theorem numbered_compileOperator {target : Scalar} {columnType : String} {op : CompareOp} {swapped : Bool}
    (htarget : params target.tokens = [])
    (h : compileOperator target columnType op o swapped auth ps = .ok r) :
    Numbered ps (params r.1.tokens) r.2 := by
  unfold compileOperator at h
  split at h
  · obtain ⟨p, hp, h⟩ := bind_eq_ok.mp h
    cases h
    have hparams : params p.tokens = [] := by
      cases op <;> cases hp <;> simp [htarget]
    rw [hparams]
    exact .nil ps
  · obtain ⟨_, -, h⟩ := bind_eq_ok.mp h
    cases op
    case any | notAny =>
      obtain ⟨v, -, h⟩ := bind_eq_ok.mp h
      cases h
      simpa [htarget] using numbered_push ps v
    case like | notLike =>
      obtain ⟨v, -, h⟩ := bind_eq_ok.mp h
      cases h
      cases swapped <;> simpa [contains, htarget] using numbered_push ps (escapeLike v)
    all_goals
      dsimp only at h
      split at h
      · split at h
        · cases h
        · cases h
          rw [params_comparePred _ _ _ _ htarget]
          exact .nil ps
      · obtain ⟨v, -, h⟩ := bind_eq_ok.mp h
        cases h
        rw [params_comparePred _ _ _ _ htarget]
        exact numbered_pushParam v _ ps

theorem numbered_compileValues {l : Operand} {op : CompareOp} (h : compileValues l op o auth ps = .ok r) :
    Numbered ps (params r.1.tokens) r.2 := by
  unfold compileValues at h
  split at h
  · cases h
  · cases op
    case any | notAny => cases h
    case like | notLike =>
      obtain ⟨⟨haystack, ps'⟩, hl, h⟩ := bind_eq_ok.mp h
      obtain ⟨v, -, h⟩ := bind_eq_ok.mp h
      cases h
      simpa [contains] using (numbered_valueSql hl).append (numbered_push ps' (escapeLike v))
    all_goals
      obtain ⟨⟨left, ps'⟩, hl, h⟩ := bind_eq_ok.mp h
      obtain ⟨⟨right, ps''⟩, hr, h⟩ := bind_eq_ok.mp h
      cases h
      simpa using (numbered_valueSql hl).append (numbered_valueSql hr)

theorem numbered_compileAt {column : String} {op : CompareOp} {swapped : Bool} {hops : List String} {context : FilterContext}
    {parent : Ref} {counter : Nat}
    (h : compileAt column op o swapped auth ps hops context parent counter = .ok r) :
    Numbered ps (params r.1.tokens) r.2 := by
  induction hops generalizing context parent counter r with
  | nil =>
    obtain ⟨t, -, h⟩ := bind_eq_ok.mp h
    exact numbered_compileOperator (by simp) h
  | cons hop hops ih =>
    obtain ⟨relation, -, h⟩ := bind_eq_ok.mp h
    obtain ⟨⟨inner, ps'⟩, hinner, h⟩ := bind_eq_ok.mp h
    cases h
    have hjoin : params (joinPred parent (relationAlias (counter + 1)) relation).tokens = [] := by
      unfold joinPred
      cases relation.multiple <;> simp
    simpa [hjoin] using ih hinner

/-- **The placeholders a filter adds** continue the parameters before it, one for each value it
appends. -/
theorem numbered_compileExpr {context : FilterContext} {root : Ref} {e : Expr} (h : compileExpr context auth root e ps = .ok r) :
    Numbered ps (params r.1.tokens) r.2 := by
  induction e generalizing ps r with
  | and left right ihl ihr =>
    obtain ⟨⟨l, ps'⟩, hl, h⟩ := bind_eq_ok.mp h
    obtain ⟨⟨r', ps''⟩, hr, h⟩ := bind_eq_ok.mp h
    cases h
    simpa using (ihl hl).append (ihr hr)
  | or left right ihl ihr =>
    obtain ⟨⟨l, ps'⟩, hl, h⟩ := bind_eq_ok.mp h
    obtain ⟨⟨r', ps''⟩, hr, h⟩ := bind_eq_ok.mp h
    cases h
    simpa using (ihl hl).append (ihr hr)
  | compare left op right =>
    unfold compileExpr compileComparison compilePath at h
    split at h
    · split at h
      · cases h
      · split at h
        · cases h
        · exact numbered_compileAt h
    · split at h
      · cases h
      · split at h
        · cases h
        · exact numbered_compileAt h
    · exact numbered_compileValues h
    · cases h

/-- The filter on its own: its placeholders are all of them. -/
theorem numbered_compileWithRoot {e : Expr} {context : FilterContext}
    {root : Ref} {c : CompiledFilter} (h : compileWithRoot e context auth root = .ok c) :
    params c.pred.tokens = List.range' 1 c.params.length := by
  obtain ⟨⟨p, ps⟩, hp, h⟩ := bind_eq_ok.mp h
  cases h
  obtain ⟨added, rfl, hadded⟩ := numbered_compileExpr hp
  simpa using hadded

end LazyPock
