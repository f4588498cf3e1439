import LazyPock.Query.Compile

/-!
# Compiling a rule into a policy predicate

The rule compiler of `crates/db/src/rls/policy.rs`. A policy cannot take bind parameters, so every
literal is inlined and `@request.auth.*` becomes a call to the `auth` helpers. Only the collection's
own columns may be referenced.

The literals of a rule are the values of its predicate's slots, and what stands around them depends
on the shape of the rule only, so no literal can change how the predicate reads.

## Main definitions

* `Policy.authSql`, `Policy.valueSql`, `Policy.likePattern`.
* `Policy.compare`, `Policy.compareValues`, `Policy.predicate`.
* `Expr.literals`, `Expr.shape`.

## Main results

* `Policy.predicate_inlines`: the slots hold the literals of the rule, in order, and the
  frame is the one of the rule's shape.
-/

namespace LazyPock

open Text Sql

namespace Policy

/-! ### Values -/

/-- The schema of the identity helpers. -/
def authSchema : Ident := ⟨"auth", by decide⟩

/-- The `auth` helper call for a reference. -/
@[grind =]
def authSql : AuthRef → Scalar
  | .id => .call authSchema ⟨"uid", by decide⟩
  | .email => .callWith authSchema ⟨"claim", by decide⟩ (.lit "email")
  | .collectionId => .call authSchema ⟨"collection_id", by decide⟩
  | .collectionName => .call authSchema ⟨"collection_name", by decide⟩
  | .claim name => .callWith authSchema ⟨"claim", by decide⟩ (.str name)

/-- The SQL for a value, cast to the column's type. -/
@[grind =]
def valueSql (operand : Operand) (columnType : String) : Result Scalar :=
  let type := castFor columnType
  match operand with
  | .text value => .ok (.cast (.str value) type)
  | .number value => do
    failIf (¬ value.isFinite) (.invalid "a rule cannot compare against a non-finite number")
    .ok (.number value.isNegative value.decimal type)
  | .bool value => .ok (.cast (.bool value) type)
  | .auth reference => .ok (.cast (authSql reference) type)
  | .null | .now => .error (.internal "null and @now are handled before the value encoder")

/-- A value side of a comparison of two values, with `@now` the database clock. -/
def ruleValueSql (operand : Operand) (type : String) : Result Scalar :=
  if operand = .now then .ok .now else valueSql operand type

/-- A text as a pattern that contains it; the wildcards are part of the literal. -/
def wrapLike (value : String) : String := "%" ++ escapeLike value ++ "%"

/-- The pattern of a `~` comparison: built here for a literal, at run time for the others. -/
@[grind =]
def likePattern (operand : Operand) : Result Scalar :=
  match operand with
  | .text value => .ok (.str (wrapLike value))
  | other => do
    let value ← valueSql other "text"
    .ok (contains value)

/-! ### Comparisons -/

/-- Compile an equality or ordering comparison of a column with an operand. -/
def compareOrdered (target : Scalar) (columnType : String) (op : CompareOp) (operand : Operand)
    (swapped : Bool) : Result Pred :=
  if operand = .now then do
    failIf (columnType ≠ "timestamptz") (.invalid ("`@now` cannot be compared with " ++
      target.text ++ " (" ++ columnType ++ "); it is only valid for date fields"))
    .ok (comparePred swapped target op .now)
  else do
    let value ← valueSql operand columnType
    .ok (comparePred swapped target op value)

/-- Compile the comparison of a column with an operand that is not `null`. -/
@[grind =]
def compareOperator (target : Scalar) (columnType : String) (op : CompareOp) (operand : Operand)
    (swapped : Bool) : Result Pred :=
  match op with
  | .any | .notAny => do
    -- The operand is compared against one element, so it is cast to the element type.
    let value ← valueSql operand "text"
    let pred := Pred.eqAny value target
    .ok (if op = .any then pred else .not pred)
  | .like | .notLike => do
    let expression ← likePattern operand
    let negated : Bool := op ≠ .like
    .ok (if swapped then .ilike negated expression target else .ilike negated target expression)
  | .eq | .notEq | .gt | .gte | .lt | .lte => compareOrdered target columnType op operand swapped

/-- Compile the comparison of a column with an operand. -/
@[grind =]
def compare (path : List String) (op : CompareOp) (operand : Operand) (swapped : Bool)
    (context : FilterContext) : Result Pred :=
  match path with
  | [column] => do
    let columnType ← okOr (.invalid ("unknown field " ++ debug column ++ " in collection " ++
      debug context.table)) (Assoc.lookup column context.columns)
    let target := Scalar.column none column
    checkOperatorSupported op columnType target.text
    if operand = .null then compareNull target op
    else compareOperator target columnType op operand swapped
  | _ =>
    .error (.unsupported ("rule paths through a relation (`" ++ join "." path ++
      "`) are not supported yet; reference a plain column"))

/-- Compile a comparison in which both sides are values. -/
@[grind =]
def compareValues (left : Operand) (op : CompareOp) (right : Operand) : Result Pred :=
  if left = .null ∨ right = .null then
    .error (.invalid ("a rule cannot compare with null without a field; there is nothing to test " ++
      "for `is null` here"))
  else match op with
    | .any | .notAny =>
      .error (.invalid ("`" ++ op.asStr ++
        "` needs a multiple-value field, and this comparison has none"))
    | .like | .notLike => do
      let haystack ← valueSql left "text"
      let needle ← likePattern right
      .ok (.ilike (op ≠ .like) haystack needle)
    | .eq | .notEq | .gt | .gte | .lt | .lte => do
      let type := (valuesCast left right).sql
      let leftSql ← ruleValueSql left type
      let rightSql ← ruleValueSql right type
      .ok (.compare leftSql (sqlOperator op) rightSql)

/-- Compile one comparison, whichever side the field is on. -/
@[grind =]
def compareSides (left : Side) (op : CompareOp) (right : Side) (context : FilterContext) :
    Result Pred :=
  match left, right with
  | .path path, .value operand => compare path op operand false context
  | .value operand, .path path => compare path op operand true context
  | .value left, .value right => compareValues left op right
  | .path left, .path right =>
    .error (.unsupported ("a rule cannot compare two fields (`" ++ join "." left ++ "` and `" ++
      join "." right ++ "`); compare a field with a value instead"))

/-- Compile a rule expression into a SQL predicate. -/
@[grind =]
def predicate (context : FilterContext) : Expr → Result Pred
  | .and left right => do
    let left ← predicate context left
    let right ← predicate context right
    .ok (.and left right)
  | .or left right => do
    let left ← predicate context left
    let right ← predicate context right
    .ok (.or left right)
  | .compare left op right => compareSides left op right context

end Policy

/-! ### Literals and shape of a rule -/

/-- The literals of an operand, claim names included; a text pattern is wrapped. -/
@[grind =]
def Operand.literals (pattern : Bool) : Operand → List Literal
  | .text value => [.text (if pattern then Policy.wrapLike value else value)]
  | .number value => [.number value.isNegative value.decimal]
  | .bool value => [.bool value]
  | .auth (.claim name) => [.text name]
  | .null | .now | .auth _ => []

/-- `~` or `!~`. -/
def CompareOp.isLike (op : CompareOp) : Bool := op = .like || op = .notLike

/-- The literals of a rule, left to right. The operand of `~` is a pattern; of two values it is the
right one. -/
@[grind =]
def Expr.literals : Expr → List Literal
  | .and left right | .or left right => left.literals ++ right.literals
  | .compare (.path _) op (.value operand) | .compare (.value operand) op (.path _) =>
    operand.literals op.isLike
  | .compare (.value left) op (.value right) => left.literals false ++ right.literals op.isLike
  | .compare (.path _) _ (.path _) => []

@[grind =]
def AuthRef.shape : AuthRef → AuthRef
  | .claim _ => .claim ""
  | reference => reference

/-- An operand with its literal left out. -/
@[grind =]
def Operand.shape : Operand → Operand
  | .text _ => .text ""
  | .number _ => .number (.finite false 0 0)
  | .bool _ => .bool false
  | .auth reference => .auth reference.shape
  | .null => .null
  | .now => .now

@[grind =]
def Side.shape : Side → Side
  | .path segments => .path segments
  | .value operand => .value operand.shape

/-- A rule with its literals and claim names left out: the tree, the operators, the columns and the
kinds of the operands are kept. -/
@[grind =]
def Expr.shape : Expr → Expr
  | .and left right => .and left.shape right.shape
  | .or left right => .or left.shape right.shape
  | .compare left op right => .compare left.shape op right.shape

@[simp] theorem Operand.shape_eq_null {o : Operand} : o.shape = .null ↔ o = .null := by
  cases o <;> simp [shape]

@[simp] theorem Operand.shape_eq_now {o : Operand} : o.shape = .now ↔ o = .now := by
  cases o <;> simp [shape]

/-- Only a text is wrapped. -/
theorem Operand.literals_of_ne_text {o : Operand} (h : ∀ v, o ≠ .text v) (pattern : Bool) :
    o.literals pattern = o.literals false := by
  cases o with
  | text v => exact absurd rfl (h v)
  | auth r => cases r <;> rfl
  | _ => rfl

theorem valuesCast_shape (l r : Operand) : valuesCast l.shape r.shape = valuesCast l r := by
  cases l <;> cases r <;> rfl

namespace Policy

/-- What a compiled value keeps of its operand: its slots hold the literals `ls`, and its frame is
the one compiled from the shape. -/
structure Inlines (s : Scalar) (ls : List Literal) (shape : Result Scalar) : Prop where
  values : s.values = ls
  skeleton : ∃ q, shape = .ok q ∧ q.skeleton = s.skeleton

variable {s : Scalar} {ls : List Literal}

theorem Inlines.cast {q : Scalar} (t : PgType)
    (h : Inlines s ls (.ok q)) : Inlines (.cast s t) ls (.ok (.cast q t)) := by
  obtain ⟨hvalues, q', hq, hskeleton⟩ := h
  rw [Except.ok.injEq] at hq
  subst hq
  refine ⟨?_, _, rfl, ?_⟩
  · simpa [Scalar.values, Scalar.marks] using hvalues
  · simpa [Scalar.skeleton, Scalar.marks] using hskeleton

theorem authSql_inlines (r : AuthRef) :
    Inlines (authSql r) ((Operand.auth r).literals false) (.ok (authSql r.shape)) := by
  cases r <;> exact ⟨rfl, _, rfl, rfl⟩

variable {o : Operand}

theorem valueSql_inlines {t : String} (h : valueSql o t = .ok s) :
    Inlines s (o.literals false) (valueSql o.shape t) := by
  cases o with
  | text v =>
    simp only [valueSql, Except.ok.injEq] at h
    subst h
    exact Inlines.cast _ ⟨rfl, _, rfl, rfl⟩
  | number x =>
    simp only [valueSql, bind_eq_ok, failIf_eq_ok, Except.ok.injEq] at h
    obtain ⟨-, -, rfl⟩ := h
    refine ⟨?_, _, rfl, ?_⟩
    · simp [Scalar.values, Scalar.marks, Operand.literals]
    · simp [Scalar.skeleton, Scalar.marks]
  | bool b =>
    simp only [valueSql, Except.ok.injEq] at h
    subst h
    exact Inlines.cast _ ⟨rfl, _, rfl, rfl⟩
  | auth r =>
    simp only [valueSql, Except.ok.injEq] at h
    subst h
    exact (authSql_inlines r).cast _
  | null => simp [valueSql] at h
  | now => simp [valueSql] at h

theorem ruleValueSql_inlines {t : String}
    (h : ruleValueSql o t = .ok s) : Inlines s (o.literals false) (ruleValueSql o.shape t) := by
  unfold ruleValueSql at h ⊢
  by_cases hnow : o = .now
  · subst hnow
    simp only [↓reduceIte, Except.ok.injEq] at h
    subst h
    exact ⟨rfl, _, rfl, rfl⟩
  · simp only [hnow, Operand.shape_eq_now, ↓reduceIte] at h ⊢
    exact valueSql_inlines h

theorem likePattern_inlines (h : likePattern o = .ok s) :
    Inlines s (o.literals true) (likePattern o.shape) := by
  have hcontains : ∀ {o : Operand} {s : Scalar}, (∀ v, o ≠ .text v) →
      (valueSql o "text" >>= fun v => .ok (contains v)) = .ok s →
      Inlines s (o.literals true) (valueSql o.shape "text" >>= fun v => .ok (contains v)) := by
    intro o s htext hs
    obtain ⟨v, hv, hs⟩ := bind_eq_ok.mp hs
    rw [Except.ok.injEq] at hs
    subst hs
    obtain ⟨hvalues, q, hq, hskeleton⟩ := valueSql_inlines hv
    refine ⟨?_, contains q, by rw [hq]; rfl, ?_⟩
    · rw [Operand.literals_of_ne_text htext, ← hvalues]
      simp [contains, Scalar.values, Scalar.marks]
    · have hskeleton' : q.marks.map Mark.blank = v.marks.map Mark.blank := hskeleton
      simp [contains, Scalar.skeleton, Scalar.marks, hskeleton']
  cases o with
  | text v =>
    simp only [likePattern, Except.ok.injEq] at h
    subst h
    exact ⟨rfl, _, rfl, rfl⟩
  | _ => exact hcontains (by simp) h

/-- What a compiled predicate keeps of its rule, as `Inlines` for values. -/
structure InlinesRule (p : Pred) (ls : List Literal) (shape : Result Pred) : Prop where
  values : p.values = ls
  skeleton : ∃ q, shape = .ok q ∧ q.skeleton = p.skeleton

/-- A form with two scalars in a fixed frame. -/
theorem InlinesRule.ofFrame {f : Scalar → Scalar → Pred} {a b c : List Token}
    (hf : ∀ s t, (f s t).marks = frames a ++ s.marks ++ frames b ++ t.marks ++ frames c)
    {t : Scalar} {ls' : List Literal} {x y : Result Scalar} (hs : Inlines s ls x)
    (ht : Inlines t ls' y) :
    InlinesRule (f s t) (ls ++ ls') (x >>= fun s => y >>= fun t => .ok (f s t)) := by
  obtain ⟨hvs, qs, rfl, hks⟩ := hs
  obtain ⟨hvt, qt, rfl, hkt⟩ := ht
  refine ⟨?_, _, rfl, ?_⟩
  · rw [← hvs, ← hvt]
    simp [Pred.values, hf, Scalar.values]
  · simp only [Scalar.skeleton] at hks hkt
    simp [Pred.skeleton, hf, hks, hkt]

theorem inlines_column (name : String) : Inlines (.column none name) [] (.ok (.column none name)) :=
  ⟨rfl, _, rfl, rfl⟩

theorem inlines_now : Inlines .now [] (.ok .now) := ⟨rfl, _, rfl, rfl⟩

theorem marks_compare (op : CmpOp) (s t : Scalar) : (Pred.compare s op t).marks =
    frames [] ++ s.marks ++ frames [.sym op.sql] ++ t.marks ++ frames [] := by
  simp [Pred.marks, frames]

theorem marks_ilike (negated : Bool) (s t : Scalar) : (Pred.ilike negated s t).marks =
    frames [] ++ s.marks ++
      frames (if negated then [.word "not", .word "ilike"] else [.word "ilike"]) ++ t.marks ++
      frames [.word "escape", .str "\\"] := by
  simp [Pred.marks, frames]

/-- The comparison of a column with a value, whichever side the column is on. -/
theorem comparePred_inlines {x : Result Scalar} (column : String)
    (op : CompareOp) (swapped : Bool) (hs : Inlines s ls x) :
    InlinesRule (comparePred swapped (.column none column) op s) ls
      (x >>= fun s => .ok (comparePred swapped (.column none column) op s)) := by
  have hcolumn := inlines_column column
  cases swapped with
  | false => exact InlinesRule.ofFrame (marks_compare (sqlOperator op)) hcolumn hs
  | true =>
    have h := InlinesRule.ofFrame (marks_compare (sqlOperator op)) hs hcolumn
    rw [List.append_nil] at h
    exact h

theorem ilike_inlines {x : Result Scalar} (column : String)
    (negated swapped : Bool) (hs : Inlines s ls x) :
    InlinesRule
      (if swapped then .ilike negated s (.column none column)
        else .ilike negated (.column none column) s) ls
      (x >>= fun s => .ok (if swapped then .ilike negated s (.column none column)
        else .ilike negated (.column none column) s)) := by
  have hcolumn := inlines_column column
  cases swapped with
  | false => exact InlinesRule.ofFrame (marks_ilike negated) hcolumn hs
  | true =>
    have h := InlinesRule.ofFrame (marks_ilike negated) hs hcolumn
    rw [List.append_nil] at h
    exact h

theorem eqAny_inlines {x : Result Scalar} (column : String)
    (op : CompareOp) (hs : Inlines s ls x) :
    InlinesRule (if op = .any then .eqAny s (.column none column)
        else .not (.eqAny s (.column none column))) ls
      (x >>= fun s => .ok (if op = .any then .eqAny s (.column none column)
        else .not (.eqAny s (.column none column)))) := by
  have hcolumn := inlines_column column
  by_cases hop : op = .any
  · have h := InlinesRule.ofFrame (f := Pred.eqAny) (a := [])
      (b := [.sym "=", .word "any", .sym "("]) (c := [.sym ")"])
      (by simp [Pred.marks, frames]) hs hcolumn
    rw [List.append_nil] at h
    simp only [hop, ↓reduceIte]
    exact h
  · have h := InlinesRule.ofFrame (f := fun s t => .not (.eqAny s t)) (a := [.word "not", .sym "("])
      (b := [.sym "=", .word "any", .sym "("]) (c := [.sym ")", .sym ")"])
      (by simp [Pred.marks, frames]) hs hcolumn
    rw [List.append_nil] at h
    simp only [hop, ↓reduceIte]
    exact h

theorem compareOrdered_inlines {column columnType : String} {op : CompareOp}
    {swapped : Bool} {p : Pred}
    (h : compareOrdered (.column none column) columnType op o swapped = .ok p) :
    InlinesRule p (o.literals false)
      (compareOrdered (.column none column) columnType op o.shape swapped) := by
  unfold compareOrdered at h ⊢
  by_cases hnow : o = .now
  · subst hnow
    simp only [↓reduceIte, Operand.shape] at h ⊢
    obtain ⟨u, hu, hp⟩ := bind_eq_ok.mp h
    rw [Except.ok.injEq] at hp
    subst hp
    rw [hu]
    exact comparePred_inlines column op swapped inlines_now
  · simp only [hnow, Operand.shape_eq_now, ↓reduceIte] at h ⊢
    obtain ⟨v, hv, hp⟩ := bind_eq_ok.mp h
    rw [Except.ok.injEq] at hp
    subst hp
    exact comparePred_inlines column op swapped (valueSql_inlines hv)

theorem compareOperator_inlines {column columnType : String} {op : CompareOp}
    {swapped : Bool} {p : Pred}
    (h : compareOperator (.column none column) columnType op o swapped = .ok p) :
    InlinesRule p (o.literals op.isLike)
      (compareOperator (.column none column) columnType op o.shape swapped) := by
  cases op with
  | any | notAny =>
    obtain ⟨v, hv, hp⟩ := bind_eq_ok.mp h
    rw [Except.ok.injEq] at hp
    subst hp
    exact eqAny_inlines column _ (valueSql_inlines hv)
  | like | notLike =>
    obtain ⟨v, hv, hp⟩ := bind_eq_ok.mp h
    rw [Except.ok.injEq] at hp
    subst hp
    exact ilike_inlines column _ swapped (likePattern_inlines hv)
  | eq | notEq | gt | gte | lt | lte => exact compareOrdered_inlines h

theorem compare_inlines {path : List String} {op : CompareOp} {swapped : Bool}
    {context : FilterContext} {p : Pred} (h : compare path op o swapped context = .ok p) :
    InlinesRule p (o.literals op.isLike) (compare path op o.shape swapped context) := by
  unfold compare at h ⊢
  match path with
  | [] => simp at h
  | _ :: _ :: _ => simp at h
  | [column] =>
    simp only at h ⊢
    obtain ⟨columnType, hcolumn, h⟩ := bind_eq_ok.mp h
    obtain ⟨u, hsupported, h⟩ := bind_eq_ok.mp h
    rw [hcolumn]
    simp only [Except.bind, bind, hsupported]
    by_cases hnull : o = .null
    · subst hnull
      simp only [↓reduceIte, Operand.shape] at h ⊢
      refine ⟨?_, p, h, rfl⟩
      cases op <;> simp only [compareNull, Except.ok.injEq, reduceCtorEq] at h <;> subst h <;> rfl
    · simp only [hnull, Operand.shape_eq_null, ↓reduceIte] at h ⊢
      exact compareOperator_inlines h

theorem compareValues_inlines {l : Operand} {op : CompareOp} {r : Operand} {p : Pred}
    (h : compareValues l op r = .ok p) :
    InlinesRule p (l.literals false ++ r.literals op.isLike) (compareValues l.shape op r.shape) := by
  unfold compareValues at h ⊢
  by_cases hnull : l = .null ∨ r = .null
  · simp [hnull] at h
  simp only [hnull, Operand.shape_eq_null, valuesCast_shape, ↓reduceIte] at h ⊢
  cases op with
  | any | notAny => simp at h
  | like | notLike =>
    obtain ⟨haystack, hl, h⟩ := bind_eq_ok.mp h
    obtain ⟨needle, hr, h⟩ := bind_eq_ok.mp h
    rw [Except.ok.injEq] at h
    subst h
    exact InlinesRule.ofFrame (marks_ilike _) (valueSql_inlines hl) (likePattern_inlines hr)
  | eq | notEq | gt | gte | lt | lte =>
    obtain ⟨leftSql, hl, h⟩ := bind_eq_ok.mp h
    obtain ⟨rightSql, hr, h⟩ := bind_eq_ok.mp h
    rw [Except.ok.injEq] at h
    subst h
    exact InlinesRule.ofFrame (marks_compare _) (ruleValueSql_inlines hl) (ruleValueSql_inlines hr)

/-- **The literals of a rule stay in their slots.** The predicate's values are the literals of the
rule, left to right, and its frame is the one compiled from the rule's shape. -/
theorem predicate_inlines {context : FilterContext} {e : Expr} {p : Pred}
    (h : predicate context e = .ok p) :
    InlinesRule p e.literals (predicate context e.shape) := by
  induction e generalizing p with
  | and l r ihl ihr | or l r ihl ihr =>
    obtain ⟨pl, hl, h⟩ := bind_eq_ok.mp h
    obtain ⟨pr, hr, h⟩ := bind_eq_ok.mp h
    rw [Except.ok.injEq] at h
    subst h
    obtain ⟨hvl, ql, hql, hkl⟩ := ihl hl
    obtain ⟨hvr, qr, hqr, hkr⟩ := ihr hr
    simp only [Pred.values, Pred.skeleton] at hvl hvr hkl hkr
    refine ⟨?_, ?_⟩
    · simp [Pred.values, Pred.marks, Expr.literals, hvl, hvr]
    · refine ⟨_, by simp only [Expr.shape, predicate, hql, hqr]; rfl, ?_⟩
      simp [Pred.skeleton, Pred.marks, hkl, hkr]
  | compare l op r =>
    cases l <;> cases r
    · simp [predicate, compareSides] at h
    · exact compare_inlines h
    · exact compare_inlines h
    · exact compareValues_inlines h

/-- Two rules of one shape compile to predicates with the same frame. -/
theorem skeleton_eq_of_shape {context : FilterContext} {e e' : Expr} {p p' : Pred}
    (hshape : e'.shape = e.shape) (h : predicate context e = .ok p)
    (h' : predicate context e' = .ok p') : p'.skeleton = p.skeleton := by
  obtain ⟨q, hq, hp⟩ := (predicate_inlines h).skeleton
  obtain ⟨q', hq', hp'⟩ := (predicate_inlines h').skeleton
  rw [hshape, hq, Except.ok.injEq] at hq'
  rw [← hp, ← hp', hq']

end Policy

end LazyPock
