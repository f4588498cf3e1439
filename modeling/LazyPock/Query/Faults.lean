import LazyPock.Query.Grammar
import LazyPock.Rls.Policy

/-!
# Filters that end in a server fault

Which filters the two compilers (`crates/db/src/query/compile.rs` and `crates/db/src/rls/policy.rs`)
answer with an internal error. Both encode a literal where the other kinds of operand are meant to
have been handled before; `@now` has been only in the orderings and equalities, so a `~` or a `?=`
with `@now` reaches the encoder.

A comparison is classified by its operator, its operands and the type of its column; the answer of
a compiler to a filter is that of its first comparison that is not supported.

## Main definitions

* `Demand`: supported, refused, or `@now` where a text is encoded.
* `FilterContext.columnTypeAt`: the type of the column at the end of a path.
* `demand`, `Policy.demand`: the classification for each compiler.
* `NowReached`: the first comparison that is not supported encodes `@now`.

## Main results

* `answer_compileExpr`, `Policy.answer_predicate`: what the compilers answer.
* `faults_iff_nowReached`: the filters that end in a server fault.
-/

namespace LazyPock

open Text Sql

/-! ### Answers -/

/-- What becomes of a comparison: it is supported, it is refused as the client's error, or it has
`@now` where a literal is encoded as text. -/
inductive Demand where
  | supported
  | refused
  | nowAsText
deriving DecidableEq

/-- Two demands one after the other: the first that is not supported decides. -/
@[grind =]
def Demand.andThen : Demand → Demand → Demand
  | .supported, other => other
  | demand, _ => demand

/-- The demand that a result answers to: an internal error is a fault of the server. -/
@[grind =]
def answer {α : Type} : Result α → Demand
  | .ok _ => .supported
  | .error (.internal _) => .nowAsText
  | .error _ => .refused

section Answer

variable {α β : Type}

@[simp] theorem answer_ok (a : α) : answer (.ok a : Result α) = .supported := rfl

@[simp] theorem andThen_refused (d : Demand) : Demand.andThen .refused d = .refused := rfl

@[simp] theorem andThen_supported (d : Demand) : Demand.andThen .supported d = d := rfl

@[simp] theorem andThen_nowAsText (d : Demand) : Demand.andThen .nowAsText d = .nowAsText := rfl

/-- A step, then one whose answer does not depend on what the first one gave. -/
theorem answer_bind {x : Result α} {f : α → Result β} {d : Demand} (h : ∀ a, answer (f a) = d) :
    answer (x >>= f) = (answer x).andThen d := by
  cases x with
  | ok a => exact h a
  | error e => cases e <;> rfl

theorem answer_seq (x : Result Unit) (y : Result β) :
    answer (x >>= fun _ => y) = (answer x).andThen (answer y) :=
  answer_bind fun _ => rfl

theorem answer_bind_ok (x : Result α) (f : α → β) :
    answer (x >>= fun a => .ok (f a)) = answer x := by
  cases x with
  | ok a => rfl
  | error e => cases e <;> rfl

theorem answer_failIf_invalid (p : Prop) [Decidable p] (m : String) :
    answer (failIf p (.invalid m)) = if p then .refused else .supported := by
  unfold failIf
  split <;> rfl

theorem answer_eq_nowAsText_iff {x : Result α} :
    answer x = .nowAsText ↔ ∃ m, x = .error (.internal m) := by
  cases x with
  | ok a => simp
  | error e => cases e <;> simp [answer]

end Answer

/-! ### Demands of a comparison -/

/-- The type of the column at the end of some relation hops. -/
def FilterContext.columnTypeAt (column : String) : List String → FilterContext → Option String
  | [], context => Assoc.lookup column context.columns
  | hop :: hops, context =>
    match Assoc.lookup hop context.relations with
    | some relation => columnTypeAt column hops relation.context
    | none => none

/-- Whether an operator applies to columns of a type. -/
def operatorApplies (op : CompareOp) (columnType : String) : Bool :=
  match op with
  | .any | .notAny => columnType = "text[]"
  | .like | .notLike => columnType = "text"
  | .eq | .notEq => columnType ≠ "text[]"
  | .gt | .gte | .lt | .lte =>
    columnType ≠ "text[]" && columnType ≠ "jsonb" && columnType ≠ "boolean"

/-- The demand of a comparison of a column with `null`. -/
def nullDemand (op : CompareOp) : Demand :=
  if op = .eq ∨ op = .notEq then .supported else .refused

/-- The demand of a comparison of a column with an operand. -/
def operandDemand (op : CompareOp) (columnType : String) (operand : Operand) : Demand :=
  if operand = .null then nullDemand op
  else if operatorApplies op columnType = false then .refused
  else match op with
    | .any | .notAny | .like | .notLike => if operand = .now then .nowAsText else .supported
    | .eq | .notEq | .gt | .gte | .lt | .lte =>
      if operand = .now ∧ columnType ≠ "timestamptz" then .refused else .supported

/-- The demand of a comparison of a path with an operand. -/
def pathDemand (context : FilterContext) (path : List String) (op : CompareOp)
    (operand : Operand) : Demand :=
  if maxPathDepth < path.length then .refused
  else match path.getLast? with
    | none => .refused
    | some column =>
      match FilterContext.columnTypeAt column path.dropLast context with
      | some columnType => operandDemand op columnType operand
      | none => .refused

/-- The demand of a comparison of two values. -/
def valuesDemand (left : Operand) (op : CompareOp) (right : Operand) : Demand :=
  if left = .null ∨ right = .null then .refused
  else match op with
    | .any | .notAny => .refused
    | .like | .notLike => if right = .now then .nowAsText else .supported
    | .eq | .notEq | .gt | .gte | .lt | .lte => .supported

/-- The demand of a comparison in a filter. -/
def demand (context : FilterContext) : Side × CompareOp × Side → Demand
  | (.path path, op, .value operand) | (.value operand, op, .path path) =>
    pathDemand context path op operand
  | (.value left, op, .value right) => valuesDemand left op right
  | (.path _, _, .path _) => .refused

/-- The comparisons of a filter, left to right. -/
@[grind =]
def Expr.comparisons : Expr → List (Side × CompareOp × Side)
  | .and left right | .or left right => left.comparisons ++ right.comparisons
  | .compare left op right => [(left, op, right)]

/-- The demand of a list of comparisons is that of the first one that is not supported. -/
def demandAll (demand : Side × CompareOp × Side → Demand) (cs : List (Side × CompareOp × Side)) :
    Demand :=
  cs.foldr (fun c rest => (demand c).andThen rest) .supported

/-- **`@now` is reached**: some comparison encodes `@now` as a text, and every comparison before it
is supported. -/
def NowReached (demand : Side × CompareOp × Side → Demand) (expr : Expr) : Prop :=
  ∃ before c after, expr.comparisons = before ++ c :: after ∧
    (∀ b ∈ before, demand b = .supported) ∧ demand c = .nowAsText

theorem demandAll_append (demand : Side × CompareOp × Side → Demand)
    (xs ys : List (Side × CompareOp × Side)) :
    demandAll demand (xs ++ ys) = (demandAll demand xs).andThen (demandAll demand ys) := by
  induction xs with
  | nil => rfl
  | cons c xs ih =>
    have hstep : demandAll demand (c :: (xs ++ ys)) =
        (demand c).andThen ((demandAll demand xs).andThen (demandAll demand ys)) := by
      rw [← ih]
      rfl
    rw [List.cons_append, hstep]
    change _ = ((demand c).andThen (demandAll demand xs)).andThen _
    cases demand c <;> rfl

theorem demandAll_eq_nowAsText_iff {demand : Side × CompareOp × Side → Demand} {expr : Expr} :
    demandAll demand expr.comparisons = .nowAsText ↔ NowReached demand expr := by
  unfold NowReached
  generalize expr.comparisons = cs
  induction cs with
  | nil => simp [demandAll]
  | cons c cs ih =>
    have hstep : demandAll demand (c :: cs) = (demand c).andThen (demandAll demand cs) := rfl
    rw [hstep]
    constructor
    · intro h
      cases hfirst : demand c with
      | supported =>
        rw [hfirst] at h
        obtain ⟨before, now, after, rfl, hbefore, hnow⟩ := ih.mp h
        exact ⟨c :: before, now, after, rfl, List.forall_mem_cons.mpr ⟨hfirst, hbefore⟩, hnow⟩
      | refused =>
        rw [hfirst] at h
        cases h
      | nowAsText => exact ⟨[], c, cs, rfl, by simp, hfirst⟩
    · rintro ⟨before, now, after, heq, hbefore, hnow⟩
      cases before with
      | nil =>
        obtain ⟨rfl, -⟩ := List.cons.inj heq
        rw [hnow]
        rfl
      | cons b before =>
        obtain ⟨rfl, hcs⟩ := List.cons.inj heq
        obtain ⟨hb, hbefore⟩ := List.forall_mem_cons.mp hbefore
        rw [hb]
        exact ih.mpr ⟨before, now, after, hcs, hbefore, hnow⟩

/-! ### The filter compiler -/

theorem answer_checkOperatorSupported (op : CompareOp) (columnType target : String) :
    answer (checkOperatorSupported op columnType target) =
      if operatorApplies op columnType = false then .refused else .supported := by
  cases op <;> simp only [checkOperatorSupported, answer_failIf_invalid, operatorApplies,
    Bool.and_eq_false_iff, decide_eq_false_iff_not, not_not, or_assoc, ne_eq]

theorem answer_compareNull (target : Scalar) (op : CompareOp) :
    answer (compareNull target op) = nullDemand op := by
  cases op <;> rfl

/-- Only `@now` and `null` are no literals. -/
theorem answer_literalValue {operand : Operand} (hnull : operand ≠ .null) (auth : AuthContext) :
    answer (literalValue operand auth) =
      if operand = .now then .nowAsText else .supported := by
  cases operand with
  | null => exact absurd rfl hnull
  | _ => rfl

theorem answer_compileOperator (target : Scalar) (columnType : String) (op : CompareOp)
    (operand : Operand) (swapped : Bool) (auth : AuthContext) (params : List String) :
    answer (compileOperator target columnType op operand swapped auth params) =
      operandDemand op columnType operand := by
  unfold compileOperator operandDemand
  by_cases hnull : operand = .null
  · rw [if_pos hnull, if_pos hnull, answer_bind_ok, answer_compareNull]
  rw [if_neg hnull, if_neg hnull, answer_seq, answer_checkOperatorSupported]
  have hliteral := answer_literalValue hnull auth
  by_cases happlies : operatorApplies op columnType = false
  · rw [if_pos happlies, if_pos happlies]
    rfl
  rw [if_neg happlies, if_neg happlies, andThen_supported]
  cases op
  case any | notAny | like | notLike => exact (answer_bind_ok _ _).trans hliteral
  all_goals
    dsimp only
    by_cases hnow : operand = .now
    · by_cases htype : columnType = "timestamptz"
      · simp [hnow, htype]
      · simp [hnow, htype, answer]
    · rw [if_neg hnow, if_neg fun h => hnow h.1]
      rw [if_neg hnow] at hliteral
      exact (answer_bind_ok _ _).trans hliteral

theorem answer_compileAt (column : String) (op : CompareOp) (operand : Operand) (swapped : Bool)
    (auth : AuthContext) (params : List String) (hops : List String) (context : FilterContext)
    (parent : Ref) (n : Nat) :
    answer (compileAt column op operand swapped auth params hops context parent n) =
      match FilterContext.columnTypeAt column hops context with
      | some columnType => operandDemand op columnType operand
      | none => .refused := by
  induction hops generalizing context parent n with
  | nil =>
    rw [compileAt, FilterContext.columnTypeAt]
    cases Assoc.lookup column context.columns with
    | none => rfl
    | some columnType => exact answer_compileOperator _ columnType op operand swapped auth params
  | cons hop hops ih =>
    rw [compileAt, FilterContext.columnTypeAt]
    cases Assoc.lookup hop context.relations with
    | none => rfl
    | some relation => exact (answer_bind_ok _ _).trans (ih relation.context _ (n + 1))

theorem answer_compilePath {path : List String} (hpath : path ≠ []) (op : CompareOp)
    (operand : Operand) (swapped : Bool) (context : FilterContext) (auth : AuthContext) (root : Ref)
    (params : List String) :
    answer (compilePath path op operand swapped context auth root params) =
      pathDemand context path op operand := by
  unfold compilePath pathDemand
  split
  · rfl
  · rw [List.getLast?_eq_some_getLast hpath]
    exact answer_compileAt _ op operand swapped auth params _ context root 0

theorem answer_valueSql {operand : Operand} (hnull : operand ≠ .null) (type : PgType)
    (auth : AuthContext) (params : List String) :
    answer (LazyPock.valueSql operand type auth params) = .supported := by
  unfold LazyPock.valueSql
  split
  · rfl
  · rename_i hnow
    have hliteral := answer_literalValue hnull auth
    rw [if_neg hnow] at hliteral
    exact (answer_bind_ok _ _).trans hliteral

theorem answer_compileValues (left : Operand) (op : CompareOp) (right : Operand)
    (auth : AuthContext) (params : List String) :
    answer (compileValues left op right auth params) = valuesDemand left op right := by
  unfold compileValues valuesDemand
  split
  · rfl
  rename_i hnull
  rw [not_or] at hnull
  have hleft := fun type => answer_valueSql hnull.1 type auth params
  have hright := fun type params => answer_valueSql hnull.2 type auth params
  have hliteral := answer_literalValue hnull.2 auth
  cases op
  case any | notAny => rfl
  case like | notLike =>
    refine (answer_bind fun _ => ((answer_bind_ok _ _).trans hliteral)).trans ?_
    rw [hleft]
    rfl
  all_goals
    refine (answer_bind fun _ => (answer_bind_ok _ _).trans (hright _ _)).trans ?_
    rw [hleft]
    rfl

/-- The paths of a filter are not empty. -/
def Expr.Named : Expr → Prop
  | .and left right | .or left right => left.Named ∧ right.Named
  | .compare left _ right => left ≠ .path [] ∧ right ≠ .path []

theorem answer_compileComparison {left right : Side} (hleft : left ≠ .path [])
    (hright : right ≠ .path []) (op : CompareOp) (context : FilterContext) (auth : AuthContext)
    (root : Ref) (params : List String) :
    answer (compileComparison left op right context auth root params) =
      demand context (left, op, right) := by
  cases left with
  | path path =>
    cases right with
    | path other => rfl
    | value operand =>
      exact answer_compilePath (by simpa using hleft) op operand false context auth root params
  | value operand =>
    cases right with
    | path path =>
      exact answer_compilePath (by simpa using hright) op operand true context auth root params
    | value other => exact answer_compileValues operand op other auth params

/-- **What the filter compiler answers**: the demand of its first comparison that is not
supported. -/
theorem answer_compileExpr {expr : Expr} (h : expr.Named) (context : FilterContext)
    (auth : AuthContext) (root : Ref) (params : List String) :
    answer (compileExpr context auth root expr params) =
      demandAll (demand context) expr.comparisons := by
  induction expr generalizing params with
  | and left right ihl ihr =>
    rw [compileExpr, Expr.comparisons, demandAll_append, ← ihl h.1 params]
    exact answer_bind fun _ => (answer_bind_ok _ _).trans (ihr h.2 _)
  | or left right ihl ihr =>
    rw [compileExpr, Expr.comparisons, demandAll_append, ← ihl h.1 params]
    exact answer_bind fun _ => (answer_bind_ok _ _).trans (ihr h.2 _)
  | compare left op right =>
    rw [compileExpr, answer_compileComparison h.1 h.2]
    change _ = (demand context (left, op, right)).andThen .supported
    cases demand context (left, op, right) <;> rfl

/-! ### The rule compiler -/

namespace Policy

/-- The demand of a value that is encoded. -/
def valueDemand : Operand → Demand
  | .null | .now => .nowAsText
  | .number value => if value.isFinite then .supported else .refused
  | _ => .supported

/-- The demand of a comparison of a column with an operand. -/
def operandDemand (op : CompareOp) (columnType : String) (operand : Operand) : Demand :=
  if operatorApplies op columnType = false then .refused
  else if operand = .null then nullDemand op
  else match op with
    | .any | .notAny | .like | .notLike => valueDemand operand
    | .eq | .notEq | .gt | .gte | .lt | .lte =>
      if operand = .now then if columnType ≠ "timestamptz" then .refused else .supported
      else valueDemand operand

/-- The demand of a comparison of a path with an operand. -/
def pathDemand (context : FilterContext) (path : List String) (op : CompareOp)
    (operand : Operand) : Demand :=
  match path with
  | [column] =>
    match Assoc.lookup column context.columns with
    | some columnType => operandDemand op columnType operand
    | none => .refused
  | _ => .refused

/-- The demand of a comparison of two values. -/
def valuesDemand (left : Operand) (op : CompareOp) (right : Operand) : Demand :=
  let clock := fun operand : Operand => if operand = .now then .supported else valueDemand operand
  if left = .null ∨ right = .null then .refused
  else match op with
    | .any | .notAny => .refused
    | .like | .notLike => (valueDemand left).andThen (valueDemand right)
    | .eq | .notEq | .gt | .gte | .lt | .lte => (clock left).andThen (clock right)

/-- The demand of a comparison in a rule. -/
def demand (context : FilterContext) : Side × CompareOp × Side → Demand
  | (.path path, op, .value operand) | (.value operand, op, .path path) =>
    pathDemand context path op operand
  | (.value left, op, .value right) => valuesDemand left op right
  | (.path _, _, .path _) => .refused

theorem answer_valueSql (operand : Operand) (columnType : String) :
    answer (valueSql operand columnType) = valueDemand operand := by
  cases operand with
  | number value =>
    simp only [valueSql, valueDemand]
    rw [answer_seq, answer_failIf_invalid]
    cases value.isFinite <;> rfl
  | _ => rfl

theorem answer_ruleValueSql (operand : Operand) (columnType : String) :
    answer (ruleValueSql operand columnType) =
      if operand = .now then .supported else valueDemand operand := by
  unfold ruleValueSql
  split
  · rfl
  · exact answer_valueSql operand columnType

theorem answer_likePattern (operand : Operand) :
    answer (likePattern operand) = valueDemand operand := by
  cases operand with
  | text value => rfl
  | _ => exact (answer_bind_ok _ _).trans (answer_valueSql _ _)

theorem answer_compareOrdered (target : Scalar) (columnType : String) (op : CompareOp)
    (operand : Operand) (swapped : Bool) :
    answer (compareOrdered target columnType op operand swapped) =
      if operand = .now then if columnType ≠ "timestamptz" then .refused else .supported
      else valueDemand operand := by
  unfold compareOrdered
  split
  · rw [answer_seq, answer_failIf_invalid]
    split <;> rfl
  · exact (answer_bind_ok _ _).trans (answer_valueSql _ _)

/-- The compiler checks the operator before it looks at the operand. -/
theorem answer_compareColumn (target : Scalar) (columnType : String) (op : CompareOp)
    (operand : Operand) (swapped : Bool) :
    answer (do
      checkOperatorSupported op columnType target.text
      if operand = .null then compareNull target op
      else compareOperator target columnType op operand swapped) =
      operandDemand op columnType operand := by
  rw [answer_seq, answer_checkOperatorSupported]
  unfold operandDemand
  by_cases happlies : operatorApplies op columnType = false
  · rw [if_pos happlies, if_pos happlies]
    rfl
  rw [if_neg happlies, if_neg happlies, andThen_supported]
  by_cases hnull : operand = .null
  · rw [if_pos hnull, if_pos hnull, answer_compareNull]
  rw [if_neg hnull, if_neg hnull]
  cases op
  case any | notAny => exact (answer_bind_ok _ _).trans (answer_valueSql _ _)
  case like | notLike => exact (answer_bind_ok _ _).trans (answer_likePattern _)
  all_goals exact answer_compareOrdered target columnType _ operand swapped

theorem answer_compare (path : List String) (op : CompareOp) (operand : Operand) (swapped : Bool)
    (context : FilterContext) :
    answer (Policy.compare path op operand swapped context) =
      pathDemand context path op operand := by
  match path with
  | [] => rfl
  | _ :: _ :: _ => rfl
  | [column] =>
    unfold Policy.compare pathDemand
    dsimp only
    cases Assoc.lookup column context.columns with
    | none => rfl
    | some columnType => exact answer_compareColumn _ columnType op operand swapped

theorem answer_compareValues (left : Operand) (op : CompareOp) (right : Operand) :
    answer (compareValues left op right) = valuesDemand left op right := by
  unfold compareValues valuesDemand
  dsimp only
  split
  · rfl
  cases op
  case any | notAny => rfl
  case like | notLike =>
    rw [← answer_valueSql left "text", ← answer_likePattern right]
    exact answer_bind fun _ => answer_bind_ok _ _
  all_goals
    rw [← answer_ruleValueSql left (valuesCast left right).sql,
      ← answer_ruleValueSql right (valuesCast left right).sql]
    exact answer_bind fun _ => answer_bind_ok _ _

/-- **What the rule compiler answers**: the demand of its first comparison that is not
supported. -/
theorem answer_predicate (context : FilterContext) (expr : Expr) :
    answer (predicate context expr) = demandAll (demand context) expr.comparisons := by
  induction expr with
  | and left right ihl ihr =>
    rw [predicate, Expr.comparisons, demandAll_append, ← ihl, ← ihr]
    exact answer_bind fun _ => answer_bind_ok _ _
  | or left right ihl ihr =>
    rw [predicate, Expr.comparisons, demandAll_append, ← ihl, ← ihr]
    exact answer_bind fun _ => answer_bind_ok _ _
  | compare left op right =>
    have hside : answer (compareSides left op right context) = demand context (left, op, right) := by
      cases left <;> cases right
      · rfl
      · exact answer_compare _ op _ false context
      · exact answer_compare _ op _ true context
      · exact answer_compareValues _ op _
    rw [predicate, hside]
    change _ = (demand context (left, op, right)).andThen .supported
    cases demand context (left, op, right) <;> rfl

end Policy

/-! ### Paths of a parsed filter -/

namespace Filter

theorem readToken_ne_path {position : Nat} {c : Char} {cs : List Char}
    {r : Token × Nat × List Char} (h : readToken position c cs = .ok r) : r.1 ≠ .path [] := by
  unfold readToken at h
  split at h
  · unfold readPunctuation at h
    (repeat' split at h) <;> cases h <;> simp
  split at h
  · obtain ⟨_, -, h⟩ := bind_eq_ok.mp h
    cases h
    simp
  split at h
  · simp only [readAtReference] at h
    split at h <;> cases h <;> simp
  split at h
  · unfold readOperator at h
    (repeat' split at h) <;> cases h <;> simp
  split at h
  · obtain ⟨_, -, h⟩ := bind_eq_ok.mp h
    cases h
    simp
  split at h
  · obtain ⟨_, -, h⟩ := bind_eq_ok.mp h
    cases h
    simp
  split at h
  · simp only [readWord] at h
    split at h
    · cases h; simp
    · cases h; simp
    · cases h; simp
    · obtain ⟨_, -, h⟩ := bind_eq_ok.mp h
      cases h
      simpa using splitOn_ne_nil _ _
  cases h

theorem tokenize_ne_path {fuel position : Nat} {cs : List Char} {tokens : List Token}
    (h : tokenize fuel position cs = .ok tokens) : .path [] ∉ tokens := by
  induction fuel generalizing position cs tokens with
  | zero =>
    cases h
    simp
  | succ fuel ih =>
    rw [tokenize] at h
    rcases hread : readRun isWhitespace position cs with ⟨word, after, rest⟩
    rw [hread] at h
    cases rest with
    | nil =>
      cases h
      simp
    | cons c rest =>
      obtain ⟨r, hr, h⟩ := bind_eq_ok.mp h
      obtain ⟨ts, hts, h⟩ := bind_eq_ok.mp h
      cases h
      simpa using ⟨(readToken_ne_path hr).symm, ih hts⟩

theorem named_chain {separator : Token} {build : Expr → Expr → Expr}
    (hbuild : ∀ a b : Expr, a.Named → b.Named → (build a b).Named) {first : List Token × Expr}
    {items : List (List Token × Expr)}
    (h : ∀ item ∈ first :: items, .path [] ∉ item.1 → item.2.Named)
    (hpath : .path [] ∉ first.1 ++ Machine.tailTokens separator items) :
    (Machine.leftTree build first.2 items).Named := by
  rw [List.mem_append, not_or] at hpath
  refine Machine.leftTree_induction hbuild (h first List.mem_cons_self hpath.1) fun item hitem => ?_
  exact h item (List.mem_cons_of_mem _ hitem) fun hmem =>
    hpath.2 (Machine.subset_tailTokens separator hitem hmem)

theorem named_of_derives {depth : Nat} {phrase : Phrase} {tokens : List Token} {expr : Expr}
    (h : Derives depth phrase tokens expr) (hpath : .path [] ∉ tokens) : expr.Named := by
  induction h with
  | or h ih =>
    have hbuild : ∀ a b : Expr, a.Named → b.Named → (Expr.or a b).Named := fun _ _ ha hb => ⟨ha, hb⟩
    exact named_chain hbuild ih hpath
  | and h ih =>
    have hbuild : ∀ a b : Expr, a.Named → b.Named → (Expr.and a b).Named :=
      fun _ _ ha hb => ⟨ha, hb⟩
    exact named_chain hbuild ih hpath
  | parens h ih => exact ih fun hmem => hpath (by simp [hmem])
  | @compare _ lhs side left right op hleft hright =>
    constructor
    · rintro rfl
      cases hleft
      simp at hpath
    · rintro rfl
      cases hright
      simp at hpath

/-- **No path of a parsed filter is empty.** -/
theorem named_of_parse {input : String} {expr : Expr} (h : parse input = .ok expr) :
    expr.Named := by
  obtain ⟨parsed, hparsed, h⟩ := bind_eq_ok.mp h
  cases parsed with
  | none => cases h
  | some e =>
    cases h
    obtain ⟨-, tokens, htokens, -, hread⟩ := parseOptional_eq_ok_some_iff.mp hparsed
    obtain ⟨phrase, hphrase, hderives⟩ :=
      (parseOr_exact (maxDepth - 1)).sound (parseTokens_eq_ok_iff.mp hread)
    rw [List.append_nil] at hphrase
    rw [← hphrase] at hderives
    exact named_of_derives hderives (tokenize_ne_path htokens)

end Filter

/-! ### Server faults -/

/-- **The filters that end in a server fault**: a parsed filter is answered with an internal error
exactly when `@now` is reached where a text is encoded. -/
theorem faults_iff_nowReached {input : String} {expr : Expr} (h : Filter.parse input = .ok expr)
    (context : FilterContext) (auth : AuthContext) (root : Ref) :
    ((∀ m, compileWithRoot expr context auth root ≠ .error (.internal m)) ↔
        ¬ NowReached (demand context) expr) ∧
      ((∀ m, Policy.predicate context expr ≠ .error (.internal m)) ↔
        ¬ NowReached (Policy.demand context) expr) := by
  constructor
  · rw [← demandAll_eq_nowAsText_iff,
      ← answer_compileExpr (Filter.named_of_parse h) context auth root []]
    have hroot : answer (compileWithRoot expr context auth root) =
        answer (compileExpr context auth root expr []) := answer_bind_ok _ _
    rw [← hroot, answer_eq_nowAsText_iff, not_exists]
  · rw [← demandAll_eq_nowAsText_iff, ← Policy.answer_predicate, answer_eq_nowAsText_iff,
      not_exists]

/-- A collection with a text column. -/
def titled : FilterContext := ⟨"notes", "c1", [("title", "text")], []⟩

theorem faults_iff_nowReached_titled :
    ((∀ m, compileWithRoot (.compare (.path ["title"]) .like (.value .now)) titled
          ⟨none, none, none, none, []⟩ (.quoted "notes") ≠ .error (.internal m)) ↔
        ¬ NowReached (demand titled) (.compare (.path ["title"]) .like (.value .now))) ∧
      ((∀ m, Policy.predicate titled (.compare (.path ["title"]) .like (.value .now)) ≠
          .error (.internal m)) ↔
        ¬ NowReached (Policy.demand titled) (.compare (.path ["title"]) .like (.value .now))) := by
  have hparse : Filter.parse "title ~ @now" =
      .ok (.compare (.path ["title"]) .like (.value .now)) := by decide
  exact faults_iff_nowReached hparse titled ⟨none, none, none, none, []⟩ (.quoted "notes")

/-- `title ~ @now` is parsed, and both compilers answer it with an internal error. -/
theorem now_reaches_encoder :
    ¬ ∀ input expr, Filter.parse input = .ok expr →
      ∀ (context : FilterContext) (auth : AuthContext) (root : Ref) (m : String),
        compileWithRoot expr context auth root ≠ .error (.internal m) ∧
          Policy.predicate context expr ≠ .error (.internal m) := by
  intro hall
  have hparse : Filter.parse "title ~ @now" =
      .ok (.compare (.path ["title"]) .like (.value .now)) := by decide
  have hnever := hall _ _ hparse titled ⟨none, none, none, none, []⟩ (.quoted "notes")
    "`@now` reached the literal encoder; it should have been handled earlier"
  exact hnever.1 rfl

end LazyPock
