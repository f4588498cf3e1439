import LazyPock.Files.Listing
import LazyPock.Query.Grammar
import LazyPock.Query.Statements
import LazyPock.Sql.Shift

/-!
# The parameters of a file listing

The statements of `list` (`crates/files/src/store.rs`) are read token by token, with the values of
their parameters in place of the placeholders. The restriction is one that a file rule compiles to: it
names columns of `_files` only and holds no relation, so a dollar sign of its text opens a placeholder.

## Main definitions

* `Files.FromRule`, `Files.RuleRestricted`: the restrictions that file rules compile
  to.
* `Files.Moves`: a text in which only placeholders are renumbered.
* `Files.BindsRight`: what the statements of a listing say of which values.

## Main results

* `Files.shiftPlaceholders_sql`: only placeholders of a restriction are renumbered.
* `Files.bindsRight_iff`: the statements are right as long as the offset does not overflow.
-/

namespace LazyPock.Files

open Text Sql

/-! ### Renumbering a text -/

/-- A text that does not continue a number. -/
def EndsNumber (cs : List Char) : Prop := ∀ c ∈ cs.head?, isAsciiDigit c = false

/-- Moving the placeholders of a text turns it into another one, whatever follows. -/
structure Moves (offset : ℕ) (cs moved : List Char) : Prop where
  run : ∀ rest, EndsNumber rest →
    shiftChars offset none (cs ++ rest) = moved ++ shiftChars offset none rest
  ne_nil : cs ≠ []
  ends : EndsNumber cs

section Moves

variable {offset : ℕ} {cs moved ds moved' : List Char}

theorem EndsNumber.append (hne : cs ≠ []) (h : EndsNumber cs) : EndsNumber (cs ++ ds) := by
  cases cs with
  | nil => exact absurd rfl hne
  | cons c cs => exact h

theorem Moves.append (h : Moves offset cs moved) (h' : Moves offset ds moved') :
    Moves offset (cs ++ ds) (moved ++ moved') where
  run := fun rest hrest => by
    rw [List.append_assoc, h.run _ (h'.ends.append h'.ne_nil), h'.run rest hrest, List.append_assoc]
  ne_nil := by simp [h.ne_nil]
  ends := h.ends.append h.ne_nil

/-- A text without dollar signs stays. -/
theorem Moves.of_notMem (hdollar : '$' ∉ cs) (hne : cs ≠ []) (hends : EndsNumber cs) :
    Moves offset cs cs where
  run := fun rest _ => by
    clear hne hends
    induction cs with
    | nil => rfl
    | cons c cs ih =>
      rw [List.mem_cons, not_or] at hdollar
      rw [List.cons_append, shiftChars, if_neg (Ne.symm hdollar.1), ih hdollar.2, List.cons_append]
  ne_nil := hne
  ends := hends

/-- The digits behind a dollar sign are collected. -/
theorem shiftChars_digits {digits rest : List Char} (collected : List Char)
    (hdigits : ∀ c ∈ digits, isAsciiDigit c = true) (hrest : EndsNumber rest) :
    shiftChars offset (some collected) (digits ++ rest) =
      movedPlaceholder offset (collected ++ digits) ++ shiftChars offset none rest := by
  induction digits generalizing collected with
  | nil =>
    rw [List.nil_append, List.append_nil]
    cases rest with
    | nil => rw [shiftChars, shiftChars, List.append_nil]
    | cons c rest =>
      have hc : isAsciiDigit c = false := hrest c rfl
      simp only [shiftChars, hc, Bool.false_eq_true, if_false]
  | cons d digits ih =>
    rw [List.cons_append, shiftChars, if_pos (hdigits d List.mem_cons_self),
      ih (collected ++ [d]) fun c hc => hdigits c (List.mem_cons_of_mem _ hc), List.append_assoc,
      List.singleton_append]

theorem toList_param (n : ℕ) : (Scalar.param n).text.toList = '$' :: Nat.toDigits 10 n := by
  simp [Nat.toList_repr]

theorem movedPlaceholder_toDigits {n : ℕ} (h : n + offset < 2 ^ 64) :
    movedPlaceholder offset (Nat.toDigits 10 n) = (Scalar.param (n + offset)).text.toList := by
  have hlt : n < 2 ^ 64 := by omega
  have hposition : parsePosition (Nat.toDigits 10 n) = some n := by
    rw [parsePosition, if_neg Nat.toDigits_ne_nil, Nat.ofDigitChars_ten_toDigits]
    exact if_pos hlt
  rw [toList_param, movedPlaceholder, hposition]
  simp only [Nat.mod_eq_of_lt h]
  rw [Nat.toString_eq_repr, Nat.toList_repr]

/-- A placeholder is renumbered. -/
theorem Moves.param {n : ℕ} (h : n + offset < 2 ^ 64) :
    Moves offset (Scalar.param n).text.toList (Scalar.param (n + offset)).text.toList where
  run := fun rest hrest => by
    rw [toList_param, List.cons_append, shiftChars, if_pos rfl,
      shiftChars_digits [] (fun c hc => isAsciiDigit_of_mem_toDigits hc) hrest, List.nil_append,
      movedPlaceholder_toDigits h]
  ne_nil := by simp
  ends := by simp [EndsNumber, isAsciiDigit]

end Moves

/-! ### Restrictions -/

/-- A scalar in which a dollar sign opens a placeholder. -/
def PlainScalar : Scalar → Prop
  | .column (some (.quoted table)) name => '$' ∉ (quoteIdent table ++ "." ++ quoteIdent name).toList
  | .lit value => '$' ∉ (Scalar.lit value).text.toList
  | .param _ | .now => True
  | .cast inner _ => PlainScalar inner
  | .concat left right => PlainScalar left ∧ PlainScalar right
  | _ => False

/-- A condition in which a dollar sign opens a placeholder. -/
def PlainPred : Pred → Prop
  | .isNull value | .isNotNull value => PlainScalar value
  | .compare left _ right | .ilike _ left right | .eqAny left right =>
    PlainScalar left ∧ PlainScalar right
  | .not inner => PlainPred inner
  | .and left right | .or left right => PlainPred left ∧ PlainPred right
  | _ => False

section Plain

variable {offset : ℕ}

/-- The texts around the values of a plain condition. -/
def plainTexts : List String :=
  [" is null", " is not null", " = ", " <> ", " > ", " >= ", " < ", " <= ", " ilike ", " not ilike ",
    " escape '\\'", " = any(", ")", "not (", "(", " and ", " or ", " || ", "now()", "::text",
    "::bigint", "::double precision", "::boolean", "::timestamptz", "::jsonb", "::text[]"]

theorem Moves.fixed {text : String} (h : text ∈ plainTexts) : Moves offset text.toList text.toList := by
  have hall : plainTexts.all (fun text => text.toList.all (· ≠ '$') && !text.toList.isEmpty &&
      text.toList.head?.all fun c => !isAsciiDigit c) = true := by decide +kernel
  have htext := List.all_eq_true.mp hall text h
  simp only [Bool.and_eq_true, List.all_eq_true, Bool.not_eq_true', decide_eq_true_eq] at htext
  obtain ⟨⟨hdollar, hne⟩, hends⟩ := htext
  refine .of_notMem (fun hmem => hdollar _ hmem rfl) ?_ ?_
  · rintro hnil
    simp [hnil] at hne
  · intro c hc
    cases hhead : text.toList.head? with
    | none => simp [hhead] at hc
    | some d =>
      simp only [hhead, Option.mem_def, Option.some.injEq] at hc
      simpa [hhead, hc] using hends

theorem Moves.scalar {s : Scalar} (hplain : PlainScalar s)
    (hbound : ∀ n ∈ params s.tokens, n + offset < 2 ^ 64) :
    Moves offset s.text.toList (s.shift offset).text.toList := by
  induction s with
  | column table name =>
    rcases table with _ | table | _
    · exact hplain.elim
    · exact .of_notMem hplain (by simp [quoteIdent])
        (by simp [quoteIdent, EndsNumber, isAsciiDigit, Ref.text])
    · exact hplain.elim
  | param n => exact .param (hbound n (by simp))
  | lit value =>
    exact .of_notMem hplain (by simp [stringConstant])
      (by simp [stringConstant, EndsNumber, isAsciiDigit])
  | now => exact .fixed (by decide)
  | cast inner type ih =>
    have hinner := ih hplain fun n hn => hbound n (by simpa using hn)
    have htype : Moves offset ("::" ++ type.sql).toList ("::" ++ type.sql).toList :=
      .fixed (by cases type <;> decide)
    simpa [Scalar.shift] using hinner.append htype
  | concat left right ihl ihr =>
    have hl := ihl hplain.1 fun n hn => hbound n (by simp [hn])
    have hr := ihr hplain.2 fun n hn => hbound n (by simp [hn])
    have hmid : Moves offset " || ".toList " || ".toList := .fixed (by decide)
    simpa [Scalar.shift] using (hl.append hmid).append hr
  | _ => exact hplain.elim

theorem Moves.pred {p : Pred} (hplain : PlainPred p)
    (hbound : ∀ n ∈ params p.tokens, n + offset < 2 ^ 64) :
    Moves offset p.text.toList (p.shift offset).text.toList := by
  have hopen : Moves offset "(".toList "(".toList := .fixed (by decide)
  have hclose : Moves offset ")".toList ")".toList := .fixed (by decide)
  induction p with
  | isNull value =>
    have hvalue := Moves.scalar hplain fun n hn => hbound n (by simpa using hn)
    have hend : Moves offset " is null".toList " is null".toList := .fixed (by decide)
    simpa [Pred.shift] using hvalue.append hend
  | isNotNull value =>
    have hvalue := Moves.scalar hplain fun n hn => hbound n (by simpa using hn)
    have hend : Moves offset " is not null".toList " is not null".toList := .fixed (by decide)
    simpa [Pred.shift] using hvalue.append hend
  | compare left op right =>
    have hl := Moves.scalar hplain.1 fun n hn => hbound n (by simp [hn])
    have hr := Moves.scalar hplain.2 fun n hn => hbound n (by simp [hn])
    have hop : Moves offset (" " ++ op.sql ++ " ").toList (" " ++ op.sql ++ " ").toList :=
      .fixed (by cases op <;> decide)
    simpa [Pred.shift] using (hl.append hop).append hr
  | ilike negated left pattern =>
    have hl := Moves.scalar hplain.1 fun n hn => hbound n (by simp [hn])
    have hr := Moves.scalar hplain.2 fun n hn => hbound n (by simp [hn])
    have hmid (text : String) (h : text ∈ plainTexts) : Moves offset text.toList text.toList := .fixed h
    have hend := hmid " escape '\\'" (by decide)
    cases negated with
    | false => simpa [Pred.shift] using ((hl.append (hmid " ilike " (by decide))).append hr).append hend
    | true =>
      simpa [Pred.shift] using ((hl.append (hmid " not ilike " (by decide))).append hr).append hend
  | eqAny left array =>
    have hl := Moves.scalar hplain.1 fun n hn => hbound n (by simp [hn])
    have hr := Moves.scalar hplain.2 fun n hn => hbound n (by simp [hn])
    have hmid : Moves offset " = any(".toList " = any(".toList := .fixed (by decide)
    simpa [Pred.shift] using ((hl.append hmid).append hr).append hclose
  | not inner ih =>
    have hinner := ih hplain fun n hn => hbound n (by simpa using hn)
    have hnot : Moves offset "not (".toList "not (".toList := .fixed (by decide)
    simpa [Pred.shift] using (hnot.append hinner).append hclose
  | and left right ihl ihr =>
    have hl := ihl hplain.1 fun n hn => hbound n (by simp [hn])
    have hr := ihr hplain.2 fun n hn => hbound n (by simp [hn])
    have hand : Moves offset " and ".toList " and ".toList := .fixed (by decide)
    simpa [Pred.shift] using (((hopen.append hl).append hand).append hr).append hclose
  | or left right ihl ihr =>
    have hl := ihl hplain.1 fun n hn => hbound n (by simp [hn])
    have hr := ihr hplain.2 fun n hn => hbound n (by simp [hn])
    have hor : Moves offset " or ".toList " or ".toList := .fixed (by decide)
    simpa [Pred.shift] using (((hopen.append hl).append hor).append hr).append hclose
  | _ => exact hplain.elim

/-! ### What a file rule compiles to -/

/-- A plain condition that adds at most `n` parameters. -/
def Compiles (ps : List String) (n : ℕ) (r : Pred × List String) : Prop :=
  PlainPred r.1 ∧ r.2.length ≤ ps.length + n

variable {auth : AuthContext} {ps : List String} {op : CompareOp}

theorem plain_pushParam (v : String) (t : PgType) : PlainScalar (pushParam v t ps).1 := by
  by_cases ht : t = .text <;> simp [pushParam, ht, PlainScalar]

theorem length_pushParam (v : String) (t : PgType) : (pushParam v t ps).2.length = ps.length + 1 := by
  simp [pushParam]

theorem plain_contains {s : Scalar} (h : PlainScalar s) : PlainScalar (contains s) :=
  have hpercent : PlainScalar (.lit "%") :=
    show '$' ∉ (Scalar.lit "%").text.toList by decide
  ⟨⟨hpercent, h⟩, hpercent⟩

theorem plain_comparePred (swapped : Bool) {s t : Scalar} (hs : PlainScalar s) (ht : PlainScalar t) :
    PlainPred (comparePred swapped s op t) := by
  cases swapped
  · exact ⟨hs, ht⟩
  · exact ⟨ht, hs⟩

theorem valueSql_spec {o : Operand} {t : PgType} {r : Scalar × List String}
    (h : valueSql o t auth ps = .ok r) : PlainScalar r.1 ∧ r.2.length ≤ ps.length + 1 := by
  unfold valueSql at h
  split at h
  · obtain rfl := Except.ok.inj h
    exact ⟨trivial, Nat.le_succ _⟩
  · obtain ⟨v, -, h⟩ := bind_eq_ok.mp h
    obtain rfl := Except.ok.inj h
    exact ⟨plain_pushParam v t, (length_pushParam v t).le⟩

variable {r : Pred × List String}

theorem compiles_operator {target : Scalar} {columnType : String} {o : Operand} {swapped : Bool} (htarget : PlainScalar target)
    (h : compileOperator target columnType op o swapped auth ps = .ok r) : Compiles ps 1 r := by
  unfold compileOperator at h
  split at h
  · obtain ⟨p, hp, h⟩ := bind_eq_ok.mp h
    obtain rfl := Except.ok.inj h
    refine ⟨?_, Nat.le_succ _⟩
    cases op <;> cases hp <;> exact htarget
  · obtain ⟨_, -, h⟩ := bind_eq_ok.mp h
    cases op
    case any =>
      obtain ⟨v, -, h⟩ := bind_eq_ok.mp h
      obtain rfl := Except.ok.inj h
      exact ⟨⟨plain_pushParam v .text, htarget⟩, (length_pushParam v .text).le⟩
    case notAny =>
      obtain ⟨v, -, h⟩ := bind_eq_ok.mp h
      obtain rfl := Except.ok.inj h
      exact ⟨⟨plain_pushParam v .text, htarget⟩, (length_pushParam v .text).le⟩
    case like | notLike =>
      obtain ⟨v, -, h⟩ := bind_eq_ok.mp h
      obtain rfl := Except.ok.inj h
      refine ⟨?_, (length_pushParam _ .text).le⟩
      cases swapped
      · exact ⟨htarget, plain_contains (plain_pushParam _ .text)⟩
      · exact ⟨plain_pushParam _ .text, plain_contains htarget⟩
    all_goals
      dsimp only at h
      split at h
      · split at h
        · cases h
        · obtain rfl := Except.ok.inj h
          exact ⟨plain_comparePred swapped htarget trivial, Nat.le_succ _⟩
      · obtain ⟨v, -, h⟩ := bind_eq_ok.mp h
        obtain rfl := Except.ok.inj h
        exact ⟨plain_comparePred swapped htarget (plain_pushParam v (castFor columnType)),
          (length_pushParam v (castFor columnType)).le⟩

theorem compiles_values {l o : Operand}
    (h : compileValues l op o auth ps = .ok r) : Compiles ps 2 r := by
  unfold compileValues at h
  split at h
  · cases h
  · cases op
    case any | notAny => cases h
    case like | notLike =>
      obtain ⟨⟨haystack, ps'⟩, hl, h⟩ := bind_eq_ok.mp h
      obtain ⟨v, -, h⟩ := bind_eq_ok.mp h
      obtain rfl := Except.ok.inj h
      obtain ⟨hplain, hlength⟩ := valueSql_spec hl
      refine ⟨⟨hplain, plain_contains (plain_pushParam _ .text)⟩, ?_⟩
      exact (length_pushParam _ .text).trans_le (Nat.succ_le_succ hlength)
    all_goals
      obtain ⟨⟨left, ps'⟩, hl, h⟩ := bind_eq_ok.mp h
      obtain ⟨⟨right, ps''⟩, hr, h⟩ := bind_eq_ok.mp h
      obtain rfl := Except.ok.inj h
      obtain ⟨hplain, hlength⟩ := valueSql_spec hl
      obtain ⟨hplain', hlength'⟩ := valueSql_spec hr
      exact ⟨⟨hplain, hplain'⟩, hlength'.trans (Nat.succ_le_succ hlength)⟩

/-- A column of the files: a rule reaches no other table. -/
theorem compiles_at {column : String} {o : Operand} {swapped : Bool} {hops : List String}
    {counter : ℕ}
    (h : compileAt column op o swapped auth ps hops ruleContext (.quoted "_files") counter = .ok r) :
    Compiles ps 1 r := by
  cases hops with
  | nil =>
    obtain ⟨columnType, hcolumn, h⟩ := bind_eq_ok.mp h
    refine compiles_operator ?_ h
    have hall : ruleColumns.all (fun c => (quoteIdent "_files" ++ "." ++ quoteIdent c.1).toList.all
        (· ≠ '$')) = true := by decide
    have hmem : (column, columnType) ∈ ruleColumns := Assoc.mem_of_lookup (okOr_eq_ok.mp hcolumn)
    have hplain := List.all_eq_true.mp (List.all_eq_true.mp hall _ hmem)
    intro hdollar
    simpa using hplain _ hdollar
  | cons hop hops =>
    obtain ⟨relation, hrelation, -⟩ := bind_eq_ok.mp h
    cases hrelation

/-- The comparisons of an expression. -/
@[grind =]
def leaves : Expr → ℕ
  | .and left right | .or left right => leaves left + leaves right
  | .compare .. => 1

theorem compiles_expr {e : Expr}
    (h : compileExpr ruleContext auth (.quoted "_files") e ps = .ok r) :
    Compiles ps (2 * leaves e) r := by
  induction e generalizing ps r with
  | and left right ihl ihr =>
    obtain ⟨⟨l, ps'⟩, hl, h⟩ := bind_eq_ok.mp h
    obtain ⟨⟨r', ps''⟩, hr, h⟩ := bind_eq_ok.mp h
    obtain rfl := Except.ok.inj h
    obtain ⟨hplain, hlength⟩ := ihl hl
    obtain ⟨hplain', hlength'⟩ := ihr hr
    refine ⟨⟨hplain, hplain'⟩, ?_⟩
    simp only [leaves] at *
    omega
  | or left right ihl ihr =>
    obtain ⟨⟨l, ps'⟩, hl, h⟩ := bind_eq_ok.mp h
    obtain ⟨⟨r', ps''⟩, hr, h⟩ := bind_eq_ok.mp h
    obtain rfl := Except.ok.inj h
    obtain ⟨hplain, hlength⟩ := ihl hl
    obtain ⟨hplain', hlength'⟩ := ihr hr
    refine ⟨⟨hplain, hplain'⟩, ?_⟩
    simp only [leaves] at *
    omega
  | compare left op right =>
    have hone {r : Pred × List String} (h : Compiles ps 1 r) : Compiles ps 2 r :=
      ⟨h.1, h.2.trans (Nat.le_succ _)⟩
    unfold compileExpr compileComparison compilePath at h
    split at h
    · split at h
      · cases h
      · split at h
        · cases h
        · exact hone (compiles_at h)
    · split at h
      · cases h
      · split at h
        · cases h
        · exact hone (compiles_at h)
    · exact compiles_values h
    · cases h

end Plain

/-! ### How many comparisons a rule has -/

section Leaves

open Machine (leftTree tailTokens)

theorem leaves_leftTree {build : Expr → Expr → Expr}
    (hbuild : ∀ a b, leaves (build a b) = leaves a + leaves b) {separator : Filter.Token}
    {first : List Filter.Token × Expr} {items : List (List Filter.Token × Expr)}
    (h : ∀ item ∈ first :: items, leaves item.2 ≤ item.1.length) :
    leaves (leftTree build first.2 items) ≤ (first.1 ++ tailTokens separator items).length := by
  have hfirst := h first List.mem_cons_self
  have hitems (item) (hitem : item ∈ items) := h item (List.mem_cons_of_mem _ hitem)
  clear h
  obtain ⟨tokens, tree⟩ := first
  induction items generalizing tokens tree with
  | nil => simpa using hfirst
  | cons item items ih =>
    have hitem := hitems item List.mem_cons_self
    have hjoined : leaves (build tree item.2) ≤ (tokens ++ item.1).length := by
      rw [hbuild, List.length_append]
      exact Nat.add_le_add hfirst hitem
    have hrest := ih (fun other hother => hitems other (List.mem_cons_of_mem _ hother)) _ _ hjoined
    simp only [Machine.leftTree_cons, Machine.tailTokens_cons, List.length_append,
      List.length_cons] at hrest ⊢
    omega

/-- A filter has no more comparisons than tokens. -/
theorem leaves_le_of_derives {depth : ℕ} {phrase : Filter.Phrase} {tokens : List Filter.Token}
    {expr : Expr} (h : Filter.Derives depth phrase tokens expr) : leaves expr ≤ tokens.length := by
  induction h with
  | or _ ih => exact leaves_leftTree (fun _ _ => rfl) ih
  | and _ ih => exact leaves_leftTree (fun _ _ => rfl) ih
  | parens _ ih =>
    simp only [List.length_cons, List.length_append]
    omega
  | compare => simp [leaves]

end Leaves

/-! ### Restrictions of file rules -/

/-- The restrictions that file rules compile to, under some identity. -/
def FromRule (restriction : CompiledFilter) : Prop :=
  ∃ value expr auth, FileRule.parse value = .ok (.filter expr) ∧
    compile expr ruleContext auth = .ok restriction

/-- A query whose restriction, if any, is one of a file rule. -/
def RuleRestricted (query : ListQuery) : Prop :=
  ∀ restriction, query.restriction = some restriction → FromRule restriction

section Rule

variable {restriction : CompiledFilter}

theorem leaves_le_of_parse {text : String} {expr : Expr} (h : Filter.parse text = .ok expr) :
    leaves expr ≤ Filter.maxTokens := by
  obtain ⟨found, hfound, h⟩ := bind_eq_ok.mp h
  cases found with
  | none => cases h
  | some read =>
    obtain rfl := Except.ok.inj h
    obtain ⟨-, tokens, -, hlength, hread⟩ := Filter.parseOptional_eq_ok_some_iff.mp hfound
    exact (leaves_le_of_derives (Filter.derives_of_parseTokens.mp hread)).trans hlength

/-- A restriction is plain and short, and its placeholders are its parameters in turn. -/
theorem FromRule.spec (h : FromRule restriction) : PlainPred restriction.pred ∧
    restriction.params.length ≤ 1024 ∧
    params restriction.pred.tokens = List.range' 1 restriction.params.length := by
  obtain ⟨value, expr, auth, hparse, hcompile⟩ := h
  have hleaves : leaves expr ≤ Filter.maxTokens := by
    unfold FileRule.parse at hparse
    split at hparse
    · cases hparse
    · cases hparse
    · split_ifs at hparse
      · cases hparse
      · obtain ⟨read, hread, hparse⟩ := bind_eq_ok.mp hparse
        cases hparse
        exact leaves_le_of_parse hread
    · cases hparse
  refine ⟨?_, ?_, numbered_compileWithRoot hcompile⟩
  · obtain ⟨r, hr, hcompile⟩ := bind_eq_ok.mp hcompile
    obtain rfl := Except.ok.inj hcompile
    exact (compiles_expr hr).1
  · obtain ⟨r, hr, hcompile⟩ := bind_eq_ok.mp hcompile
    obtain rfl := Except.ok.inj hcompile
    have hlength := (compiles_expr hr).2
    simp only [Filter.maxTokens, List.length_nil, Nat.zero_add] at hleaves hlength
    exact hlength.trans (by omega)

theorem FromRule.params_bounded (h : FromRule restriction) :
    ∀ n ∈ params restriction.pred.tokens, 1 ≤ n ∧ n ≤ restriction.params.length := by
  rw [h.spec.2.2]
  intro n hn
  rw [List.mem_range'_1] at hn
  omega

/-- **Only placeholders of a restriction are renumbered.** -/
theorem shiftPlaceholders_sql (h : FromRule restriction) {offset : ℕ} (hoffset : offset ≤ 8) :
    shiftPlaceholders restriction.sql offset = (restriction.pred.shift offset).text := by
  unfold shiftPlaceholders
  split_ifs with hzero
  · rw [hzero, Pred.shift_zero, CompiledFilter.sql]
  · have hbound : ∀ n ∈ params restriction.pred.tokens, n + offset < 2 ^ 64 := by
      intro n hn
      have := (h.params_bounded n hn).2
      have := h.spec.2.1
      omega
    have hmoves := (Moves.pred h.spec.1 hbound).run [] fun c hc => by simp at hc
    rw [List.append_nil, shiftChars, List.append_nil] at hmoves
    rw [CompiledFilter.sql, hmoves, String.ofList_toList]

end Rule

/-! ### Reading the statements -/

/-- The tokens of a text. -/
def words (text : String) : List Sql.Token := (lex text.toList).getD []

/-- A statement says this of these values. -/
def ReadsAs (statement : Statement) (bound : List Bound) : Prop :=
  ∃ tokens, lex statement.sql.toList = some tokens ∧
    tokens.map (Token.bound statement.params) = bound

/-- A filter: its column is compared with its value. -/
def clauseBound (clause value : String) : List Bound :=
  (words clause).map .token ++ [.value (some value), .token (.sym "::"), .token (.word "text")]

/-- The conditions of a listing: each filter that is present with its own value, and the restriction
with its own parameters. -/
def conditionBounds (query : ListQuery) : List (List Bound) :=
  query.clauses.filterMap (fun c => c.2.map (clauseBound c.1)) ++
    (query.restriction.map fun restriction => .token (.sym "(") ::
      ((words restriction.sql).map (Token.bound restriction.params) ++ [.token (.sym ")")])).toList

def whereBound (query : ListQuery) : List Bound :=
  if conditionBounds query = [] then []
  else .token (.word "where") :: conjoin (.token (.word "and")) (conditionBounds query)

/-- A number that is sent as text. -/
def bigintBound (value : Int) : List Bound :=
  [.value (some (toString value)), .token (.sym "::"), .token (.word "text"), .token (.sym "::"),
    .token (.word "bigint")]

def countBound (query : ListQuery) : List Bound :=
  (words "select count(*) from _files").map .token ++ whereBound query

/-- The page: its size and the rows in front of it. -/
def pageBound (query : ListQuery) : List Bound :=
  (words ("select " ++ columns ++ " from _files")).map .token ++ whereBound query ++
    (words "order by created_at desc, id desc limit").map .token ++
    bigintBound (clampPerPage query.perPage) ++ .token (.word "offset") ::
    bigintBound ((max query.page 1 - 1) * clampPerPage query.perPage)

/-- **The statements of a listing are right**: every placeholder has the value of its own clause, the
restriction is renumbered and nothing else of it changes, and the offset is exact. -/
structure BindsRight (query : ListQuery) : Prop where
  count : ReadsAs (countStatement query) (countBound query)
  page : ReadsAs (pageStatement query) (pageBound query)
  shift : ∀ restriction, query.restriction = some restriction →
    shiftPlaceholders restriction.sql (filters query).2.length =
      (restriction.pred.shift (filters query).2.length).text
  offset : query.offset = (max query.page 1 - 1) * clampPerPage query.perPage

/-! ### The conditions -/

section Conditions

variable {query : ListQuery}

/-- The text and the tokens of the filter that names the parameter `k`. -/
def clauseOf (clause : String) (k : ℕ) : String × List Sql.Token :=
  (clause ++ " $" ++ toString k ++ "::text", words clause ++ (Scalar.cast (.param k) .text).tokens)

/-- The filters that are present, behind `k` parameters. -/
@[grind =]
def clausesFrom : ℕ → List (String × Option String) → List (String × List Sql.Token)
  | _, [] => []
  | k, (clause, value) :: rest =>
    if value.isSome then clauseOf clause (k + 1) :: clausesFrom (k + 1) rest else clausesFrom k rest

theorem foldl_addFilter (l : List (String × Option String)) (built : List String × List String) :
    l.foldl addFilter built =
      (built.1 ++ (clausesFrom built.2.length l).map Prod.fst, built.2 ++ l.filterMap Prod.snd) := by
  induction l generalizing built with
  | nil => simp [clausesFrom]
  | cons filter l ih =>
    obtain ⟨clause, _ | value⟩ := filter
    · simp [addFilter, ih, clausesFrom]
    · simp [addFilter, ih, clausesFrom, clauseOf, Nat.toString_eq_repr]

/-- The columns of the filters and their comparisons. -/
theorem words_clause {clause : String} {value : Option String} (h : (clause, value) ∈ query.clauses) :
    run .start (clause ++ " ").toList = (words clause, .start) ∧ params (words clause) = [] := by
  have hall : ∀ clause ∈ ["collection_name =", "record_id =", "field_name =", "mime_type like",
      "filename ilike", "origin =", "status =", "uploaded_by ="],
      run .start (clause ++ " ").toList = (words clause, .start) ∧ params (words clause) = [] := by
    decide +kernel
  refine hall clause ?_
  have hclause := List.mem_map_of_mem (f := Prod.fst) h
  exact hclause

theorem lexes_clauseOf {clause : String} {k : ℕ}
    (h : run .start (clause ++ " ").toList = (words clause, .start)) :
    Lexes (clauseOf clause k).1.toList (clauseOf clause k).2 := by
  have hlexes := Lexes.after h (Scalar.cast (.param k) .text).lexes
  simpa [clauseOf, PgType.sql] using hlexes

/-- Each filter that is present compares its column with its own value. -/
theorem clausesFrom_spec {l : List (String × Option String)} (hl : ∀ c ∈ l, c ∈ query.clauses)
    (front back : List String) :
    (∀ c ∈ clausesFrom front.length l, Lexes c.1.toList c.2) ∧
      (clausesFrom front.length l).map
          (fun c => c.2.map (Token.bound (front ++ l.filterMap Prod.snd ++ back))) =
        l.filterMap fun c => c.2.map (clauseBound c.1) := by
  induction l generalizing front with
  | nil => simp [clausesFrom]
  | cons filter l ih =>
    have hrest (c) (hc : c ∈ l) := hl c (List.mem_cons_of_mem _ hc)
    obtain ⟨clause, value⟩ := filter
    cases value with
    | none => simpa [clausesFrom] using ih hrest front
    | some value =>
      obtain ⟨hwords, hparams⟩ := words_clause (hl _ List.mem_cons_self)
      obtain ⟨hlexes, hbound⟩ := ih hrest (front ++ [value])
      rw [List.length_append, List.length_singleton] at hlexes hbound
      have hvalues : front ++ (((clause, some value) :: l).filterMap Prod.snd) ++ back =
          front ++ [value] ++ l.filterMap Prod.snd ++ back := by simp
      simp only [clausesFrom, Option.isSome_some, if_true]
      refine ⟨fun c hc => ?_, ?_⟩
      · rcases List.mem_cons.mp hc with rfl | hc
        · exact lexes_clauseOf hwords
        · exact hlexes c hc
      · rw [hvalues, List.map_cons, hbound]
        have hown : (clauseOf clause (front.length + 1)).2.map
            (Token.bound (front ++ [value] ++ l.filterMap Prod.snd ++ back)) =
              clauseBound clause value := by
          have hvalue : (front ++ [value] ++ l.filterMap Prod.snd ++ back)[front.length]? =
              some value := by
            simp
          have hcast : (Scalar.cast (.param (front.length + 1)) .text).tokens =
              [.param (front.length + 1), .sym "::", .word "text"] := rfl
          rw [clauseOf, List.map_append, map_bound_of_params hparams, hcast]
          simp only [List.map_cons, List.map_nil, bound_param_succ, bound_sym, bound_word, hvalue]
          rfl
        rw [hown]
        rfl

theorem filters_eq (query : ListQuery) : filters query =
    ((clausesFrom 0 query.clauses).map Prod.fst, query.clauses.filterMap Prod.snd) := by
  rw [filters, foldl_addFilter]
  rfl

theorem length_filters_le (query : ListQuery) : (filters query).2.length ≤ 8 := by
  rw [filters_eq]
  exact List.length_filterMap_le _ _

/-- The restriction's text and tokens behind `k` parameters. -/
def restrictionOf (restriction : CompiledFilter) (k : ℕ) : String × List Sql.Token :=
  ("(" ++ shiftPlaceholders restriction.sql k ++ ")",
    .sym "(" :: ((restriction.pred.shift k).tokens ++ [.sym ")"]))

theorem lexes_restrictionOf {restriction : CompiledFilter} (h : FromRule restriction) {k : ℕ}
    (hk : k ≤ 8) : Lexes (restrictionOf restriction k).1.toList (restrictionOf restriction k).2 := by
  have hopen : run .start "(".toList = ([.sym "("], .start) := run_frame (by simp [fixedTexts])
  have hend : Lexes ")".toList [.sym ")"] := lexes_tail (by simp [endings])
  have hclosed := (restriction.pred.shift k).lexes.append (by simp [Delim]) (by simp) hend
  have hlexes := Lexes.after hopen hclosed
  rw [restrictionOf, shiftPlaceholders_sql h hk]
  simpa using hlexes

theorem words_sql (restriction : CompiledFilter) : words restriction.sql = restriction.pred.tokens := by
  rw [words, CompiledFilter.sql, restriction.pred.lexes.lex_eq, Option.getD_some]

/-- The conditions of a listing, as texts and tokens. -/
def conditionsOf (query : ListQuery) : List (String × List Sql.Token) :=
  clausesFrom 0 query.clauses ++
    (query.restriction.map fun restriction => restrictionOf restriction (filters query).2.length).toList

theorem conditions_eq (query : ListQuery) : conditions query =
    ((conditionsOf query).map Prod.fst,
      query.clauses.filterMap Prod.snd ++ (query.restriction.map CompiledFilter.params).getD []) := by
  rw [conditions, conditionsOf, filters_eq]
  cases query.restriction with
  | none => simp
  | some restriction => simp [restrictionOf]

/-- **Every condition reads as itself with its own values.** -/
theorem conditionsOf_spec (h : RuleRestricted query) (back : List String) :
    (∀ c ∈ conditionsOf query, Lexes c.1.toList c.2) ∧
      (conditionsOf query).map (fun c => c.2.map (Token.bound ((conditions query).2 ++ back))) =
        conditionBounds query := by
  have hfront := filters_eq query
  have hclauses : ∀ c ∈ query.clauses, c ∈ query.clauses := fun c hc => hc
  obtain ⟨hlexes, hbound⟩ := clausesFrom_spec hclauses []
    ((query.restriction.map CompiledFilter.params).getD [] ++ back)
  rw [List.nil_append, ← List.append_assoc] at hbound
  rw [conditions_eq]
  refine ⟨fun c hc => ?_, ?_⟩
  · rcases List.mem_append.mp hc with hc | hc
    · exact hlexes c hc
    · cases hrestriction : query.restriction with
      | none => simp [hrestriction] at hc
      | some restriction =>
        rw [hrestriction, Option.map_some, Option.toList_some, List.mem_singleton] at hc
        rw [hc]
        exact lexes_restrictionOf (h restriction hrestriction) (length_filters_le query)
  · rw [conditionsOf, List.map_append, conditionBounds]
    refine congrArg₂ (· ++ ·) hbound ?_
    cases hrestriction : query.restriction with
    | none => rfl
    | some restriction =>
      have hvalues : (filters query).2 = query.clauses.filterMap Prod.snd := congrArg Prod.snd hfront
      have hshift := map_bound_shift (filters query).2 back
        (h restriction hrestriction).params_bounded
      simp only [Option.map_some, Option.toList_some, Option.getD_some, List.map_cons, List.map_nil,
        restrictionOf, List.map_append, Pred.tokens_shift, words_sql, bound_sym]
      rw [← hvalues, hshift]

theorem lexes_where (h : RuleRestricted query) (hne : conditionsOf query ≠ []) :
    Lexes (join " and " (conditions query).1).toList
      (conjoin (.word "and") ((conditionsOf query).map Prod.snd)) := by
  rw [conditions_eq]
  exact lexes_conjoin hne (conditionsOf_spec h []).1

theorem conditionsOf_eq_nil (h : RuleRestricted query) :
    conditionsOf query = [] ↔ conditionBounds query = [] := by
  rw [← (conditionsOf_spec h []).2, List.map_eq_nil_iff]

end Conditions

/-! ### The statements -/

section Statements

variable {query : ListQuery}

/-- The offset fits as long as the rows in front of the page are counted by an `i64`. -/
theorem offset_eq_iff : query.offset = (max query.page 1 - 1) * clampPerPage query.perPage ↔
    (max query.page 1 - 1) * clampPerPage query.perPage < 2 ^ 63 := by
  have hsize := (clampPerPage_spec query.perPage).1
  have hnonneg : 0 ≤ (max query.page 1 - 1) * clampPerPage query.perPage :=
    Int.mul_nonneg (by omega) (by omega)
  rw [ListQuery.offset, toI64]
  generalize (max query.page 1 - 1) * clampPerPage query.perPage = n at hnonneg ⊢
  rw [Int.bmod_def]
  constructor
  · intro heq
    split_ifs at heq <;> omega
  · intro hlt
    split_ifs <;> omega

/-- A name that needs no quotes reads as one word. -/
theorem reads_ident {name : String} (h : isIdent name = true) : Reads name [] :=
  ⟨_, Ident.lexes ⟨name, h⟩, rfl⟩

theorem reads_timestampColumn {name : String} (h : isIdent name = true) :
    Reads (timestampColumn name) [] := by
  have hopen := (reads_ident h).opening (m := "to_char(") (by decide)
  exact hopen.separated (by decide) (reads_ident h)

/-- The columns hold no placeholder. -/
theorem reads_columns : Reads columns [] := by
  have hnames : (["id", "filename", "extension", "mime_type", "size", "storage_path", "storage_backend",
      "collection_name", "record_id", "field_name", "variants", "status", "origin", "original_name",
      "width", "height", "checksum", "uploaded_by"].all isIdent &&
      ["attached_at", "created_at", "updated_at"].all isIdent) = true := by decide
  rw [Bool.and_eq_true, List.all_eq_true, List.all_eq_true] at hnames
  refine reads_join (by simp) fun s hs => ?_
  rcases List.mem_append.mp hs with hs | hs
  · exact reads_ident (hnames.1 s hs)
  · obtain ⟨name, hname, rfl⟩ := List.mem_map.mp hs
    exact reads_timestampColumn (hnames.2 name hname)

theorem words_eq {text : String} {ts : List Sql.Token} (h : Lexes text.toList ts) :
    words text = ts := by
  rw [words, h.lex_eq, Option.getD_some]

/-- The texts in front of the conditions hold no placeholder. -/
theorem lexes_selects :
    (Lexes "select count(*) from _files".toList (words "select count(*) from _files") ∧
      params (words "select count(*) from _files") = []) ∧
    Lexes ("select " ++ columns ++ " from _files").toList
        (words ("select " ++ columns ++ " from _files")) ∧
      params (words ("select " ++ columns ++ " from _files")) = [] := by
  refine ⟨by decide, ?_⟩
  have hopen := reads_columns.opening (m := "select ") (by decide)
  have hfiles : Reads "_files" [] := reads_ident (by decide)
  obtain ⟨ts, hlexes, hparams⟩ := hopen.separated (m := " from ") (by decide) hfiles
  have hsplit : " from _files" = " from " ++ "_files" := by decide +kernel
  rw [hsplit, ← String.append_assoc, words_eq hlexes]
  exact ⟨hlexes, hparams⟩

/-- The fixed texts behind the conditions. -/
theorem run_tails :
    (run .start " order by created_at desc, id desc limit ".toList =
        (words "order by created_at desc, id desc limit", .start) ∧
      params (words "order by created_at desc, id desc limit") = []) ∧
    run .start " offset ".toList = ([.word "offset"], .start) ∧
      run .start " where ".toList = ([.word "where"], .start) := by
  decide +kernel

theorem countStatement_sql (query : ListQuery) : (countStatement query).sql =
    "select count(*) from _files " ++ whereClause (conditions query).1 := rfl

theorem pageStatement_sql (query : ListQuery) : (pageStatement query).sql =
    "select " ++ columns ++ " from _files " ++ whereClause (conditions query).1 ++
      " order by created_at desc, id desc limit $" ++ toString ((conditions query).2.length + 1) ++
      "::text::bigint offset $" ++ toString ((conditions query).2.length + 2) ++ "::text::bigint" := by
  rw [pageStatement, List.length_append]
  rfl

/-- The places where the statements are cut. -/
theorem cut_texts : "select count(*) from _files " = "select count(*) from _files" ++ " " ∧
    " from _files " = " from _files" ++ " " ∧ " where " = " " ++ "where " ∧
    " order by created_at desc, id desc limit $" = " order by created_at desc, id desc limit " ++ "$" ∧
    "::text::bigint offset $" = "::" ++ ("text" ++ ("::" ++ ("bigint" ++ (" offset " ++ "$")))) ∧
    "::text::bigint" = "::" ++ ("text" ++ ("::" ++ "bigint")) ∧ " ".toList = [' '] := by
  decide

theorem whereClause_of_nil (hne : conditionsOf query = []) : whereClause (conditions query).1 = "" := by
  rw [conditions_eq, hne, List.map_nil, whereClause, if_pos rfl]

theorem whereClause_of_ne_nil (hne : conditionsOf query ≠ []) :
    whereClause (conditions query).1 = "where " ++ join " and " (conditions query).1 := by
  rw [whereClause, if_neg]
  rw [conditions_eq]
  simpa using hne

/-- The condition with its values. -/
theorem bound_where (h : RuleRestricted query) (back : List String) :
    (conjoin (.word "and") ((conditionsOf query).map Prod.snd)).map
        (Token.bound ((conditions query).2 ++ back)) =
      conjoin (.token (.word "and")) (conditionBounds query) := by
  rw [map_conjoin, ← (conditionsOf_spec h back).2, List.map_map]
  rfl

theorem whereBound_of_ne_nil (h : RuleRestricted query) (hne : conditionsOf query ≠ []) :
    whereBound query =
      .token (.word "where") :: conjoin (.token (.word "and")) (conditionBounds query) :=
  if_neg fun hnil => hne ((conditionsOf_eq_nil h).mpr hnil)

theorem reads_count (h : RuleRestricted query) :
    ReadsAs (countStatement query) (countBound query) := by
  obtain ⟨⟨hselect, hparams⟩, -⟩ := lexes_selects
  obtain ⟨-, -, hwhere⟩ := run_tails
  obtain ⟨hcount, -, hspace, -⟩ := cut_texts
  by_cases hne : conditionsOf query = []
  · refine ⟨words "select count(*) from _files", ?_, ?_⟩
    · have htext : (countStatement query).sql.toList =
          "select count(*) from _files".toList ++ [' '] := by
        rw [countStatement_sql, whereClause_of_nil hne, String.append_empty, cut_texts.1,
          String.toList_append]
        rfl
      rw [htext]
      exact hselect.spaced.lex_eq
    · rw [map_bound_of_params hparams, countBound, whereBound, if_pos ((conditionsOf_eq_nil h).mp hne),
        List.append_nil]
  · have hlexes := hselect.between (by decide) (by decide) hwhere (lexes_where h hne)
    refine ⟨words "select count(*) from _files" ++ ([.word "where"] ++
      conjoin (.word "and") ((conditionsOf query).map Prod.snd)), ?_, ?_⟩
    · have htext : (countStatement query).sql.toList = "select count(*) from _files".toList ++
          (" where ".toList ++ (join " and " (conditions query).1).toList) := by
        rw [countStatement_sql, whereClause_of_ne_nil hne, hcount, hspace]
        simp only [String.toList_append, List.append_assoc]
      rw [htext]
      exact hlexes.lex_eq
    · have hbound := bound_where h []
      rw [List.append_nil] at hbound
      rw [countBound, whereBound_of_ne_nil h hne, List.map_append, map_bound_of_params hparams,
        List.map_append]
      exact congrArg₂ (· ++ ·) rfl (congrArg₂ (· ++ ·) rfl hbound)

theorem bigintParam_text (n : ℕ) :
    (bigintParam n).text = "$" ++ toString n ++ "::" ++ "text" ++ "::" ++ "bigint" := rfl

/-- The page's size and offset, behind `n` parameters. -/
theorem lexes_pageText (n : ℕ) : Lexes
    ((bigintParam (n + 1)).text.toList ++ (" offset ".toList ++ (bigintParam (n + 2)).text.toList))
    ((bigintParam (n + 1)).tokens ++ ([.word "offset"] ++ (bigintParam (n + 2)).tokens)) := by
  obtain ⟨-, hoffset, -⟩ := run_tails
  exact (bigintParam (n + 1)).lexes.between (by decide) (by decide) hoffset (bigintParam (n + 2)).lexes

theorem bound_pageText (values : List String) (size offset : Int) :
    ((bigintParam (values.length + 1)).tokens ++ ([Sql.Token.word "offset"] ++
        (bigintParam (values.length + 2)).tokens)).map
      (Token.bound (values ++ [toString size, toString offset])) =
        bigintBound size ++ .token (.word "offset") :: bigintBound offset := by
  have htokens (n : ℕ) : (bigintParam (n + 1)).tokens =
      [.param (n + 1), .sym "::", .word "text", .sym "::", .word "bigint"] := rfl
  have hfirst : (values ++ [toString size, toString offset])[values.length]? =
      some (toString size) := by simp
  have hsecond : (values ++ [toString size, toString offset])[values.length + 1]? =
      some (toString offset) := by simp
  rw [htokens, show values.length + 2 = (values.length + 1) + 1 from rfl, htokens]
  simp only [List.map_append, List.map_cons, List.map_nil, bound_param_succ, bound_sym, bound_word,
    hfirst, hsecond]
  rfl

theorem reads_page (h : RuleRestricted query)
    (hoffset : query.offset = (max query.page 1 - 1) * clampPerPage query.perPage) :
    ReadsAs (pageStatement query) (pageBound query) := by
  obtain ⟨-, hselect, hparams⟩ := lexes_selects
  obtain ⟨⟨horder, htail⟩, -, hwhere⟩ := run_tails
  obtain ⟨-, hfrom, hspace, horderBy, hbetween, hlast, hblank⟩ := cut_texts
  have hpage := lexes_pageText (conditions query).2.length
  have hbound := bound_pageText (conditions query).2 (clampPerPage query.perPage) query.offset
  have hvalues : (pageStatement query).params =
      (conditions query).2 ++ [toString (clampPerPage query.perPage), toString query.offset] := rfl
  rw [← hvalues, hoffset] at hbound
  by_cases hne : conditionsOf query = []
  · have hlexes := hselect.spaced.between (by decide) (by decide) horder hpage
    refine ⟨words ("select " ++ columns ++ " from _files") ++
      (words "order by created_at desc, id desc limit" ++
        ((bigintParam ((conditions query).2.length + 1)).tokens ++ ([.word "offset"] ++
          (bigintParam ((conditions query).2.length + 2)).tokens))), ?_, ?_⟩
    · have htext : (pageStatement query).sql.toList =
          ("select " ++ columns ++ " from _files").toList ++ [' '] ++
            (" order by created_at desc, id desc limit ".toList ++
              ((bigintParam ((conditions query).2.length + 1)).text.toList ++ (" offset ".toList ++
                (bigintParam ((conditions query).2.length + 2)).text.toList))) := by
        rw [pageStatement_sql, whereClause_of_nil hne, hfrom, horderBy, hbetween, hlast,
          bigintParam_text, bigintParam_text, ← hblank]
        simp only [String.toList_append, String.append_empty, List.append_assoc]
      rw [htext]
      exact hlexes.lex_eq
    · rw [pageBound, whereBound, if_pos ((conditionsOf_eq_nil h).mp hne), List.map_append,
        List.map_append, map_bound_of_params hparams, map_bound_of_params htail, hbound]
      simp only [List.append_assoc, List.append_nil]
  · have hconditions := hselect.between (by decide) (by decide) hwhere (lexes_where h hne)
    have hlexes := hconditions.between (by decide) (by decide) horder hpage
    refine ⟨words ("select " ++ columns ++ " from _files") ++ ([.word "where"] ++
      conjoin (.word "and") ((conditionsOf query).map Prod.snd)) ++
      (words "order by created_at desc, id desc limit" ++
        ((bigintParam ((conditions query).2.length + 1)).tokens ++ ([.word "offset"] ++
          (bigintParam ((conditions query).2.length + 2)).tokens))), ?_, ?_⟩
    · have htext : (pageStatement query).sql.toList =
          ("select " ++ columns ++ " from _files").toList ++ (" where ".toList ++
            (join " and " (conditions query).1).toList) ++
            (" order by created_at desc, id desc limit ".toList ++
              ((bigintParam ((conditions query).2.length + 1)).text.toList ++ (" offset ".toList ++
                (bigintParam ((conditions query).2.length + 2)).text.toList))) := by
        rw [pageStatement_sql, whereClause_of_ne_nil hne, hfrom, horderBy, hbetween, hlast, hspace,
          bigintParam_text, bigintParam_text]
        simp only [String.toList_append, List.append_assoc]
      rw [htext]
      exact hlexes.lex_eq
    · have hbound' := bound_where h
        [toString (clampPerPage query.perPage), toString query.offset]
      rw [← hvalues] at hbound'
      rw [pageBound, whereBound_of_ne_nil h hne, List.map_append, List.map_append, List.map_append,
        List.map_append, map_bound_of_params hparams, map_bound_of_params htail, hbound, hbound']
      simp only [List.append_assoc, List.map_cons, List.map_nil, bound_word, List.cons_append,
        List.nil_append]

/-- **The statements of a listing are right as long as the offset does not overflow**: whichever
filters are present and whatever a file rule compiles to, every placeholder has its own value. -/
theorem bindsRight_iff (h : RuleRestricted query) :
    BindsRight query ↔ (max query.page 1 - 1) * clampPerPage query.perPage < 2 ^ 63 := by
  rw [← offset_eq_iff]
  constructor
  · exact fun hright => hright.offset
  · intro hoffset
    exact ⟨reads_count h, reads_page h hoffset, fun restriction hrestriction =>
      shiftPlaceholders_sql (h restriction hrestriction) (length_filters_le query), hoffset⟩

end Statements

/-- What the rule `status = 'ready'` compiles to. -/
def readyOnly : CompiledFilter :=
  ⟨.compare (.column (some (.quoted "_files")) "status") .eq (.cast (.param 1) .text), ["ready"]⟩

/-- Images whose name holds `cat`, of those that a rule leaves. -/
def catImages : ListQuery where
  page := 3
  perPage := 50
  collection := none
  record := none
  field := none
  mime := some "image/"
  search := some "cat"
  origin := none
  status := none
  uploadedBy := none
  restriction := some readyOnly

theorem fromRule_readyOnly : FromRule readyOnly :=
  ⟨some (.string "status = 'ready'"), .compare (.path ["status"]) .eq (.value (.text "ready")),
    ⟨none, none, none, none, []⟩, by decide +kernel, rfl⟩

example : (countStatement catImages).sql = "select count(*) from _files where mime_type like " ++
    "$1::text and filename ilike $2::text and (\"_files\".\"status\" = $3::text)" := by decide +kernel

theorem catImages_bindsRight : BindsRight catImages :=
  (bindsRight_iff fun restriction h => by
    obtain rfl := Option.some.inj h
    exact fromRule_readyOnly).mpr (by decide)

/-- A page that a caller may ask for. -/
def farPage : ListRequest := ⟨none, none, none, none, none, 2 ^ 62, 200⟩

/-- The offset of a far page wraps around to a negative one. -/
theorem farPage_not_bindsRight : farPage.query.offset = -200 ∧ ¬ BindsRight farPage.query :=
  ⟨by decide, fun h => absurd h.offset (by decide)⟩

end LazyPock.Files
