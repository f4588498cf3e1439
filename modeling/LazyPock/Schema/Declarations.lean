import LazyPock.Schema.IndexNames

/-!
# Index statements and their predicates

A declaration is cut into tokens up to its `where`, and what stands behind it is handed to the
filter parser (`crates/db/src/indexes.rs`). An export may write identifiers in backticks, which the filter
language does not have, so all backticks are left out of the predicate before it is parsed. That leaves
them out of its string literals too.

Where no literal has a backtick, the predicate is the one of the filter without the backticks around
its identifiers. The statement that is built for a declaration is SQL: up to its `where` it reads back as
the declaration, but its predicate is no filter.

## Main definitions

* `Indexes.unquoteIdentifiers`: a filter without the backticks outside of its literals.
* `Indexes.PlainLiterals`: no literal of a filter has a backtick.
* `Indexes.predicateText`: what stands behind the `where` of a statement.
* `Indexes.IndexSpec.createStatementText`.

## Main results

* `Indexes.parseOne_createStatementText`: a statement without a predicate reads back.
* `index_statement`.
-/

namespace LazyPock.Indexes

open Text Ddl List

/-! ### Backticks of a filter -/

/-- Where a position of a filter stands: outside of its literals, in one, or behind a backslash in
one. -/
inductive Quoting where
  | outside
  | literal (quote : Char)
  | escaped (quote : Char)
deriving DecidableEq

/-- What a character leads to. -/
def Quoting.next : Quoting → Char → Quoting
  | .outside, c => if c = '"' ∨ c = '\'' then .literal c else .outside
  | .literal quote, c =>
    if c = quote then .outside else if c = '\\' then .escaped quote else .literal quote
  | .escaped quote, _ => .literal quote

/-- Leave out the backticks outside of the literals. -/
@[grind =]
def unquoteFrom : Quoting → List Char → List Char
  | _, [] => []
  | .outside, c :: cs =>
    if c = '`' then unquoteFrom .outside cs else c :: unquoteFrom (Quoting.next .outside c) cs
  | .literal quote, c :: cs => c :: unquoteFrom (Quoting.next (.literal quote) c) cs
  | .escaped quote, c :: cs => c :: unquoteFrom (.literal quote) cs

/-- **A filter without the backticks around its identifiers.** -/
def unquoteIdentifiers (filter : String) : String :=
  String.ofList (unquoteFrom .outside filter.toList)

/-- No literal has a backtick, from a position on. -/
def plainFrom : Quoting → List Char → Prop
  | _, [] => True
  | .outside, c :: cs => plainFrom (Quoting.next .outside c) cs
  | .literal quote, c :: cs => c ≠ '`' ∧ plainFrom (Quoting.next (.literal quote) c) cs
  | .escaped quote, c :: cs => c ≠ '`' ∧ plainFrom (.literal quote) cs

instance decidablePlainFrom : (state : Quoting) → (cs : List Char) → Decidable (plainFrom state cs)
  | .outside, [] | .literal _, [] | .escaped _, [] => inferInstanceAs (Decidable True)
  | .outside, c :: cs => decidablePlainFrom (Quoting.next .outside c) cs
  | .literal quote, c :: cs =>
    have := decidablePlainFrom (Quoting.next (.literal quote) c) cs
    inferInstanceAs (Decidable (c ≠ '`' ∧ _))
  | .escaped quote, c :: cs =>
    have := decidablePlainFrom (.literal quote) cs
    inferInstanceAs (Decidable (c ≠ '`' ∧ _))

/-- **No literal of a filter has a backtick.** -/
def PlainLiterals (filter : String) : Prop := plainFrom .outside filter.toList

instance decidablePlainLiterals (filter : String) : Decidable (PlainLiterals filter) :=
  decidablePlainFrom .outside filter.toList

/-- Then the backticks outside of the literals are all there are. -/
theorem unquoteFrom_of_plainFrom {state : Quoting} {cs : List Char} (h : plainFrom state cs) :
    unquoteFrom state cs = cs.filter fun c => c ≠ '`' := by
  induction cs generalizing state with
  | nil => cases state <;> rfl
  | cons c cs ih =>
    cases state with
    | outside =>
      rw [unquoteFrom]
      split_ifs with hc
      · subst hc
        have hnext : Quoting.next .outside '`' = .outside := by decide
        rw [plainFrom, hnext] at h
        simpa using ih h
      · rw [ih h, List.filter_cons_of_pos (by simpa using hc)]
    | literal quote =>
      obtain ⟨hc, h⟩ := h
      rw [unquoteFrom, ih h, List.filter_cons_of_pos (by simpa using hc)]
    | escaped quote =>
      obtain ⟨hc, h⟩ := h
      rw [unquoteFrom, ih h, List.filter_cons_of_pos (by simpa using hc)]

/-! ### Statements up to their predicate -/

section Parse

variable (table : String) (context : FilterContext)

/-- A statement from its `INDEX` to the end of its column list. -/
def statementBody (raw : String) (unique : Bool) (tokens : List Token) :
    Result (IndexSpec × List Token) := do
  let tokens ← expectKeyword raw "INDEX" tokens
  let (guarded, tokens) := optionalKeyword "IF" tokens
  let tokens ← if guarded then do
      let tokens ← expectKeyword raw "NOT" tokens
      expectKeyword raw "EXISTS" tokens
    else .ok tokens
  let (name, tokens) ← statementName table tokens
  let tokens ← expectKeyword raw "ON" tokens
  let tokens ← statementTarget table name tokens
  let (columns, tokens) ← statementColumns table context name .column tokens
  .ok (⟨name, unique, columns, none⟩, tokens)

/-- A statement up to the end of its column list, and the tokens behind it. -/
def statementHead (raw : String) (tokens : List Token) : Result (IndexSpec × List Token) := do
  let tokens ← expectKeyword raw "CREATE" tokens
  let (unique, tokens) := optionalKeyword "UNIQUE" tokens
  statementBody table context raw unique tokens

/-- **The predicate of a statement**: what stands behind the `where` that follows its columns. -/
def predicateText (raw : String) : Option String := do
  let tokens ← (tokenize raw).toOption
  let (_, rest) ← (statementHead table context raw tokens).toOption
  let token ← rest.head?
  if token.upper = "WHERE" then some (String.ofList token.rest) else none

variable {table context}

theorem parseStatement_eq (raw : String) (tokens : List Token) :
    parseStatement table context raw tokens = (do
      let (spec, rest) ← statementHead table context raw tokens
      let predicate ← statementPredicate context spec.name rest
      .ok { spec with predicate }) := by
  simp only [parseStatement, statementHead, statementBody, bind_assoc]
  refine bind_congr fun tokens => bind_congr fun tokens => ?_
  split
  all_goals simp only [bind_assoc]; rfl

theorem toOption_eq_some {α : Type} {x : Result α} {a : α} : x.toOption = some a ↔ x = .ok a := by
  cases x <;> simp [Except.toOption]

theorem expectKeyword_eq_ok {raw keyword : String} {tokens rest : List Token} :
    expectKeyword raw keyword tokens = .ok rest ↔
      ∃ token, tokens = token :: rest ∧ token.upper = keyword := by
  cases tokens with
  | nil => simp [expectKeyword]
  | cons token tokens =>
    rw [expectKeyword]
    split_ifs with hupper
    · simp only [List.cons.injEq, false_iff]
      rintro ⟨_, ⟨rfl, -⟩, h⟩
      exact hupper h
    · rw [Except.ok.injEq]
      constructor
      · rintro rfl
        exact ⟨token, rfl, not_not.mp hupper⟩
      · rintro ⟨_, heq, -⟩
        exact (List.cons.inj heq).2

/-- A declaration with the head of a statement is read as one. -/
theorem parseOne_of_statementHead {raw : String} {tokens : List Token} {head : IndexSpec × List Token}
    (htokens : tokenize raw = .ok tokens)
    (hhead : statementHead table context raw tokens = .ok head) :
    parseOne table context raw = parseStatement table context raw tokens := by
  obtain ⟨afterCreate, hcreate, h⟩ := bind_eq_ok.mp hhead
  obtain ⟨afterIndex, hindex, h⟩ := bind_eq_ok.mp h
  obtain ⟨create, rfl, hcreateUpper⟩ := expectKeyword_eq_ok.mp hcreate
  obtain ⟨index, hoptional, hindexUpper⟩ := expectKeyword_eq_ok.mp hindex
  -- the name of the statement is still to come
  have hmore : afterIndex ≠ [] := by
    rintro rfl
    simp [optionalKeyword, statementName, bind, Except.bind] at h
  obtain ⟨third, rest, rfl⟩ := List.exists_cons_of_ne_nil hmore
  rw [parseOne, htokens]
  cases afterCreate with
  | nil => simp at hoptional
  | cons second others =>
    dsimp only at hoptional
    split_ifs at hoptional with hunique
    · obtain rfl : others = index :: third :: rest := hoptional
      exact if_pos ⟨hcreateUpper, .inl hunique⟩
    · obtain ⟨rfl, rfl⟩ := List.cons.inj hoptional
      exact if_pos ⟨hcreateUpper, .inr hindexUpper⟩

/-- **The predicate of a statement.** Where no literal has a backtick, it is compiled from the filter
without the backticks around its identifiers. -/
theorem predicate_of_parseOne {raw p : String} {spec : IndexSpec}
    (h : parseOne table context raw = .ok spec) (hp : predicateText table context raw = some p)
    (hplain : PlainLiterals p) :
    ∃ expression predicate, Filter.parse (trim (unquoteIdentifiers p)) = .ok expression ∧
      Policy.predicate context expression = .ok predicate ∧ spec.predicate = some predicate.text := by
  obtain ⟨tokens, htokens, hstatement⟩ := Option.bind_eq_some_iff.mp hp
  obtain ⟨⟨head, rest⟩, hhead, hrest⟩ := Option.bind_eq_some_iff.mp hstatement
  obtain ⟨token, htoken, hfilter⟩ := Option.bind_eq_some_iff.mp hrest
  clear hp hstatement hrest
  rw [toOption_eq_some] at htokens hhead
  obtain ⟨others, rfl⟩ : ∃ others, rest = token :: others := by
    cases rest with
    | nil => cases htoken
    | cons first others => exact ⟨others, by rw [Option.some.inj htoken]⟩
  split_ifs at hfilter with hupper
  obtain rfl := Option.some.inj hfilter
  rw [parseOne_of_statementHead htokens hhead, parseStatement_eq, hhead] at h
  replace h : (do
      let predicate ← statementPredicate context head.name (token :: others)
      .ok { head with predicate }) = Except.ok spec := h
  obtain ⟨predicate, hpredicate, hspec⟩ := bind_eq_ok.mp h
  obtain rfl := Except.ok.inj hspec
  rw [statementPredicate, if_neg (not_not.mpr hupper)] at hpredicate
  obtain ⟨expression, hexpression, hpredicate⟩ := bind_eq_ok.mp hpredicate
  obtain ⟨compiled, hcompiled, hpredicate⟩ := bind_eq_ok.mp hpredicate
  have hunquoted : unquoteIdentifiers (String.ofList token.rest) =
      String.ofList (token.rest.filter fun c => c ≠ '`') := by
    rw [unquoteIdentifiers, unquoteFrom_of_plainFrom hplain, String.toList_ofList]
  exact ⟨expression, compiled, hunquoted ▸ hexpression, hcompiled, (Except.ok.inj hpredicate).symm⟩

end Parse

/-! ### Statements that are built -/

/-- A column as a statement has it. -/
def IndexColumn.text (column : IndexColumn) : String :=
  if column.descending then Sql.quoteIdent column.name ++ " desc" else Sql.quoteIdent column.name

/-- `create [unique] index if not exists … on … (…) [where …]` -/
def IndexSpec.createStatementText (spec : IndexSpec) (table : String) : String :=
  let columns := join ", " (spec.columns.map IndexColumn.text)
  let unique := if spec.unique then "unique " else ""
  let predicate := match spec.predicate with
    | some predicate => " where " ++ predicate
    | none => ""
  "create " ++ unique ++ "index if not exists " ++ Sql.quoteIdent spec.name ++ " on " ++
    Sql.quoteIdent table ++ " (" ++ columns ++ ")" ++ predicate

/-- What the parser looks at in a token. -/
def Token.shown (token : Token) : String × TokenKind := (token.text, token.kind)

/-- **A text that is read as tokens**, whatever stands behind each. -/
def Reads (raw : String) (cs : List Char) (shown : List (String × TokenKind)) : Prop :=
  ∃ tokens, tokenizeFrom raw .gap cs = .ok tokens ∧ tokens.map Token.shown = shown

section Reads

variable {raw : String} {cs : List Char} {shown : List (String × TokenKind)}

theorem Reads.nil : Reads raw [] [] := ⟨[], rfl, rfl⟩

theorem Reads.space (h : Reads raw cs shown) : Reads raw (' ' :: cs) shown := by
  obtain ⟨tokens, htokens, hshown⟩ := h
  have hgap : gapStep raw ' ' cs = .ok ([], .gap) := if_pos (by decide)
  refine ⟨tokens, ?_, hshown⟩
  simp only [tokenizeFrom, hgap, htokens, bind, Except.bind, List.nil_append]

theorem Reads.punctuation {c : Char} (hc : c ∈ ['(', ')', ',']) (h : Reads raw cs shown) :
    Reads raw (c :: cs) ((String.ofList [c], .punctuation) :: shown) := by
  obtain ⟨tokens, htokens, hshown⟩ := h
  have hgap : gapStep raw c cs = .ok ([⟨String.ofList [c], .punctuation, cs⟩], .gap) := by
    simp only [List.mem_cons, List.not_mem_nil, or_false] at hc
    rcases hc with rfl | rfl | rfl <;> rfl
  refine ⟨⟨String.ofList [c], .punctuation, cs⟩ :: tokens, ?_, ?_⟩
  · simp only [tokenizeFrom, hgap, htokens, bind, Except.bind, List.singleton_append]
  · rw [List.map_cons, hshown]
    rfl

/-- The rest of a quoted identifier. -/
theorem tokenizeFrom_quoted {close : Char} {name read : List Char} {tokens : List Token}
    (hname : close ∉ name) (h : tokenizeFrom raw .gap cs = .ok tokens) :
    tokenizeFrom raw (.quoted close read) (name ++ close :: cs) =
      .ok (identifierToken (name.reverse ++ read) cs :: tokens) := by
  induction name generalizing read with
  | nil => simp [tokenizeFrom, h, bind, Except.bind]
  | cons c name ih =>
    rw [List.mem_cons, not_or] at hname
    rw [List.cons_append, tokenizeFrom, if_neg (Ne.symm hname.1), ih hname.2]
    simp

theorem Reads.quoted {name : String} (hname : '"' ∉ name.toList) (h : Reads raw cs shown) :
    Reads raw ((Sql.quoteIdent name).toList ++ cs) ((name, .identifier) :: shown) := by
  obtain ⟨tokens, htokens, hshown⟩ := h
  have hplain : doubleChars '"' name.toList = name.toList := by
    rw [doubleChars, List.flatMap_congr (g := fun c => [c]) fun c hc => ?_, List.flatMap_singleton']
    exact if_neg fun heq : c = '"' => hname (heq ▸ hc)
  have hlist : (Sql.quoteIdent name).toList ++ cs = '"' :: (name.toList ++ '"' :: cs) := by
    simp [Sql.quoteIdent, double, hplain]
  have hgap : gapStep raw '"' (name.toList ++ '"' :: cs) = .ok ([], .quoted '"' []) := rfl
  refine ⟨identifierToken (name.toList.reverse ++ []) cs :: tokens, ?_, ?_⟩
  · rw [hlist, tokenizeFrom, hgap]
    simp only [bind, Except.bind, tokenizeFrom_quoted hname htokens, List.nil_append]
  · rw [List.map_cons, hshown]
    simp [Token.shown, identifierToken]

/-- The rest of a word. -/
theorem tokenizeFrom_word {word read : List Char} {c : Char} {tokens : List Token}
    (hword : ∀ c ∈ word, isWordChar c = true) (hc : isWordChar c = false)
    (hwhere : (identifierToken (word.reverse ++ read) (c :: cs)).upper ≠ "WHERE")
    (h : tokenizeFrom raw .gap (c :: cs) = .ok tokens) :
    tokenizeFrom raw (.word read) (word ++ c :: cs) =
      .ok (identifierToken (word.reverse ++ read) (c :: cs) :: tokens) := by
  induction word generalizing read with
  | nil =>
    rw [tokenizeFrom] at h
    obtain ⟨⟨first, scan⟩, hgap, h⟩ := bind_eq_ok.mp h
    obtain ⟨others, hothers, h⟩ := bind_eq_ok.mp h
    obtain rfl := Except.ok.inj h
    simp only [List.reverse_nil, List.nil_append] at hwhere ⊢
    rw [tokenizeFrom, if_neg (by simp [hc])]
    dsimp only
    rw [if_neg hwhere, hgap]
    simp [bind, Except.bind, hothers]
  | cons d word ih =>
    rw [List.forall_mem_cons] at hword
    rw [List.cons_append, tokenizeFrom, if_pos hword.1, ih hword.2 (by simpa using hwhere)]
    simp

/-- A keyword of a statement. -/
theorem Reads.word {word : String} {c : Char} (hne : word ≠ "")
    (hword : word.toList.all fun c => isWordChar c && !isWhitespace c)
    (hc : isWordChar c = false) (hwhere : toAsciiUppercase word ≠ "WHERE")
    (h : Reads raw (c :: cs) shown) :
    Reads raw (word.toList ++ c :: cs) ((word, .identifier) :: shown) := by
  obtain ⟨tokens, htokens, hshown⟩ := h
  rw [List.all_eq_true] at hword
  obtain ⟨first, rest, hlist⟩ := List.exists_cons_of_ne_nil
    (fun hnil : word.toList = [] => hne (String.toList_eq_nil_iff.mp hnil))
  have hchars : ∀ c ∈ word.toList, isWordChar c = true ∧ isWhitespace c = false := by
    intro c hc
    simpa using hword c hc
  have htext : String.ofList (first :: rest) = word := by rw [← hlist, String.ofList_toList]
  obtain ⟨hfirst, hspace⟩ := hchars first (by rw [hlist]; exact List.mem_cons_self)
  have hgap : gapStep raw first (rest ++ c :: cs) = .ok ([], .word [first]) := by
    have hpunctuation : first ≠ '(' ∧ first ≠ ')' ∧ first ≠ ',' ∧ first ≠ '"' ∧ first ≠ '`' ∧
        first ≠ '[' := by
      refine ⟨?_, ?_, ?_, ?_, ?_, ?_⟩ <;> rintro rfl <;> exact absurd hfirst (by decide)
    simp [gapStep, hspace, hpunctuation, hfirst]
  have hscan : tokenizeFrom raw (.word [first]) (rest ++ c :: cs) = _ := tokenizeFrom_word
    (fun c hc => (hchars c (by rw [hlist]; exact mem_cons_of_mem _ hc)).1) hc
    (by simpa [identifierToken, Token.upper, htext] using hwhere) htokens
  refine ⟨identifierToken (rest.reverse ++ [first]) (c :: cs) :: tokens, ?_, ?_⟩
  · rw [hlist, cons_append, tokenizeFrom, hgap]
    simp only [bind, Except.bind, hscan, nil_append]
  · rw [map_cons, hshown]
    simp [Token.shown, identifierToken, htext]

/-- A `where` ends the scan. -/
theorem tokenizeFrom_where {word read : List Char} {c : Char} (hword : ∀ c ∈ word, isWordChar c = true)
    (hc : isWordChar c = false)
    (hwhere : (identifierToken (word.reverse ++ read) (c :: cs)).upper = "WHERE") :
    tokenizeFrom raw (.word read) (word ++ c :: cs) =
      .ok [identifierToken (word.reverse ++ read) (c :: cs)] := by
  induction word generalizing read with
  | nil =>
    rw [nil_append, tokenizeFrom, if_neg (by simp [hc])]
    exact if_pos hwhere
  | cons d word ih =>
    rw [forall_mem_cons] at hword
    rw [cons_append, tokenizeFrom, if_pos hword.1, ih hword.2 (by simpa using hwhere)]
    simp

theorem Reads.where_ (filter : List Char) :
    Reads raw (" where ".toList ++ filter) [("where", .identifier)] := by
  have hlist : " where ".toList ++ filter =
      ' ' :: 'w' :: (['h', 'e', 'r', 'e'] ++ ' ' :: filter) := rfl
  have hgap (rest : List Char) : gapStep raw 'w' rest = .ok ([], .word ['w']) := rfl
  have hwhere : toAsciiUppercase (String.ofList ['w', 'h', 'e', 'r', 'e']) = "WHERE" := by decide
  have hscan : tokenizeFrom raw (.word ['w']) (['h', 'e', 'r', 'e'] ++ ' ' :: filter) = _ :=
    tokenizeFrom_where (all_eq_true.mp (by decide)) (by decide) hwhere
  rw [hlist]
  refine Reads.space ⟨[identifierToken ['e', 'r', 'e', 'h', 'w'] (' ' :: filter)], ?_, rfl⟩
  rw [tokenizeFrom, hgap]
  simp only [bind, Except.bind, hscan, nil_append]
  rfl

end Reads

/-! ### Statements that are read back -/

section ReadBack

variable {raw table : String} {context : FilterContext}

/-- The tokens of a column. -/
def IndexColumn.shown (column : IndexColumn) : List (String × TokenKind) :=
  (column.name, .identifier) :: if column.descending then [("desc", .identifier)] else []

/-- The tokens of a column list. -/
def columnsShown : List IndexColumn → List (String × TokenKind)
  | [] => []
  | [column] => column.shown
  | column :: rest => column.shown ++ (",", .punctuation) :: columnsShown rest

theorem Reads.column {column : IndexColumn} {c : Char} {cs : List Char}
    {shown : List (String × TokenKind)} (hname : '"' ∉ column.name.toList)
    (hc : isWordChar c = false) (h : Reads raw (c :: cs) shown) :
    Reads raw (column.text.toList ++ c :: cs) (column.shown ++ shown) := by
  unfold IndexColumn.text IndexColumn.shown
  split_ifs
  · have hdesc := h.word (show "desc" ≠ "" by decide) (by decide) hc (by decide)
    have hlist : (Sql.quoteIdent column.name ++ " desc").toList ++ c :: cs =
        (Sql.quoteIdent column.name).toList ++ ' ' :: ("desc".toList ++ c :: cs) := by
      rw [String.toList_append, List.append_assoc]
      rfl
    rw [hlist]
    exact hdesc.space.quoted hname
  · exact h.quoted hname

theorem Reads.columns {columns : List IndexColumn} {c : Char} {cs : List Char}
    {shown : List (String × TokenKind)} (hnames : ∀ column ∈ columns, '"' ∉ column.name.toList)
    (hc : isWordChar c = false) (h : Reads raw (c :: cs) shown) :
    Reads raw ((join ", " (columns.map IndexColumn.text)).toList ++ c :: cs)
      (columnsShown columns ++ shown) := by
  fun_induction columnsShown columns with
  | case1 => exact h
  | case2 column => exact h.column (hnames column mem_cons_self) hc
  | case3 column rest hrest ih =>
    obtain ⟨second, others, rfl⟩ := exists_cons_of_ne_nil hrest
    have htail := ih fun other hother => hnames other (mem_cons_of_mem _ hother)
    have hcomma := htail.space.punctuation (c := ',') (by decide)
    have hcolumn := hcomma.column (hnames column mem_cons_self) (by decide)
    rw [map_cons, map_cons, join, String.toList_append, String.toList_append]
    · simpa using hcolumn
    · simp

/-- What a token shows. -/
theorem Token.of_shown {token : Token} {text : String} {kind : TokenKind}
    (h : token.shown = (text, kind)) :
    token.text = text ∧ token.upper = toAsciiUppercase text ∧ token.kind = kind := by
  obtain ⟨rfl, rfl⟩ := Prod.mk.inj h
  exact ⟨rfl, rfl, rfl⟩

variable {tokens : List Token} {after : List (String × TokenKind)}

/-- What a column list goes on with behind a column. -/
theorem statementColumns_column {name : String} {column : IndexColumn}
    {separator : String}
    (hcolumn : context.hasColumn column.name = true) (hname : column.name ≠ "(")
    (hseparator : separator = "," ∨ separator = ")")
    (h : tokens.map Token.shown = column.shown ++ (separator, .punctuation) :: after) :
    ∃ rest, rest.map Token.shown = after ∧
      statementColumns table context name .column tokens =
        if separator = "," then do
          let (others, after) ← statementColumns table context name .column rest
          .ok (column :: others, after)
        else .ok ([column], rest) := by
  have hvalidate : validateColumn table column.name context = .ok column.name := if_pos hcolumn
  have hkeyword : toAsciiUppercase separator ∉ ["COLLATE", "NULLS", "USING", "INCLUDE"] ∧
      ¬ (toAsciiUppercase separator = "ASC" ∨ toAsciiUppercase separator = "DESC") := by
    rcases hseparator with rfl | rfl <;> decide
  obtain ⟨columnName, descending⟩ := column
  obtain ⟨token, tokens, rfl, htoken, h⟩ := map_eq_cons_iff.mp h
  obtain ⟨htext, -, hkind⟩ := Token.of_shown htoken
  rw [statementColumns, if_neg (by rw [htext]; exact hname), if_neg (by simp [hkind]), htext]
  cases descending with
  | false =>
    obtain ⟨next, rest, rfl, hnext, hrest⟩ := map_eq_cons_iff.mp h
    obtain ⟨hnextText, hnextUpper, -⟩ := Token.of_shown hnext
    refine ⟨rest, hrest, ?_⟩
    rw [statementColumns, hnextUpper, hnextText, if_neg hkeyword.1, hvalidate]
    simp only [bind, Except.bind, if_neg hkeyword.2]
    rcases hseparator with rfl | rfl <;> rfl
  | true =>
    obtain ⟨direction, tokens, rfl, hdirection, h⟩ := map_eq_cons_iff.mp h
    obtain ⟨next, rest, rfl, hnext, hrest⟩ := map_eq_cons_iff.mp h
    obtain ⟨-, hdirectionUpper, -⟩ := Token.of_shown hdirection
    obtain ⟨hnextText, -, -⟩ := Token.of_shown hnext
    have hdesc : toAsciiUppercase "desc" = "DESC" := by decide
    refine ⟨rest, hrest, ?_⟩
    rw [statementColumns, hdirectionUpper, hdesc, if_neg (by decide), hvalidate]
    simp only [bind, Except.bind, statementColumns, hnextText]
    rcases hseparator with rfl | rfl <;> rfl

/-- **A column list is read back.** -/
theorem statementColumns_of_shown (table name : String) {columns : List IndexColumn} (hne : columns ≠ [])
    (hcolumns : ∀ column ∈ columns, context.hasColumn column.name = true ∧ column.name ≠ "(")
    (h : tokens.map Token.shown = columnsShown columns ++ (")", .punctuation) :: after) :
    ∃ rest, rest.map Token.shown = after ∧
      statementColumns table context name .column tokens = .ok (columns, rest) := by
  fun_induction columnsShown columns generalizing tokens with
  | case1 => exact absurd rfl hne
  | case2 column =>
    obtain ⟨hcolumn, hname⟩ := hcolumns column mem_cons_self
    exact statementColumns_column hcolumn hname (.inr rfl) h
  | case3 column others hothers ih =>
    obtain ⟨hcolumn, hname⟩ := hcolumns column mem_cons_self
    rw [append_assoc, cons_append] at h
    obtain ⟨rest, hrest, hread⟩ := statementColumns_column hcolumn hname (.inl rfl) h
    obtain ⟨last, hlast, hreadRest⟩ := ih (fun hnil => hothers hnil)
      (fun other hother => hcolumns other (mem_cons_of_mem _ hother)) hrest
    refine ⟨last, hlast, ?_⟩
    rw [hread, if_pos rfl, hreadRest]
    rfl

/-- The tokens a statement is built from, up to its predicate. -/
def IndexSpec.shown (spec : IndexSpec) (table : String) : List (String × TokenKind) :=
  (("create", .identifier) :: if spec.unique then [("unique", .identifier)] else []) ++
    ["index", "if", "not", "exists", spec.name, "on", table].map (fun word => (word, .identifier)) ++
    ("(", .punctuation) :: columnsShown spec.columns ++ [(")", .punctuation)]

/-- Names without quotes. -/
structure Plain (spec : IndexSpec) (table : String) : Prop where
  name : '"' ∉ spec.name.toList
  table : '"' ∉ table.toList
  columns : ∀ column ∈ spec.columns, '"' ∉ column.name.toList

variable {spec : IndexSpec}

/-- **The tokens of a statement that is built.** -/
theorem Reads.createStatementText (raw : String) (hplain : Plain spec table) :
    Reads raw (spec.createStatementText table).toList (spec.shown table ++
      if spec.predicate.isSome then [("where", .identifier)] else []) := by
  let keyword (word : String) (cs : List Char) : List Char := word.toList ++ ' ' :: cs
  let predicate := match spec.predicate with
    | some predicate => " where " ++ predicate
    | none => ""
  have hpredicate : Reads raw predicate.toList
      (if spec.predicate.isSome then [("where", .identifier)] else []) := by
    cases hcase : spec.predicate with
    | none => simpa [predicate, hcase] using Reads.nil
    | some text => simpa [predicate, hcase] using Reads.where_ text.toList
  have hword {cs : List Char} {shown : List (String × TokenKind)} (word : String) (hne : word ≠ "")
      (hword : word.toList.all fun c => isWordChar c && !isWhitespace c)
      (hwhere : toAsciiUppercase word ≠ "WHERE") (h : Reads raw cs shown) :
      Reads raw (keyword word cs) ((word, .identifier) :: shown) :=
    h.space.word hne hword (by decide) hwhere
  have hcolumns := (hpredicate.punctuation (c := ')') (by decide)).columns hplain.columns (by decide)
  have htable := (hcolumns.punctuation (c := '(') (by decide)).space.quoted hplain.table
  have hname := (hword "on" (by decide) (by decide) (by decide) htable).space.quoted hplain.name
  have hindex := hword "index" (by decide) (by decide) (by decide) <|
    hword "if" (by decide) (by decide) (by decide) <|
    hword "not" (by decide) (by decide) (by decide) <|
    hword "exists" (by decide) (by decide) (by decide) hname
  have hcreateText : "create ".toList = "create".toList ++ [' '] := rfl
  have hindexText : "index if not exists ".toList = "index".toList ++ ' ' :: ("if".toList ++
      ' ' :: ("not".toList ++ ' ' :: ("exists".toList ++ [' ']))) := rfl
  have honText : " on ".toList = ' ' :: ("on".toList ++ [' ']) := rfl
  have hopenText : " (".toList = [' ', '('] := rfl
  have hcloseText : ")".toList = [')'] := rfl
  unfold IndexSpec.createStatementText IndexSpec.shown
  cases spec.unique with
  | false =>
    convert hword "create" (by decide) (by decide) (by decide) hindex using 1
    · simp only [keyword, String.toList_append, hcreateText, hindexText, honText, hopenText,
        hcloseText, List.append_assoc, List.cons_append, List.nil_append]
      rfl
    · simp
  | true =>
    convert hword "create" (by decide) (by decide) (by decide)
      (hword "unique" (by decide) (by decide) (by decide) hindex) using 1
    · simp only [keyword, String.toList_append, hcreateText, hindexText, honText, hopenText,
        hcloseText, List.append_assoc, List.cons_append, List.nil_append]
      rfl
    · simp

theorem expectKeyword_of_shown (raw : String) {word keyword : String} (hword : toAsciiUppercase word = keyword)
    (h : tokens.map Token.shown = (word, .identifier) :: after) :
    ∃ rest, rest.map Token.shown = after ∧ expectKeyword raw keyword tokens = .ok rest := by
  obtain ⟨token, rest, rfl, htoken, hrest⟩ := List.map_eq_cons_iff.mp h
  obtain ⟨-, hupper, -⟩ := Token.of_shown htoken
  exact ⟨rest, hrest, expectKeyword_eq_ok.mpr ⟨token, rfl, hupper.trans hword⟩⟩

theorem optionalKeyword_of_shown {word : String} (keyword : String) (h : tokens.map Token.shown = (word, .identifier) :: after) :
    ∃ rest, rest.map Token.shown = after ∧ optionalKeyword keyword tokens =
      if toAsciiUppercase word = keyword then (true, rest) else (false, tokens) := by
  obtain ⟨token, rest, rfl, htoken, hrest⟩ := List.map_eq_cons_iff.mp h
  obtain ⟨-, hupper, -⟩ := Token.of_shown htoken
  exact ⟨rest, hrest, by rw [optionalKeyword, hupper]⟩

/-- A declaration that a statement can be built for: a valid name, and columns of the collection. -/
structure Statable (context : FilterContext) (spec : IndexSpec) : Prop where
  name : validateIdentifier "index name" spec.name = .ok ()
  columns_ne : spec.columns ≠ []
  columns : ∀ column ∈ spec.columns, context.hasColumn column.name = true ∧ column.name ≠ "("

/-- **The head of a statement is read back.** -/
theorem statementHead_of_shown (hspec : Statable context spec)
    (h : tokens.map Token.shown = spec.shown table ++ after) :
    ∃ rest, rest.map Token.shown = after ∧
      statementHead table context raw tokens = .ok ({ spec with predicate := none }, rest) := by
  have hname (tokens : List Token) (after : List (String × TokenKind))
      (h : tokens.map Token.shown = (spec.name, .identifier) :: after) :
      ∃ rest, rest.map Token.shown = after ∧
        statementName table tokens = .ok (spec.name, rest) := by
    obtain ⟨token, rest, rfl, htoken, hrest⟩ := List.map_eq_cons_iff.mp h
    obtain ⟨htext, -, hkind⟩ := Token.of_shown htoken
    refine ⟨rest, hrest, ?_⟩
    rw [statementName, if_neg (not_not.mpr hkind), htext, hspec.name]
    rfl
  have htarget (tokens : List Token) (after : List (String × TokenKind))
      (h : tokens.map Token.shown = (table, .identifier) :: ("(", .punctuation) :: after) :
      ∃ rest, rest.map Token.shown = after ∧
        statementTarget table spec.name tokens = .ok rest := by
    obtain ⟨token, tokens, rfl, htoken, h⟩ := List.map_eq_cons_iff.mp h
    obtain ⟨paren, rest, rfl, hparen, hrest⟩ := List.map_eq_cons_iff.mp h
    obtain ⟨-, hupper, hkind⟩ := Token.of_shown htoken
    obtain ⟨hparenText, -, -⟩ := Token.of_shown hparen
    refine ⟨rest, hrest, ?_⟩
    rw [statementTarget, if_neg (by simp [hkind, hupper])]
    exact if_neg (not_not.mpr hparenText)
  have hbody (tokens : List Token) (h : tokens.map Token.shown =
      ["index", "if", "not", "exists", spec.name, "on", table].map
        (fun word => (word, TokenKind.identifier)) ++
      ("(", .punctuation) :: columnsShown spec.columns ++ (")", .punctuation) :: after) :
      ∃ rest, rest.map Token.shown = after ∧
        statementBody table context raw spec.unique tokens =
          .ok ({ spec with predicate := none }, rest) := by
    have hindex : toAsciiUppercase "index" = "INDEX" := by decide
    have hif : toAsciiUppercase "if" = "IF" := by decide
    have hnot : toAsciiUppercase "not" = "NOT" := by decide
    have hexists : toAsciiUppercase "exists" = "EXISTS" := by decide
    have hon : toAsciiUppercase "on" = "ON" := by decide
    obtain ⟨fromIf, h, hreadIndex⟩ := expectKeyword_of_shown raw hindex h
    obtain ⟨fromNot, h, hreadIf⟩ := optionalKeyword_of_shown "IF" h
    obtain ⟨fromExists, h, hreadNot⟩ := expectKeyword_of_shown raw hnot h
    obtain ⟨fromName, h, hreadExists⟩ := expectKeyword_of_shown raw hexists h
    obtain ⟨fromOn, h, hreadName⟩ := hname _ _ h
    obtain ⟨fromTable, h, hreadOn⟩ := expectKeyword_of_shown raw hon h
    obtain ⟨fromColumns, h, hreadTable⟩ := htarget _ _ h
    obtain ⟨rest, hrest, hreadColumns⟩ := statementColumns_of_shown table spec.name
      hspec.columns_ne hspec.columns h
    refine ⟨rest, hrest, ?_⟩
    rw [if_pos hif] at hreadIf
    simp only [statementBody, hreadIndex, hreadIf, hreadNot, hreadExists, hreadName, hreadOn,
      hreadTable, hreadColumns, bind, Except.bind, if_true]
  have hcreate : toAsciiUppercase "create" = "CREATE" := by decide
  rw [IndexSpec.shown, List.append_assoc, List.append_assoc, List.append_assoc, List.cons_append]
    at h
  obtain ⟨fromUnique, h, hreadCreate⟩ := expectKeyword_of_shown raw hcreate h
  cases hunique : spec.unique with
  | true =>
    have hkeyword : toAsciiUppercase "unique" = "UNIQUE" := by decide
    rw [hunique] at h hbody
    obtain ⟨fromIndex, h, hreadUnique⟩ := optionalKeyword_of_shown "UNIQUE" h
    obtain ⟨rest, hrest, hread⟩ := hbody fromIndex (by simpa using h)
    refine ⟨rest, hrest, ?_⟩
    rw [if_pos hkeyword] at hreadUnique
    simp only [statementHead, hreadCreate, hreadUnique, bind, Except.bind, hread]
  | false =>
    have hkeyword : toAsciiUppercase "index" ≠ "UNIQUE" := by decide
    rw [hunique] at h hbody
    obtain ⟨fromIndex, -, hreadUnique⟩ := optionalKeyword_of_shown "UNIQUE" h
    obtain ⟨rest, hrest, hread⟩ := hbody fromUnique (by simpa using h)
    refine ⟨rest, hrest, ?_⟩
    rw [if_neg hkeyword] at hreadUnique
    simp only [statementHead, hreadCreate, hreadUnique, bind, Except.bind, hread]

/-- **A statement that is built is read back up to its predicate.** -/
theorem statementHead_createStatementText (hspec : Statable context spec)
    (hplain : Plain spec table) :
    ∃ tokens rest, tokenize (spec.createStatementText table) = .ok tokens ∧
      statementHead table context (spec.createStatementText table) tokens =
        .ok ({ spec with predicate := none }, rest) ∧
      (spec.predicate = none → rest = []) := by
  obtain ⟨tokens, htokens, hshown⟩ :=
    Reads.createStatementText (spec.createStatementText table) hplain
  obtain ⟨rest, hrest, hhead⟩ := statementHead_of_shown hspec hshown
  refine ⟨tokens, rest, htokens, hhead, fun hnone => ?_⟩
  rw [hnone] at hrest
  exact List.map_eq_nil_iff.mp hrest

/-- **A statement without a predicate is read back.** -/
theorem parseOne_createStatementText (hspec : Statable context spec)
    (hplain : Plain spec table) (hnone : spec.predicate = none) :
    parseOne table context (spec.createStatementText table) = .ok spec := by
  obtain ⟨tokens, rest, htokens, hhead, hrest⟩ := statementHead_createStatementText hspec hplain
  obtain rfl := hrest hnone
  have hsame : { spec with predicate := none } = spec := by rw [← hnone]
  rw [parseOne_of_statementHead htokens hhead, parseStatement_eq, hhead, hsame]
  exact congrArg Except.ok hsame

/-- A column list has a column, and no column is a parenthesis. -/
theorem readable_of_statementColumns {name : String} {expect : Expect} {rest : List Token}
    {columns : List IndexColumn} (hexpect : ∀ column, expect = .direction column → column ≠ "(")
    (h : statementColumns table context name expect tokens = .ok (columns, rest)) :
    (expect ≠ .separator → columns ≠ []) ∧ ∀ column ∈ columns, column.name ≠ "(" := by
  fun_induction statementColumns table context name expect tokens generalizing columns rest with
  | case1 | case2 | case3 | case6 | case8 | case11 => cases h
  | case4 token tokens hparen hkind ih =>
    obtain ⟨hne, hcolumns⟩ := ih (fun column heq => by cases heq; exact hparen) h
    exact ⟨fun _ => hne (by simp), hcolumns⟩
  | case5 =>
    obtain ⟨_, -, h⟩ := bind_eq_ok.mp h
    cases h
  | case7 column token tokens hkeyword ihSeparator ihColumn =>
    obtain ⟨read, hread, h'⟩ := bind_eq_ok.mp h
    obtain ⟨rfl, -⟩ := validateColumn_eq_ok hread
    have hname : read ≠ "(" := hexpect read rfl
    clear h
    split_ifs at h'
    · obtain ⟨⟨others, last⟩, hothers, heq⟩ := bind_eq_ok.mp h'
      obtain ⟨rfl, rfl⟩ := Prod.mk.inj (Except.ok.inj heq)
      obtain ⟨-, hcolumns⟩ := ihSeparator (by simp) hothers
      exact ⟨by simp, List.forall_mem_cons.mpr ⟨hname, hcolumns⟩⟩
    · obtain ⟨⟨others, last⟩, hothers, heq⟩ := bind_eq_ok.mp h'
      obtain ⟨rfl, rfl⟩ := Prod.mk.inj (Except.ok.inj heq)
      obtain ⟨-, hcolumns⟩ := ihColumn (by simp) hothers
      exact ⟨by simp, List.forall_mem_cons.mpr ⟨hname, hcolumns⟩⟩
    · obtain ⟨rfl, rfl⟩ := Prod.mk.inj (Except.ok.inj h')
      exact ⟨by simp, by simpa using hname⟩
  | case9 token tokens hcomma ih =>
    obtain ⟨-, hcolumns⟩ := ih (by simp) h
    exact ⟨by simp, hcolumns⟩
  | case10 token tokens hcomma hparen =>
    obtain ⟨rfl, rfl⟩ := Prod.mk.inj (Except.ok.inj h)
    simp

/-- The parts of a statement with a predicate. -/
theorem parseStatement_of_predicateText {p : String}
    (h : parseOne table context raw = .ok spec) (hp : predicateText table context raw = some p) :
    ∃ tokens, parseStatement table context raw tokens = .ok spec := by
  obtain ⟨tokens, htokens, hstatement⟩ := Option.bind_eq_some_iff.mp hp
  obtain ⟨head, hhead, -⟩ := Option.bind_eq_some_iff.mp hstatement
  rw [toOption_eq_some] at htokens hhead
  exact ⟨tokens, by rw [← parseOne_of_statementHead htokens hhead, h]⟩

/-- What is accepted as a statement, a statement can be built for. -/
theorem statable_of_parseOne {p : String}
    (h : parseOne table context raw = .ok spec) (hp : predicateText table context raw = some p) :
    Statable context spec := by
  obtain ⟨tokens, hstatement⟩ := parseStatement_of_predicateText h hp
  obtain ⟨_, _, _, _, _, hname, -, -, hcolumns, -⟩ := parseStatement_eq_ok hstatement
  obtain ⟨hne, hparens⟩ := readable_of_statementColumns (by simp) hcolumns
  have hhas := columns_of_statementColumns hcolumns
  exact ⟨validate_of_statementName hname, hne (by simp), fun column hcolumn =>
    ⟨hhas column hcolumn, hparens column hcolumn⟩⟩

/-- A valid identifier has no quotes. -/
theorem quote_notMem_of_validateIdentifier {kind name : String}
    (h : validateIdentifier kind name = .ok ()) : '"' ∉ name.toList :=
  fun hmem => absurd ((validateIdentifier_chars h).2 '"' hmem) (by decide)

end ReadBack

end LazyPock.Indexes

namespace LazyPock

open Indexes

/-- **What an accepted statement means.** The names of the table and its columns have no quotes, and
no literal of the predicate has a backtick. Then the predicate that is stored is the one of the filter
without the backticks around its identifiers, with the filter's literals. The statement that is built
has the same name, uniqueness and columns up to its predicate, and reads back where it has none. -/
theorem index_statement {table raw p : String} {context : FilterContext} {spec : IndexSpec}
    (htable : '"' ∉ table.toList)
    (hcolumns : ∀ name, context.hasColumn name = true → '"' ∉ name.toList)
    (h : parseOne table context raw = .ok spec) (hp : predicateText table context raw = some p)
    (hplain : PlainLiterals p) :
    (∃ expression predicate, Filter.parse (Text.trim (unquoteIdentifiers p)) = .ok expression ∧
      Policy.predicate context expression = .ok predicate ∧
      spec.predicate = some predicate.text ∧ predicate.values = expression.literals) ∧
    (∃ tokens rest, tokenize (spec.createStatementText table) = .ok tokens ∧
      statementHead table context (spec.createStatementText table) tokens =
        .ok ({ spec with predicate := none }, rest)) ∧
    parseOne table context (({ spec with predicate := none } : IndexSpec).createStatementText table) =
      .ok { spec with predicate := none } := by
  obtain ⟨expression, predicate, hparse, hpredicate, htext⟩ := predicate_of_parseOne h hp hplain
  have hspec := statable_of_parseOne h hp
  have hquotes : Plain spec table :=
    ⟨quote_notMem_of_validateIdentifier hspec.name, htable, fun column hcolumn =>
      hcolumns column.name (hspec.columns column hcolumn).1⟩
  obtain ⟨tokens, rest, htokens, hhead, -⟩ := statementHead_createStatementText hspec hquotes
  refine ⟨⟨expression, predicate, hparse, hpredicate, htext,
    (Policy.predicate_inlines hpredicate).values⟩, ⟨tokens, rest, htokens, hhead⟩, ?_⟩
  exact parseOne_createStatementText ⟨hspec.name, hspec.columns_ne, hspec.columns⟩
    ⟨hquotes.name, hquotes.table, hquotes.columns⟩ rfl

/-- A partial index, with its column in backticks. -/
def partialIndex : String := "CREATE UNIQUE INDEX by_slug ON posts (slug DESC) WHERE `slug` != 'x'"

theorem index_statement_slug :
    ∃ context spec p, FilterContext.forCollection (slugs []) [slugs []] = .ok context ∧
      parseOne "posts" context partialIndex = .ok spec ∧
      predicateText "posts" context partialIndex = some p ∧
      (∃ expression predicate, Filter.parse (Text.trim (unquoteIdentifiers p)) = .ok expression ∧
        Policy.predicate context expression = .ok predicate ∧
        spec.predicate = some predicate.text ∧ predicate.values = expression.literals) ∧
      (∃ tokens rest, tokenize (spec.createStatementText "posts") = .ok tokens ∧
        statementHead "posts" context (spec.createStatementText "posts") tokens =
          .ok ({ spec with predicate := none }, rest)) ∧
      parseOne "posts" context (({ spec with predicate := none } : IndexSpec).createStatementText
        "posts") = .ok { spec with predicate := none } := by
  obtain ⟨context, hcontext, hread⟩ := exists_ok_of_any
    (x := FilterContext.forCollection (slugs []) [slugs []])
    (P := fun context => (isOk (parseOne "posts" context partialIndex) &&
      decide (predicateText "posts" context partialIndex = some " `slug` != 'x'")) = true)
    (by decide +kernel)
  rw [Bool.and_eq_true, decide_eq_true_eq] at hread
  obtain ⟨spec, hspec⟩ := isOk_iff.mp hread.1
  have hvalid : ValidNames (slugs []) := validNames_slugs (by simp)
  exact ⟨context, spec, _, hcontext, hspec, hread.2, index_statement (by decide)
    (fun name hname => quote_notMem_of_validateIdentifier
      (validateIdentifier_of_hasColumn hvalid hcontext hname)) hspec hread.2 (by decide)⟩

/-- **A statement that is built for a partial index is no declaration**: its predicate is SQL, which
the filter parser does not read. -/
theorem index_statement_predicate :
    ¬ ∀ (collection : Collection) (all : List Collection) (context : FilterContext)
      (raw p : String) (spec : IndexSpec),
      FilterContext.forCollection collection all = .ok context →
      parseOne collection.name context raw = .ok spec →
      predicateText collection.name context raw = some p →
      (∃ expression predicate, Filter.parse (Text.trim (unquoteIdentifiers p)) = .ok expression ∧
        Policy.predicate context expression = .ok predicate ∧
        spec.predicate = some predicate.text) ∧
      ∃ again, parseOne collection.name context (spec.createStatementText collection.name) =
          .ok again ∧
        again.name = spec.name ∧ again.unique = spec.unique ∧ again.columns = spec.columns := by
  intro hall
  obtain ⟨context, hcontext, hread⟩ := exists_ok_of_any
    (x := FilterContext.forCollection (slugs []) [slugs []])
    (P := fun context => ((parseOne "posts" context partialIndex).toOption.any (fun spec =>
        decide (isOk (parseOne "posts" context (spec.createStatementText "posts")) = false)) &&
      decide (predicateText "posts" context partialIndex = some " `slug` != 'x'")) = true)
    (by decide +kernel)
  rw [Bool.and_eq_true, decide_eq_true_eq] at hread
  obtain ⟨spec, hspec, hbuilt⟩ := exists_ok_of_any hread.1
  obtain ⟨-, again, hagain, -⟩ := hall (slugs []) [slugs []] context partialIndex _ spec hcontext
    hspec hread.2
  rw [show parseOne "posts" context (spec.createStatementText "posts") = .ok again from hagain]
    at hbuilt
  cases hbuilt

end LazyPock
