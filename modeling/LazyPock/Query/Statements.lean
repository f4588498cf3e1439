import LazyPock.Query.Parameters

/-!
# The placeholders of whole statements

A listing and a count are read token by token: the document and the order hold no placeholder, the
filter's come first, then the two of the keyset predicate, then limit and offset.

## Main definitions

* `FilterClause`, `KeysetClause`: the tokens and parameters of a clause.
* `ListNumbered`, `CountNumbered`: the numbering law of a statement.

## Main results

* `reads_objectExpression`: the document of a record holds no placeholder.
* `values_never_influence_text`: the text is a function of the erased filter, and the
  placeholders of every statement are numbered from the left, each bound to its own clause's value.
-/

namespace LazyPock

open Text Sql

/-! ### Pieces -/

theorem reads_columnSql (row : Ref) (column : String) : Reads (columnSql row column) [] :=
  ⟨_, row.lexes_column column, by simp⟩

theorem reads_join {items : List String} (hne : items ≠ []) (h : ∀ s ∈ items, Reads s []) :
    Reads (join ", " items) [] := by
  induction items with
  | nil => exact absurd rfl hne
  | cons s rest ih =>
    cases rest with
    | nil => exact h s (by simp)
    | cons t rest =>
      have htail := ih (by simp) fun x hx => h x (List.mem_cons_of_mem _ hx)
      exact (h s (by simp)).separated (by decide) htail

/-! ### The document -/

variable {context : FilterContext}

theorem reads_columnPair {row : Ref} {column pair : String}
    (h : columnPair context row column = .ok pair) : Reads pair [] := by
  obtain ⟨_, -, h⟩ := bind_eq_ok.mp h
  cases h
  exact (reads_stringConstant column).separated (by decide) (reads_columnSql row column)

theorem reads_collectionPairs (context : FilterContext) (selection : FieldSelection) :
    ∀ pair ∈ collectionPairs context selection, Reads pair [] := by
  intro pair hpair
  unfold collectionPairs at hpair
  split at hpair
  · simp at hpair
  · rcases List.mem_append.mp hpair with hpair | hpair
    · split at hpair
      · obtain rfl := List.mem_singleton.mp hpair
        exact (reads_stringConstant _).opening (by decide)
      · simp at hpair
    · split at hpair
      · obtain rfl := List.mem_singleton.mp hpair
        exact (reads_stringConstant _).opening (by decide)
      · simp at hpair

theorem reads_expandExpression (relation : RelationTarget FilterContext) (parent : Ref) (row : Ident)
    {document : String} (h : Reads document []) :
    Reads (expandExpression relation parent row document) [] := by
  unfold expandExpression
  have hid := reads_columnSql (.bare row) "id"
  have hcreated := reads_columnSql (.bare row) "created"
  have htable := reads_quoteIdent relation.table
  have hcolumn := reads_columnSql parent relation.column
  split
  · have hopen : isOpening ("(select coalesce(jsonb_agg(x.item order by x.created desc), " ++
        "'[]'::jsonb) from (select ") = true := by decide
    have h₁ := (h.opening hopen).separated (m := " as item, ") (by decide) hcreated
    have h₂ := (h₁.separated (m := " as created from ") (by decide) htable).aliased row
    have h₃ := h₂.separated (m := " where ") (by decide) hid
    have h₄ := h₃.separated (m := " = any(") (by decide) hcolumn
    have h₅ := h₄.separated (m := ") order by ") (by decide) hcreated
    exact h₅.closing (by decide)
  · have h₁ := h.opening (m := "(select ") (by decide)
    have h₂ := (h₁.separated (m := " from ") (by decide) htable).aliased row
    have h₃ := h₂.separated (m := " where ") (by decide) hid
    have h₄ := h₃.separated (m := " = ") (by decide) hcolumn
    exact h₄.closing (by decide)

theorem reads_expandPairs {child : DocumentBuilder}
    (hchild : ∀ {context row selection expand counter r},
      child context row selection expand counter = .ok r → Reads r.1 []) {parent : Ref} {selection : FieldSelection} {expand : ExpandSpec}
    {names : List String} {counter : Nat} {r : List String × Nat}
    (h : expandPairs child context parent selection expand names counter = .ok r) :
    ∀ pair ∈ r.1, Reads pair [] := by
  induction names generalizing counter r with
  | nil =>
    cases h
    simp
  | cons name names ih =>
    obtain ⟨relation, -, h⟩ := bind_eq_ok.mp h
    obtain ⟨⟨document, counter'⟩, hdocument, h⟩ := bind_eq_ok.mp h
    obtain ⟨⟨pairs, counter''⟩, hpairs, h⟩ := bind_eq_ok.mp h
    cases h
    intro pair hpair
    rcases List.mem_cons.mp hpair with rfl | hpair
    · exact (reads_stringConstant name).separated (by decide)
        (reads_expandExpression relation parent _ (hchild hdocument))
    · exact ih hpairs pair hpair

theorem reads_of_mapM {α : Type} {f : α → Result String} (hf : ∀ {a s}, f a = .ok s → Reads s [])
    {items : List α} {texts : List String} (h : items.mapM f = .ok texts) :
    ∀ s ∈ texts, Reads s [] := by
  induction items generalizing texts with
  | nil =>
    cases h
    simp
  | cons a rest ih =>
    rw [List.mapM_cons] at h
    obtain ⟨t, ht, h⟩ := bind_eq_ok.mp h
    obtain ⟨ts, hts, h⟩ := bind_eq_ok.mp h
    cases h
    intro s hs
    rcases List.mem_cons.mp hs with rfl | hs
    · exact hf ht
    · exact ih hts s hs

theorem reads_expandKey {expanded : List String} (h : ∀ pair ∈ expanded, Reads pair []) :
    ∀ pair ∈ expandKey expanded, Reads pair [] := by
  intro pair hpair
  unfold expandKey at hpair
  split at hpair
  · simp at hpair
  next hne =>
    obtain rfl := List.mem_singleton.mp hpair
    have hopen : isOpening "'expand', jsonb_build_object(" = true := by decide
    exact ((reads_join hne h).opening hopen).closing (by decide)

theorem reads_documentOf {pairs : List String} (h : ∀ pair ∈ pairs, Reads pair []) :
    Reads (documentOf pairs) [] := by
  unfold documentOf
  split
  · exact ⟨[.str "\x7b\x7d", .sym "::", .word "jsonb"], by decide, rfl⟩
  next hne =>
    have hopen : isOpening "jsonb_build_object(" = true := by decide
    exact ((reads_join hne h).opening hopen).closing (by decide)

/-- **The document of a record holds no placeholder**, at any depth of expansion. -/
theorem reads_objectExpression {levels : Nat} {row : Ref}
    {selection : FieldSelection} {expand : ExpandSpec} {counter : Nat} {r : String × Nat}
    (h : objectExpression levels context row selection expand counter = .ok r) : Reads r.1 [] := by
  induction levels generalizing context row selection expand counter r with
  | zero => cases h
  | succ levels ih =>
    obtain ⟨columns, hcolumns, h⟩ := bind_eq_ok.mp h
    obtain ⟨⟨expanded, counter'⟩, hexpanded, h⟩ := bind_eq_ok.mp h
    cases h
    refine reads_documentOf fun pair hpair => ?_
    rcases List.mem_append.mp hpair with hpair | hpair
    · rcases List.mem_append.mp hpair with hpair | hpair
      · exact reads_of_mapM reads_columnPair hcolumns pair hpair
      · exact reads_collectionPairs context selection pair hpair
    · exact reads_expandKey (reads_expandPairs ih hexpanded) pair hpair

theorem reads_keySql (key : String × Bool) : Reads (SortSpec.keySql key) [] := by
  have hkey := reads_quoteIdent key.1
  unfold SortSpec.keySql
  cases key.2 with
  | true => exact hkey.aliased ⟨"desc", by decide⟩
  | false => exact hkey.aliased ⟨"asc", by decide⟩

theorem ne_nil_of_mapM {α β : Type} {f : α → Result β} {items : List α} {results : List β}
    (h : items.mapM f = .ok results) (hne : items ≠ []) : results ≠ [] := by
  cases items with
  | nil => exact absurd rfl hne
  | cons a rest =>
    rw [List.mapM_cons] at h
    obtain ⟨b, -, h⟩ := bind_eq_ok.mp h
    obtain ⟨bs, -, h⟩ := bind_eq_ok.mp h
    cases h
    simp

/-- An `order by` body holds no placeholder. -/
theorem reads_sortCompile {fields : List SortField} {sql : String}
    (h : SortSpec.compile fields context = .ok sql) : Reads sql [] := by
  obtain ⟨_, hne, h⟩ := bind_eq_ok.mp h
  obtain ⟨keys, hkeys, h⟩ := bind_eq_ok.mp h
  cases h
  have hkeys' : keys ≠ [] := ne_nil_of_mapM hkeys (failIf_eq_ok.mp hne)
  refine reads_join (by simpa using hkeys') fun s hs => ?_
  obtain ⟨key, -, rfl⟩ := List.mem_map.mp hs
  exact reads_keySql key

/-! ### The clauses -/

/-- The placeholder of a parameter sent as text and converted. -/
def bigintParam (index : Nat) : Scalar := .cast (.cast (.param index) .text) .bigint

/-- The tokens of a keyset predicate whose two placeholders follow `n` others. -/
def keysetTokens (n : Nat) : List Token :=
  [.sym "(", .word "p", .sym ".", .quoted "created", .sym ",", .word "p", .sym ".", .quoted "id",
    .sym ")", .sym "<", .sym "(", .word "to_timestamp", .sym "("] ++ (bigintParam (n + 1)).tokens ++
    [.sym "/", .num "1000000.0", .sym ")", .sym ","] ++ (Scalar.cast (.param (n + 2)) .text).tokens ++
    [.sym ")"]

/-- The tokens of the page behind `n` parameters. -/
def pageTokens (n : Nat) : List Token :=
  .word "limit" :: (bigintParam (n + 1)).tokens ++ .word "offset" :: (bigintParam (n + 2)).tokens

@[simp] theorem params_bigintParam (index : Nat) : params (bigintParam index).tokens = [index] := by
  simp [bigintParam]

@[simp] theorem params_keysetTokens (n : Nat) : params (keysetTokens n) = [n + 1, n + 2] := by
  simp [keysetTokens]

@[simp] theorem params_pageTokens (n : Nat) : params (pageTokens n) = [n + 1, n + 2] := by
  simp [pageTokens]

/-- The keyset predicate reads as its tokens. -/
theorem lexes_predicate (cursor : Cursor) (ps : List String) :
    Lexes (cursor.predicate rootAlias ps).1.toList (keysetTokens ps.length) := by
  have hopen : run .start "(p.\"created\", p.\"id\") < (to_timestamp(".toList =
      ([.sym "(", .word "p", .sym ".", .quoted "created", .sym ",", .word "p", .sym ".",
        .quoted "id", .sym ")", .sym "<", .sym "(", .word "to_timestamp", .sym "("], .start) := by
    decide
  have hmid : run .start " / 1000000.0), ".toList =
      ([.sym "/", .num "1000000.0", .sym ")", .sym ","], .start) := by decide
  have hid := (Scalar.cast (.param (ps.length + 2)) .text).lexes.closed
  have hbody := (bigintParam (ps.length + 1)).lexes.between (by decide) (by decide) hmid hid
  have h := Lexes.after hopen hbody
  simpa [Cursor.predicate, rootAlias, keysetTokens, bigintParam, PgType.sql] using h

/-- What the filter contributes to a statement: the tokens and the parameters of its own
compilation. -/
def FilterClause (filter : Option Expr) (context : FilterContext) (auth : AuthContext)
    (tokens : List Token) (ps : List String) : Prop :=
  match filter with
  | none => tokens = [] ∧ ps = []
  | some e => ∃ c, compileWithRoot e context auth (.bare rootAlias) = .ok c ∧
      lex c.sql.toList = some tokens ∧ ps = c.params

/-- What the page's cursor contributes to a statement behind `n` parameters. -/
def KeysetClause (page : Page) (n : Nat) (tokens : List Token) (ps : List String) : Prop :=
  match page.after? with
  | none => tokens = [] ∧ ps = []
  | some cursor => tokens = keysetTokens n ∧ ps = [toString cursor.createdMicros, cursor.id]

/-- **The numbering law of a listing.** Read by the lexical rules of SQL, the statement is its head,
the filter, the keyset predicate, the order and the page; the filter's placeholders are the first
ones and bound to the filter's values, the keyset predicate's are the next and bound to the
cursor's, and limit and offset are the last two. -/
def ListNumbered (query : ReadQuery) (context : FilterContext) (auth : AuthContext)
    (built : BuiltQuery) : Prop :=
  ∃ (head filter between keyset order : List Token) (fs ks : List String),
    lex built.sql.toList =
      some (head ++ filter ++ between ++ keyset ++ order ++ pageTokens (fs ++ ks).length) ∧
    built.params =
      fs ++ ks ++ [toString query.page.limit, toString query.page.offsetRows] ∧
    FilterClause query.filter context auth filter fs ∧
    KeysetClause query.page fs.length keyset ks ∧
    params head = [] ∧ params between = [] ∧ params order = [] ∧
    params filter = List.range' 1 fs.length ∧
    params keyset = List.range' (fs.length + 1) ks.length ∧
    params (head ++ filter ++ between ++ keyset ++ order ++ pageTokens (fs ++ ks).length) =
      List.range' 1 built.params.length

/-- The numbering law of a count: the filter's placeholders are all of them. -/
def CountNumbered (filter : Option Expr) (context : FilterContext) (auth : AuthContext)
    (built : BuiltQuery) : Prop :=
  ∃ head clause rest : List Token,
    lex built.sql.toList = some (head ++ clause ++ rest) ∧
    FilterClause filter context auth clause built.params ∧
    params head = [] ∧ params rest = [] ∧ params clause = List.range' 1 built.params.length

variable {auth : AuthContext}

theorem params_filterClause {filter : Option Expr}
    {tokens : List Token} {ps : List String} (h : FilterClause filter context auth tokens ps) :
    params tokens = List.range' 1 ps.length := by
  cases filter with
  | none =>
    obtain ⟨rfl, rfl⟩ := h
    rfl
  | some e =>
    obtain ⟨c, hc, hlex, rfl⟩ := h
    have htokens : lex c.sql.toList = some c.pred.tokens := c.pred.lexes.lex_eq
    obtain rfl : c.pred.tokens = tokens := by simpa [htokens] using hlex
    exact numbered_compileWithRoot hc

theorem params_keysetClause {page : Page} {n : Nat} {tokens : List Token} {ps : List String}
    (h : KeysetClause page n tokens ps) : params tokens = List.range' (n + 1) ps.length := by
  unfold KeysetClause at h
  split at h
  · obtain ⟨rfl, rfl⟩ := h
    rfl
  · obtain ⟨rfl, rfl⟩ := h
    simp [List.range']

/-- The conditions of a statement: the filter, the keyset predicate, and what joins them. -/
theorem lexes_whereClause (page : Page) {filter : Option Expr} {filtered fs : List String}
    (h : filterCondition filter context auth = .ok (filtered, fs)) :
    ∃ (tokens between keyset : List Token) (ks : List String),
      (keysetCondition page fs).2 = fs ++ ks ∧
      FilterClause filter context auth tokens fs ∧
      KeysetClause page fs.length keyset ks ∧ params between = [] ∧
      Lexes (whereClause (filtered ++ (keysetCondition page fs).1)).toList
        (tokens ++ between ++ keyset) := by
  -- The tokens of the filter's condition, if there is one.
  have hfilter : (filter = none ∧ filtered = [] ∧ fs = []) ∨
      ∃ c : CompiledFilter, filtered = [c.sql] ∧
        FilterClause filter context auth c.pred.tokens fs := by
    cases filter with
    | none =>
      cases h
      exact .inl ⟨rfl, rfl, rfl⟩
    | some e =>
      obtain ⟨c, hc, h⟩ := bind_eq_ok.mp h
      cases h
      exact .inr ⟨c, rfl, c, hc, c.pred.lexes.lex_eq, rfl⟩
  have hand : run .start " and ".toList = ([.word "and"], .start) := by decide
  unfold keysetCondition KeysetClause
  cases hafter : page.after? with
  | none =>
    rcases hfilter with ⟨rfl, rfl, rfl⟩ | ⟨c, rfl, hclause⟩
    · exact ⟨[], [.word "true"], [], [], rfl, ⟨rfl, rfl⟩, ⟨rfl, rfl⟩, rfl, by decide⟩
    · refine ⟨c.pred.tokens, [], [], [], by simp, hclause, ⟨rfl, rfl⟩, rfl, ?_⟩
      simpa [whereClause, join, CompiledFilter.sql] using c.pred.lexes
  | some cursor =>
    have hks : (cursor.predicate rootAlias fs).2 =
        fs ++ [toString cursor.createdMicros, cursor.id] := by
      simp [Cursor.predicate]
    have hkeyset := lexes_predicate cursor fs
    rcases hfilter with ⟨rfl, rfl, rfl⟩ | ⟨c, rfl, hclause⟩
    · refine ⟨[], [], keysetTokens 0, _, hks, ⟨rfl, rfl⟩, ⟨rfl, rfl⟩, rfl, ?_⟩
      simpa [whereClause, join] using hkeyset
    · refine ⟨c.pred.tokens, [.word "and"], keysetTokens fs.length, _, hks, hclause, ⟨rfl, rfl⟩,
        rfl, ?_⟩
      have hboth := c.pred.lexes.between (by decide) (by decide) hand hkeyset
      simpa [whereClause, join, CompiledFilter.sql] using hboth

/-- Everything of a listing before its conditions. -/
def listHead (context : FilterContext) (document : String) : String :=
  let keysetCreated := if context.hasColumn "created" then "p.\"created\"" else "null::timestamptz"
  "select " ++ document ++ " as record, " ++ keysetCreated ++
    " as keyset_created, p.\"id\" as keyset_id from " ++ quoteIdent context.table ++ " p where "

/-- Everything of a listing behind its conditions and `n` parameters. -/
def listTail (n : Nat) (orderBy : String) : String :=
  " order by " ++ orderBy ++ " limit " ++ (bigintParam (n + 1)).text ++ " offset " ++
    (bigintParam (n + 2)).text

theorem run_listHead (context : FilterContext) {document : String} (h : Reads document []) :
    ∃ head, run .start (listHead context document).toList = (head, .start) ∧ params head = [] := by
  have hopen := h.opening (m := "select ") (by decide)
  have htable := reads_quoteIdent context.table
  unfold listHead
  split
  · have hcreated : Reads "p.\"created\"" [] :=
      ⟨[.word "p", .sym ".", .quoted "created"], by decide, rfl⟩
    have h₁ := hopen.separated (m := " as record, ") (by decide) hcreated
    have h₂ := h₁.separated (m := " as keyset_created, p.\"id\" as keyset_id from ")
      (by decide) htable
    exact h₂.opens (by decide)
  · have hcreated : Reads "null::timestamptz" [] :=
      ⟨[.word "null", .sym "::", .word "timestamptz"], by decide, rfl⟩
    have h₁ := hopen.separated (m := " as record, ") (by decide) hcreated
    have h₂ := h₁.separated (m := " as keyset_created, p.\"id\" as keyset_id from ")
      (by decide) htable
    exact h₂.opens (by decide)

theorem lexes_listTail (n : Nat) {orderBy : String} (h : Reads orderBy []) :
    ∃ order, Lexes (listTail n orderBy).toList (order ++ pageTokens n) ∧ params order = [] := by
  have hlimit : run .start " limit ".toList = ([.word "limit"], .start) := by decide
  have hoffset : run .start " offset ".toList = ([.word "offset"], .start) := by decide
  obtain ⟨order, horder, hparams⟩ := h.opening (m := " order by ") (by decide)
  have hpage := (bigintParam (n + 1)).lexes.between (by decide) (by decide) hoffset
    (bigintParam (n + 2)).lexes
  refine ⟨order, ?_, hparams⟩
  have htail := horder.between (by decide) (by decide) hlimit hpage
  simpa [listTail, pageTokens] using htail

/-- A listing that is built: its parts, and how the statement is put together from them. -/
theorem buildList_eq_ok {query : ReadQuery}
    {built : BuiltQuery} (h : buildList query context auth = .ok built) :
    ∃ filtered fs document counter orderBy,
      filterCondition query.filter context auth = .ok (filtered, fs) ∧
      objectExpression (maxExpandDepth + 1) context (.bare rootAlias) query.selection query.expand 0
        = .ok (document, counter) ∧
      SortSpec.compile query.sort context = .ok orderBy ∧
      built.params = (keysetCondition query.page fs).2 ++
        [toString query.page.limit, toString query.page.offsetRows] ∧
      built.sql = listHead context document ++
        (whereClause (filtered ++ (keysetCondition query.page fs).1) ++
          listTail (keysetCondition query.page fs).2.length orderBy) := by
  obtain ⟨⟨filtered, fs⟩, hfilter, h⟩ := bind_eq_ok.mp h
  obtain ⟨⟨document, counter⟩, hdocument, h⟩ := bind_eq_ok.mp h
  obtain ⟨orderBy, horder, h⟩ := bind_eq_ok.mp h
  refine ⟨filtered, fs, document, counter, orderBy, hfilter, hdocument, horder, ?_⟩
  rw [Except.ok.injEq] at h
  subst h
  refine ⟨by simp, ?_⟩
  rw [← String.toList_inj]
  simp [listHead, listTail, bigintParam, PgType.sql]

/-- The placeholders of a listing. -/
theorem listNumbered_buildList {query : ReadQuery}
    {built : BuiltQuery} (h : buildList query context auth = .ok built) :
    ListNumbered query context auth built := by
  obtain ⟨filtered, fs, document, counter, orderBy, hfilter, hdocument, horder, hbound, hsql⟩ :=
    buildList_eq_ok h
  obtain ⟨filter, between, keyset, ks, hks, hclause, hkeyset, hbetween, hwhere⟩ :=
    lexes_whereClause query.page hfilter
  rw [hks] at hbound hsql
  -- The head ends between tokens, the order and the page start with a delimiter.
  obtain ⟨head, hhead, hparams⟩ := run_listHead context (reads_objectExpression hdocument)
  obtain ⟨order, hpage, horderParams⟩ := lexes_listTail (fs ++ ks).length (reads_sortCompile horder)
  have hlex : lex built.sql.toList =
      some (head ++ filter ++ between ++ keyset ++ order ++ pageTokens (fs ++ ks).length) := by
    have hdelim : Delim (listTail (fs ++ ks).length orderBy).toList := by
      simp [listTail, Delim, isBlank]
    have hne : (listTail (fs ++ ks).length orderBy).toList ≠ [] ∧
        (listTail (fs ++ ks).length orderBy).toList ≠ [' '] := by
      simp [listTail]
    have hlexes := (Lexes.after hhead (hwhere.append hdelim hne hpage)).lex_eq
    simpa [hsql] using hlexes
  have hfs := params_filterClause hclause
  have hkeys := params_keysetClause hkeyset
  refine ⟨head, filter, between, keyset, order, fs, ks, hlex, hbound, hclause, hkeyset, hparams,
    hbetween, horderParams, hfs, hkeys, ?_⟩
  simp only [params_append, hparams, hbetween, horderParams, hfs, hkeys, params_pageTokens, hbound,
    List.length_append, List.nil_append, List.append_nil]
  have hlast : [fs.length + ks.length + 1, fs.length + ks.length + 2] =
      List.range' (1 + (fs.length + ks.length)) 2 := by
    simp [List.range']
    omega
  rw [hlast, Nat.add_comm fs.length 1, List.range'_append_1, List.range'_append_1]
  rfl

/-- The placeholders of a count. -/
theorem countNumbered_buildCount {filter : Option Expr} {built : BuiltQuery} (h : buildCount filter context auth = .ok built) :
    CountNumbered filter context auth built := by
  obtain ⟨⟨filtered, fs⟩, hfilter, h⟩ := bind_eq_ok.mp h
  cases h
  obtain ⟨tokens, between, keyset, ks, -, hclause, hkeyset, hbetween, hwhere⟩ :=
    lexes_whereClause (.offset ⟨1, 1, false⟩) hfilter
  obtain ⟨rfl, rfl⟩ := hkeyset
  obtain ⟨head, hhead, hparams⟩ := ((reads_quoteIdent context.table).opening
    (m := "select count(*) from ") (by decide)).opens (m := " p where ") (by decide)
  refine ⟨head, tokens, between, ?_, hclause, hparams, hbetween, params_filterClause hclause⟩
  have hlex := (Lexes.after hhead hwhere).lex_eq
  simpa [keysetCondition, Page.after?] using hlex

/-- **Values never influence the statement text, and every placeholder is bound to its own
clause's value.** Two filters that differ in their values only, under any two identities, compile to
the same SQL or both fail. The placeholders of a compiled filter are `$1`, …, `$n` from left to
right, `n` being the number of its parameters, and the same holds of whole listings and counts,
clause by clause. -/
theorem values_never_influence_text :
    (∀ (context : FilterContext) (root : Ref) (e e' : Expr) (auth auth' : AuthContext),
      e.erase = e'.erase →
        sqlOf (compileWithRoot e context auth root) =
          sqlOf (compileWithRoot e' context auth' root)) ∧
    (∀ (context : FilterContext) (root : Ref) (e : Expr) (auth : AuthContext) (c : CompiledFilter),
      compileWithRoot e context auth root = .ok c →
        ∃ tokens, lex c.sql.toList = some tokens ∧
          params tokens = List.range' 1 c.params.length) ∧
    (∀ (query : ReadQuery) (context : FilterContext) (auth : AuthContext) (built : BuiltQuery),
      buildList query context auth = .ok built → ListNumbered query context auth built) ∧
    (∀ (filter : Option Expr) (context : FilterContext) (auth : AuthContext) (built : BuiltQuery),
      buildCount filter context auth = .ok built → CountNumbered filter context auth built) := by
  refine ⟨fun context root e e' auth auth' h => ?_, fun context root e auth c h => ?_,
    fun _ _ _ _ => listNumbered_buildList, fun _ _ _ _ => countNumbered_buildCount⟩
  · rw [sqlOf_compileWithRoot_erase e context auth auth root, h,
      ← sqlOf_compileWithRoot_erase e' context auth' auth root]
  · exact ⟨c.pred.tokens, c.pred.lexes.lex_eq, numbered_compileWithRoot h⟩

/-- The context of a `posts` table with a title and a view count. -/
def postsContext : FilterContext :=
  ⟨"posts", "c_posts", [("created", "timestamptz"), ("id", "text"), ("title", "text"),
    ("views", "bigint")], []⟩

def anonymousAuth : AuthContext := ⟨none, none, none, none, []⟩

/-- `title ~ 'a' && views > 3` on the second page of a listing. -/
def postsQuery : ReadQuery where
  selection := .all
  expand := .none
  filter := some (.and (.compare (.path ["title"]) .like (.value (.text "a")))
    (.compare (.path ["views"]) .gt (.value (.number (F64.ofNat 3)))))
  sort := [⟨["created"], true⟩]
  page := .keyset (some ⟨5, "r1"⟩) 2

theorem postsQuery_placeholders : ∃ built, buildList postsQuery postsContext anonymousAuth = .ok built ∧
    built.params = ["a", "3", "5", "r1", "2", "0"] ∧
    ListNumbered postsQuery postsContext anonymousAuth built := by
  have hbuilt : ∃ built, buildList postsQuery postsContext anonymousAuth = .ok built ∧
      built.params = ["a", "3", "5", "r1", "2", "0"] := ⟨_, rfl, by decide⟩
  obtain ⟨built, hbuilt, hparams⟩ := hbuilt
  exact ⟨built, hbuilt, hparams,
    values_never_influence_text.2.2.1 postsQuery postsContext anonymousAuth built hbuilt⟩

end LazyPock
