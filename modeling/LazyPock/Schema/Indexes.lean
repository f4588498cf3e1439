import LazyPock.Rls.Policy
import LazyPock.Schema.Ddl

/-!
# Custom collection indexes

The `indexes` list of a collection's options (`crates/db/src/indexes.rs`): the two spellings of a
declaration, its tokens, and the names the declared indexes resolve to. A name the collection's own
fields hold is left to them, and the declaration gets one with a hash of its content.

A token keeps the text after it, which stands for the byte offset of the source: the predicate of a
partial index is what follows its `where`.

## Main definitions

* `Indexes.IndexSpec`, `Indexes.IndexSpec.index`.
* `Indexes.tokenize`, `Indexes.parseOne`.
* `Indexes.reservedNames`, `Indexes.disambiguatedName`,
  `Indexes.parseAll`.

## Main results

* `Indexes.parseAll_nodup`: a list that resolves has no name twice.
* `Indexes.parseAll_name`: a declared index takes the name of an own one only by its hash.
-/

namespace LazyPock.Indexes

open Text Ddl

/-! ### Resolved declarations -/

/-- One column of an index. -/
structure IndexColumn where
  name : String
  descending : Bool
deriving DecidableEq, Repr

/-- A resolved index declaration. -/
structure IndexSpec where
  name : String
  unique : Bool
  columns : List IndexColumn
  /-- The `where` predicate, compiled to SQL. -/
  predicate : Option String
deriving DecidableEq, Repr

namespace IndexSpec

/-- The index the declaration asks for. -/
def index (spec : IndexSpec) (table : String) : Index :=
  ⟨table, spec.unique, spec.columns.map fun c => .column c.name c.descending, spec.predicate⟩

/-- `create [unique] index if not exists` -/
def createStatement (spec : IndexSpec) (table : String) : Statement :=
  .createIndex true spec.name (spec.index table)

def dropStatement (spec : IndexSpec) : Statement := .dropIndex spec.name

variable (sha : String → String)

/-- A hash of what the index indexes. -/
def signatureHash (spec : IndexSpec) : String :=
  let columns := join ", " (spec.columns.map fun c => c.name ++ if c.descending then " desc" else "")
  sha ((if spec.unique then "true" else "false") ++ "|" ++ columns ++ "|" ++ spec.predicate.getD "")

end IndexSpec

/-! ### Tokens -/

inductive TokenKind where
  /-- A bare or quoted identifier, or a keyword. -/
  | identifier
  /-- `(`, `)` or `,`. -/
  | punctuation
deriving DecidableEq, Repr

structure Token where
  text : String
  kind : TokenKind
  /-- The declaration from the end of the token on. -/
  rest : List Char
deriving DecidableEq, Repr

/-- `to_ascii_uppercase` -/
def toAsciiUppercase (s : String) : String :=
  String.ofList (s.toList.map fun c =>
    if isAsciiLower c then Char.ofNat (c.toNat - 32) else c)

def Token.upper (token : Token) : String := toAsciiUppercase token.text

def isWordChar (c : Char) : Bool := isAsciiAlphanumeric c || c = '_' || c = '$'

/-- Where the tokenizer stands: between tokens, in a word, or in a quoted identifier. -/
inductive Scan where
  | gap
  | word (read : List Char)
  | quoted (close : Char) (read : List Char)

/-- A character between tokens: a token it is by itself, and what it starts. -/
def gapStep (raw : String) (c : Char) (rest : List Char) : Result (List Token × Scan) :=
  if isWhitespace c then .ok ([], .gap)
  else if c = '(' ∨ c = ')' ∨ c = ',' then .ok ([⟨String.ofList [c], .punctuation, rest⟩], .gap)
  else if c = '"' then .ok ([], .quoted '"' [])
  else if c = '`' then .ok ([], .quoted '`' [])
  else if c = '[' then .ok ([], .quoted ']' [])
  else if isWordChar c then .ok ([], .word [c])
  else
    .error (.unsupported ("the index declaration " ++ debug raw ++ " contains " ++ debugQuoted c ++
      ", which is not supported; only plain columns and an optional WHERE predicate can be declared"))

def identifierToken (read rest : List Char) : Token := ⟨String.ofList read.reverse, .identifier, rest⟩

/-- The tokens from a position on. The scan ends after a bare `where`: what follows is a filter. -/
@[grind =]
def tokenizeFrom (raw : String) : Scan → List Char → Result (List Token)
  | .gap, [] => .ok []
  | .word read, [] => .ok [identifierToken read []]
  | .quoted _ _, [] =>
    .error (.invalid ("the index declaration " ++ debug raw ++
      " has an unterminated quoted identifier"))
  | .gap, c :: cs => do
    let (tokens, scan) ← gapStep raw c cs
    let others ← tokenizeFrom raw scan cs
    .ok (tokens ++ others)
  | .quoted close read, c :: cs =>
    if c = close then do
      let others ← tokenizeFrom raw .gap cs
      .ok (identifierToken read cs :: others)
    else tokenizeFrom raw (.quoted close (c :: read)) cs
  | .word read, c :: cs =>
    if isWordChar c then tokenizeFrom raw (.word (c :: read)) cs
    else
      let token := identifierToken read (c :: cs)
      if token.upper = "WHERE" then .ok [token]
      else do
        let (tokens, scan) ← gapStep raw c cs
        let others ← tokenizeFrom raw scan cs
        .ok (token :: tokens ++ others)

/-- Split a declaration into identifiers, quoted identifiers and punctuation. -/
def tokenize (raw : String) : Result (List Token) := tokenizeFrom raw .gap raw.toList

/-! ### Parsing -/

def render (tokens : List Token) : String := join " " (tokens.map Token.text)

def unexpected (table : String) (token : Token) : Error :=
  .invalid ("unexpected " ++ debug token.text ++ " in an index on collection " ++ debug table ++
    "; write a column name, a direction (ASC/DESC), a comma or a closing parenthesis")

def validateColumn (table name : String) (context : FilterContext) : Result String :=
  if context.hasColumn name then .ok name
  else .error (.invalid ("the index on collection " ++ debug table ++ " names the unknown column " ++
    debug name ++ "; it may index one of that collection's own columns"))

/-- What a column list goes on with. -/
inductive Expect where
  | column
  | direction (name : String)
  | separator

/-- The separator of a column list of the short form. -/
def expressionError (all : List Token) (token : Token) : Error :=
  .invalid ("unexpected " ++ debug token.text ++ " in the index " ++ debug (render all) ++
    "; the supported forms are an expression list (`UNIQUE email`, `created_at DESC, id`) or a full " ++
    "`CREATE INDEX ... ON <collection> (...)` statement")

section Parse

variable (table : String) (context : FilterContext)

/-- `column [ASC|DESC][, …]` to the end. -/
def expressionColumns (all : List Token) : Expect → List Token → Result (List IndexColumn)
  | .column, [] =>
    .error (.invalid ("the index " ++ debug (render all) ++
      " has no column; write e.g. \"UNIQUE email\" or \"created_at DESC, id\""))
  | .column, token :: rest =>
    if token.kind ≠ .identifier then .error (unexpected table token)
    else expressionColumns all (.direction token.text) rest
  | .direction name, [] => do
    let column ← validateColumn table name context
    .ok [⟨column, false⟩]
  | .direction name, token :: rest => do
    let column ← validateColumn table name context
    if token.upper = "ASC" ∨ token.upper = "DESC" then
      let others ← expressionColumns all .separator rest
      .ok (⟨column, token.upper = "DESC"⟩ :: others)
    else if token.text = "," then
      let others ← expressionColumns all .column rest
      .ok (⟨column, false⟩ :: others)
    else .error (expressionError all token)
  | .separator, [] => .ok []
  | .separator, token :: rest =>
    if token.text = "," then expressionColumns all .column rest
    else .error (expressionError all token)

/-- `[UNIQUE] column [ASC|DESC][, …]` -/
def parseExpression (tokens : List Token) : Result IndexSpec := do
  let unique := tokens.head?.any fun token => token.upper = "UNIQUE"
  let columns ← expressionColumns table context tokens .column (if unique then tokens.tail else tokens)
  .ok ⟨"", unique, columns, none⟩

def unterminated (name : String) : Error :=
  .invalid ("the index " ++ debug name ++ " has an unterminated column list")

/-- The column list of a statement, from after its `(`, and the tokens after its `)`. -/
def statementColumns (name : String) :
    Expect → List Token → Result (List IndexColumn × List Token)
  | .column, [] => .error (unterminated name)
  | .column, token :: rest =>
    if token.text = "(" then
      .error (.unsupported ("the index " ++ debug name ++ " uses an expression; only plain " ++
        "columns are supported. Drop it from the file, or declare the columns it is built from"))
    else if token.kind ≠ .identifier then .error (unexpected table token)
    else statementColumns name (.direction token.text) rest
  | .direction column, [] => do
    let _ ← validateColumn table column context
    .error (unterminated name)
  | .direction column, token :: rest =>
    if token.upper ∈ ["COLLATE", "NULLS", "USING", "INCLUDE"] then
      .error (.unsupported ("the index " ++ debug name ++ " uses `" ++ token.upper ++
        "`, which is not supported; remove it from the declaration"))
    else do
      let column ← validateColumn table column context
      if token.upper = "ASC" ∨ token.upper = "DESC" then
        let (others, after) ← statementColumns name .separator rest
        .ok (⟨column, token.upper = "DESC"⟩ :: others, after)
      else if token.text = "," then
        let (others, after) ← statementColumns name .column rest
        .ok (⟨column, false⟩ :: others, after)
      else if token.text = ")" then .ok ([⟨column, false⟩], rest)
      else .error (unexpected table token)
  | .separator, [] => .error (unterminated name)
  | .separator, token :: rest =>
    if token.text = "," then statementColumns name .column rest
    else if token.text = ")" then .ok ([], rest)
    else .error (unexpected table token)

/-- Take a keyword. -/
def expectKeyword (raw keyword : String) : List Token → Result (List Token)
  | [] =>
    .error (.invalid ("the index declaration " ++ debug raw ++ " ended where `" ++ keyword ++
      "` was expected"))
  | token :: rest =>
    if token.upper ≠ keyword then
      .error (.invalid ("expected `" ++ keyword ++ "` in the index declaration " ++ debug raw ++
        ", found " ++ debug token.text))
    else .ok rest

/-- Take a keyword where it is there. -/
def optionalKeyword (keyword : String) : List Token → Bool × List Token
  | [] => (false, [])
  | token :: rest => if token.upper = keyword then (true, rest) else (false, token :: rest)

/-- The predicate after a column list: the rest of the declaration is a filter. -/
def statementPredicate (name : String) : List Token → Result (Option String)
  | [] => .ok none
  | token :: _ =>
    if token.upper ≠ "WHERE" then
      .error (.unsupported ("unexpected " ++ debug token.text ++ " in the index " ++ debug name ++
        "; only a plain column list and an optional WHERE predicate are supported"))
    else do
      let filter := String.ofList (token.rest.filter fun c => c ≠ '`')
      let expression ← Filter.parse (trim filter)
      let predicate ← Policy.predicate context expression
      .ok (some predicate.text)

/-- The index name of a statement. -/
def statementName : List Token → Result (String × List Token)
  | [] => .error (.invalid "a CREATE INDEX statement needs an index name")
  | token :: rest =>
    if token.kind ≠ .identifier then .error (unexpected table token)
    else do
      validateIdentifier "index name" token.text
      .ok (token.text, rest)

/-- The table of a statement and the `(` after it. -/
def statementTarget (name : String) : List Token → Result (List Token)
  | [] => .error (.invalid "a CREATE INDEX statement needs a table name")
  | token :: rest =>
    if token.kind ≠ .identifier ∨ token.upper ≠ toAsciiUppercase table then
      .error (.invalid ("the index " ++ debug name ++ " is declared on " ++ debug token.text ++
        " but the collection is " ++ debug table))
    else match rest with
      | [] =>
        .error (.invalid ("the index " ++ debug name ++ " needs a column list in parentheses"))
      | paren :: rest =>
        if paren.text ≠ "(" then
          .error (.invalid ("unexpected " ++ debug paren.text ++
            " after the table name in the index " ++ debug name ++ "; expected `(`"))
        else .ok rest

/-- `CREATE [UNIQUE] INDEX [IF NOT EXISTS] name ON table (column [ASC|DESC], …) [WHERE …]` -/
def parseStatement (raw : String) (tokens : List Token) : Result IndexSpec := do
  let tokens ← expectKeyword raw "CREATE" tokens
  let (unique, tokens) := optionalKeyword "UNIQUE" tokens
  let tokens ← expectKeyword raw "INDEX" tokens
  let (guarded, tokens) := optionalKeyword "IF" tokens
  let tokens ← if guarded then do
      let tokens ← expectKeyword raw "NOT" tokens
      expectKeyword raw "EXISTS" tokens
    else .ok tokens
  let (name, tokens) ← statementName table tokens
  let tokens ← expectKeyword raw "ON" tokens
  let tokens ← statementTarget table name tokens
  let (columns, tokens) ← statementColumns table context name .column tokens
  let predicate ← statementPredicate context name tokens
  .ok ⟨name, unique, columns, predicate⟩

/-- Parse one declaration. -/
def parseOne (raw : String) : Result IndexSpec := do
  let tokens ← tokenize raw
  match tokens with
  | [] => .error (.invalid "an index declaration must not be empty")
  | first :: second :: _ :: _ =>
    if first.upper = "CREATE" ∧ (second.upper = "UNIQUE" ∨ second.upper = "INDEX") then
      parseStatement table context raw tokens
    else parseExpression table context tokens
  | _ => parseExpression table context tokens

end Parse

/-! ### Names -/

section Names

variable (sha : String → String)

/-- Index names a collection already has from its own definition. -/
def reservedNames (collection : Collection) : List String :=
  (collection.fields.filter fun f => f.isUnique || f.isIndexed).map
      (fun f => indexName sha collection.name f.name) ++
    if collection.collectionType.isAuth then [indexName sha collection.name "email"] else []

def generatedName (table : String) (columns : List IndexColumn) : String :=
  let suffix := join "_" (columns.map IndexColumn.name)
  let base := "idx_" ++ table ++ "_" ++ suffix
  if byteLen base ≤ maxIdentifierLen then base
  else
    let name := indexName sha table suffix
    if maxIdentifierLen < byteLen name then cut name maxIdentifierLen else name

def disambiguatedName (base hash : String) : String :=
  let suffix := "_" ++ hash
  let keep := maxIdentifierLen - byteLen suffix
  cut base (min (byteLen base) keep) ++ suffix

/-- A declaration with a name: its own, or a generated one. -/
def named (table : String) (spec : IndexSpec) : IndexSpec :=
  if spec.name = "" then { spec with name := generatedName sha table spec.columns } else spec

/-- A declaration whose name is taken, under a name with a hash of its content. -/
def disambiguated (spec : IndexSpec) : IndexSpec :=
  { spec with name := disambiguatedName spec.name (spec.signatureHash sha) }

/-- The name a parsed declaration gets where `taken` are taken. -/
def resolveName (table : String) (taken : List String) (spec : IndexSpec) : IndexSpec :=
  let spec := named sha table spec
  if spec.name ∈ taken then disambiguated sha spec else spec

/-- Resolve the rest of a list: `taken` are the names that are taken, `specs` what is resolved. -/
def parseAllFrom (table : String) (context : FilterContext) (taken : List String)
    (specs : List IndexSpec) : List String → Result (List IndexSpec)
  | [] => .ok specs
  | raw :: rest => do
    let parsed ← parseOne table context raw
    let spec := resolveName sha table taken parsed
    failIf (spec.name ∈ specs.map IndexSpec.name)
      (.invalid ("the index name " ++ debug spec.name ++
        " is declared more than once for collection " ++ debug table))
    parseAllFrom table context (spec.name :: taken) (specs ++ [spec]) rest

/-- Resolve a whole `indexes` list against a collection. -/
def parseAll (collection : Collection) (declared : List String) (context : FilterContext) :
    Result (List IndexSpec) :=
  parseAllFrom sha collection.name context (reservedNames sha collection) [] declared

variable {context : FilterContext} {declared : List String}

theorem parseAllFrom_nodup {table : String} {taken : List String}
    {specs resolved : List IndexSpec}
    (hspecs : (specs.map IndexSpec.name).Nodup)
    (h : parseAllFrom sha table context taken specs declared = .ok resolved) :
    (resolved.map IndexSpec.name).Nodup := by
  induction declared generalizing taken specs with
  | nil =>
    rw [parseAllFrom, Except.ok.injEq] at h
    exact h ▸ hspecs
  | cons raw rest ih =>
    obtain ⟨parsed, -, h⟩ := bind_eq_ok.mp h
    obtain ⟨_, hfresh, h⟩ := bind_eq_ok.mp h
    rw [failIf_eq_ok] at hfresh
    refine ih ?_ h
    rw [List.map_append, List.nodup_append]
    refine ⟨hspecs, by simp, ?_⟩
    rintro a ha b hb rfl
    rw [List.map_singleton, List.mem_singleton] at hb
    exact hfresh (hb ▸ ha)

/-- **A list that resolves has no name twice.** -/
theorem parseAll_nodup {collection : Collection}
    {specs : List IndexSpec} (h : parseAll sha collection declared context = .ok specs) :
    (specs.map IndexSpec.name).Nodup :=
  parseAllFrom_nodup sha (by simp) h

/-- A resolved name is none that was taken, unless the hash makes it one. -/
theorem parseAllFrom_name {table : String} {taken : List String}
    {specs resolved : List IndexSpec} {name : String}
    (hname : name ∈ taken)
    (h : parseAllFrom sha table context taken specs declared = .ok resolved) {spec : IndexSpec}
    (hspec : spec ∈ resolved) (heq : spec.name = name) :
    spec ∈ specs ∨ ∃ raw ∈ declared, ∃ parsed, parseOne table context raw = .ok parsed ∧
      (disambiguated sha (named sha table parsed)).name = name := by
  induction declared generalizing taken specs with
  | nil =>
    rw [parseAllFrom, Except.ok.injEq] at h
    exact .inl (h ▸ hspec)
  | cons raw rest ih =>
    obtain ⟨parsed, hparsed, h⟩ := bind_eq_ok.mp h
    obtain ⟨_, -, h⟩ := bind_eq_ok.mp h
    rcases ih (List.mem_cons_of_mem _ hname) h with hmem | ⟨raw', hraw', hcollides⟩
    · rcases List.mem_append.mp hmem with hmem | hmem
      · exact .inl hmem
      · obtain rfl := List.mem_singleton.mp hmem
        refine .inr ⟨raw, by simp, parsed, hparsed, ?_⟩
        unfold resolveName at heq
        dsimp only at heq
        split_ifs at heq with htaken
        · exact heq
        · exact absurd (heq ▸ hname) htaken
    · exact .inr ⟨raw', List.mem_cons_of_mem _ hraw', hcollides⟩

/-- The declared indexes of a collection leave the names of its own alone, up to the hash. -/
theorem parseAll_name {collection : Collection}
    {specs : List IndexSpec} {name : String} (hname : name ∈ reservedNames sha collection)
    (h : parseAll sha collection declared context = .ok specs) {spec : IndexSpec}
    (hspec : spec ∈ specs) (heq : spec.name = name) :
    ∃ raw ∈ declared, ∃ parsed, parseOne collection.name context raw = .ok parsed ∧
      (disambiguated sha (named sha collection.name parsed)).name = name :=
  (parseAllFrom_name sha hname h hspec heq).resolve_left (by simp)

end Names

end LazyPock.Indexes
