import LazyPock.Rls.Policy

/-!
# A collection's rules as policy statements

The statements of `crates/db/src/rls/policies.rs`: row-level security is switched on, every policy
the server knows is dropped, and one policy is created for each rule that is present. They are sent
as one text, joined by semicolons.

The text is read back by the lexical rules of SQL. Each statement reads as its own tokens, none of
which is a semicolon, so the text splits exactly where the server joined it, whatever the rules
hold.

## Main definitions

* `Policies.Command`, `Policies.Statement`.
* `Policies.Rule`, `Policies.ruleOf`, `Policies.predicateOf`.
* `Policies.RuleSpec`, `Policies.rules`, `Policies.selectMirrors`.
* `Policies.statements`, `Policies.batch`.

## Main results

* `Policies.lexes_batch`: the tokens of the batch are those of its statements, a semicolon
  between any two.
* `Policies.rule_literals_cannot_break_out`.
-/

namespace LazyPock.Policies

open Text Sql

/-! ### Statements -/

/-- The command a policy is for. -/
inductive Command where
  | select
  | insert
  | update
  | delete
  | all
deriving DecidableEq, Repr

def Command.sql : Command → String
  | select => "select"
  | insert => "insert"
  | update => "update"
  | delete => "delete"
  | all => "all"

/-- The roles every policy is scoped to. -/
def roles : List String := ["lazypock_anon", "lazypock_authenticated"]

/-- A statement about the policies of a table. -/
inductive Statement where
  /-- `alter table t enable row level security` -/
  | enable (table : String)
  /-- `drop policy if exists name on t` -/
  | drop (name table : String)
  /-- `create policy name on t for command to roles [using (…)] [with check (…)]` -/
  | create (name table : String) (command : Command) (reads writes : Option Pred)
deriving DecidableEq

/-- A clause of a policy: a keyword and a condition in parentheses. -/
def clauseText (keyword : String) : Option Pred → String
  | none => ""
  | some pred => " " ++ keyword ++ " (" ++ pred.text ++ ")"

/-- What stands between the table and the clauses of a policy. -/
def scopeText (command : Command) : String :=
  " for " ++ command.sql ++ " to " ++ join ", " roles

def Statement.text : Statement → String
  | enable table => "alter table " ++ quoteIdent table ++ " enable row level security"
  | drop name table => "drop policy if exists " ++ quoteIdent name ++ " on " ++ quoteIdent table
  | create name table command reads writes =>
    "create policy " ++ quoteIdent name ++ " on " ++ quoteIdent table ++ scopeText command ++
      clauseText "using" reads ++ clauseText "with check" writes

@[simp] theorem Statement.text_enable (table : String) : (enable table).text =
    "alter table " ++ quoteIdent table ++ " enable row level security" := rfl

@[simp] theorem Statement.text_drop (name table : String) : (drop name table).text =
    "drop policy if exists " ++ quoteIdent name ++ " on " ++ quoteIdent table := rfl

@[simp] theorem Statement.text_create (name table : String) (command : Command)
    (reads writes : Option Pred) : (create name table command reads writes).text =
      "create policy " ++ quoteIdent name ++ " on " ++ quoteIdent table ++ scopeText command ++
        clauseText "using" reads ++ clauseText "with check" writes := rfl

/-! ### Rules -/

/-- The three states a rule can be in. -/
inductive Rule where
  /-- Nobody but the service may do this. -/
  | absent
  /-- Anyone may. -/
  | publicAccess
  | filter (expr : Expr)
deriving DecidableEq

def ruleOf (rules : Json) (key : String) : Result Rule :=
  match rules.get key with
  | none | some .null => .ok .absent
  | some (.string text) =>
    if trim text = "" then .ok .publicAccess
    else do
      let expr ← Filter.parse text
      .ok (.filter expr)
  | some other =>
    .error (.invalid ("the " ++ key ++ " rule must be a string or null, got " ++ other.render))

def predicateOf (rule : Rule) (context : FilterContext) : Result (Option Pred) :=
  match rule with
  | .absent => .ok none
  | .publicAccess => .ok (some .true)
  | .filter expr => do
    let pred ← Policy.predicate context expr
    .ok (some pred)

/-- The guard of a policy that is for one action of the request only. -/
def actionGuard (action : String) : Pred :=
  .compare (.setting "request.action") .eq (.lit action)

/-- The statement that creates a policy. Only a `select` policy carries a guard. -/
def policyStatement (name table : String) (command : Command) (predicate : Pred)
    (guard : Option String) : Statement :=
  let guarded := match guard with
    | some action => Pred.guarded (actionGuard action) predicate
    | none => predicate
  match command with
  | .select => .create name table .select (some guarded) none
  | .insert => .create name table .insert none (some predicate)
  | .update => .create name table .update (some predicate) (some predicate)
  | .delete => .create name table .delete (some predicate) none
  | .all => .create name table .all (some guarded) (some guarded)

/-- A rule key with the policy it becomes. -/
structure RuleSpec where
  key : String
  /-- The name of the policy. -/
  name : String
  command : Command
  /-- The action of the request the policy is for. -/
  guard : Option String

/-- `RULES` -/
def rules : List RuleSpec :=
  [⟨"listRule", "lazypock_list", .select, some "list"⟩,
   ⟨"viewRule", "lazypock_view", .select, some "view"⟩,
   ⟨"createRule", "lazypock_create", .insert, none⟩,
   ⟨"updateRule", "lazypock_update", .update, none⟩,
   ⟨"deleteRule", "lazypock_delete", .delete, none⟩]

/-- `SELECT_MIRRORS`: what a write needs to find its row. -/
def selectMirrors : List RuleSpec :=
  [⟨"updateRule", "lazypock_update_select", .select, some "update"⟩,
   ⟨"deleteRule", "lazypock_delete_select", .select, some "delete"⟩]

/-- The policy a `manageRule` becomes: it grants every action, so it is not guarded. -/
def manage : RuleSpec := ⟨"manageRule", "lazypock_manage", .all, none⟩

/-- Every policy name the server creates and drops. -/
def policyNames : List String :=
  rules.map RuleSpec.name ++ selectMirrors.map RuleSpec.name ++ [manage.name]

/-- Every rule that becomes a policy, in the order of the statements. -/
def allSpecs : List RuleSpec := [manage] ++ rules ++ selectMirrors

/-- The policy of a rule, where it is present. -/
def createPolicy (table : String) (ruleSet : Json) (context : FilterContext) (spec : RuleSpec) :
    Result (List Statement) := do
  let rule ← ruleOf ruleSet spec.key
  let predicate ← predicateOf rule context
  .ok (match predicate with
    | some predicate => [policyStatement spec.name table spec.command predicate spec.guard]
    | none => [])

def createPolicies (table : String) (ruleSet : Json) (context : FilterContext) :
    List RuleSpec → Result (List Statement)
  | [] => .ok []
  | spec :: rest => do
    let first ← createPolicy table ruleSet context spec
    let others ← createPolicies table ruleSet context rest
    .ok (first ++ others)

/-- The statements that drop every policy the server knows. -/
def dropPolicies (table : String) : List Statement := policyNames.map fun name => .drop name table

/-- The statements that (re)create a collection's policies. -/
def statements (collection : Collection) (context : FilterContext) : Result (List Statement) := do
  let table := collection.name
  let created ← createPolicies table collection.rules context allSpecs
  .ok (.enable table :: dropPolicies table ++ created)

/-- The text that is sent to the database. -/
def batch (statements : List Statement) : String := join ";\n" (statements.map Statement.text)

/-! ### Tokens -/

@[grind =]
def clauseTokens (keyword : List Token) : Option Pred → List Token
  | none => []
  | some pred => keyword ++ .sym "(" :: (pred.tokens ++ [.sym ")"])

def scopeTokens (command : Command) : List Token :=
  [.word "for", .word command.sql, .word "to", .word "lazypock_anon", .sym ",",
    .word "lazypock_authenticated"]

@[grind =]
def Statement.tokens : Statement → List Token
  | enable table =>
    [.word "alter", .word "table", .quoted table, .word "enable", .word "row", .word "level",
      .word "security"]
  | drop name table =>
    [.word "drop", .word "policy", .word "if", .word "exists", .quoted name, .word "on",
      .quoted table]
  | create name table command reads writes =>
    [.word "create", .word "policy", .quoted name, .word "on", .quoted table] ++
      scopeTokens command ++ clauseTokens [.word "using"] reads ++
      clauseTokens [.word "with", .word "check"] writes

theorem Statement.semicolon_notMem (s : Statement) : Token.sym ";" ∉ s.tokens := by
  have hclause : ∀ (keyword : List Token) (pred : Option Pred), Token.sym ";" ∉ keyword →
      Token.sym ";" ∉ clauseTokens keyword pred := by
    intro keyword pred hkeyword
    cases pred with
    | none => simp [clauseTokens]
    | some pred => simp [clauseTokens, hkeyword, pred.semicolon_notMem]
  cases s with
  | enable table => simp [tokens]
  | drop name table => simp [tokens]
  | create name table command reads writes =>
    simp [tokens, scopeTokens, hclause]

/-- A text followed by a clause. -/
theorem lexes_clause {a : List Char} {ts : List Token} (ha : Lexes a ts) (keyword : String)
    (ks : List Token) (hdelim : Delim (" " ++ keyword ++ " (").toList)
    (hrun : run .start (" " ++ keyword ++ " (").toList = (ks ++ [.sym "("], .start))
    (pred : Option Pred) :
    Lexes (a ++ (clauseText keyword pred).toList) (ts ++ clauseTokens ks pred) := by
  cases pred with
  | none => simpa [clauseText, clauseTokens] using ha
  | some pred =>
    have h := ha.between hdelim (by simp) hrun pred.lexes.closed
    simpa [clauseText, clauseTokens] using h

/-- **A statement reads as its tokens**, whatever its names and conditions hold. -/
theorem Statement.lexes (s : Statement) : Lexes s.text.toList s.tokens := by
  cases s with
  | enable table =>
    have hhead : run .start "alter table ".toList = ([.word "alter", .word "table"], .start) := by
      decide
    have htail : Lexes " enable row level security".toList
        [.word "enable", .word "row", .word "level", .word "security"] := by decide
    have h := Lexes.after hhead ((lexes_quoteIdent table).append (by simp [Delim, isBlank])
      (by simp) htail)
    simpa [tokens] using h
  | drop name table =>
    have hhead : run .start "drop policy if exists ".toList =
        ([.word "drop", .word "policy", .word "if", .word "exists"], .start) := by decide
    have hon : run .start " on ".toList = ([.word "on"], .start) := by decide
    have h := Lexes.after hhead ((lexes_quoteIdent name).between (by simp [Delim, isBlank])
      (by simp) hon (lexes_quoteIdent table))
    simpa [tokens] using h
  | create name table command reads writes =>
    have hhead : run .start "create policy ".toList =
        ([.word "create", .word "policy"], .start) := by decide
    have hon : run .start " on ".toList = ([.word "on"], .start) := by decide
    have hscope : Lexes (scopeText command).toList (scopeTokens command) := by
      cases command <;> decide +kernel
    have hdelim : Delim (scopeText command).toList ∧ (scopeText command).toList ≠ [] ∧
        (scopeText command).toList ≠ [' '] := by
      cases command <;> decide +kernel
    have htable := Lexes.after hhead ((lexes_quoteIdent name).between (by simp [Delim, isBlank])
      (by simp) hon (lexes_quoteIdent table))
    have hreads := lexes_clause (htable.append hdelim.1 hdelim.2 hscope) "using"
      [.word "using"] (by decide) (by decide) reads
    have hwrites := lexes_clause hreads "with check"
      [.word "with", .word "check"] (by decide) (by decide) writes
    simpa [tokens, List.append_assoc] using hwrites

/-- **The batch splits where it was joined.** -/
theorem lexes_batch {ss : List Statement} (h : ss ≠ []) :
    Lexes (batch ss).toList ([Token.sym ";"].intercalate (ss.map Statement.tokens)) := by
  have hsep : run .start ";\n".toList = ([.sym ";"], .start) := by decide +kernel
  induction ss with
  | nil => exact absurd rfl h
  | cons s ss ih =>
    cases ss with
    | nil => simpa [batch, join, List.intercalate] using s.lexes
    | cons t rest =>
      have h := s.lexes.between (by simp [Delim]) (by simp) hsep (ih (by simp))
      simpa [batch, join, List.intercalate] using h

theorem statements_ne_nil {collection : Collection} {context : FilterContext} {ss : List Statement}
    (h : statements collection context = .ok ss) : ss ≠ [] := by
  obtain ⟨created, -, h⟩ := bind_eq_ok.mp h
  rw [Except.ok.injEq] at h
  simp [← h]

/-- The tokens of a batch, cut at the semicolons, are those of its statements. -/
theorem splitOn_batch {ss : List Statement} (h : ss ≠ []) :
    (lex (batch ss).toList).map (List.splitOn (.sym ";")) = some (ss.map Statement.tokens) := by
  rw [(lexes_batch h).lex_eq, Option.map_some]
  congr 1
  refine List.splitOn_intercalate (Token.sym ";") ?_ (by simpa using h)
  intro ts hts
  obtain ⟨s, -, rfl⟩ := List.mem_map.mp hts
  exact s.semicolon_notMem

/-- **Rule literals cannot break out of a policy.** The text of an accepted rule reads as one
expression, closed in its parentheses and without a semicolon, whose frame depends on the shape of
the rule only and whose slots hold the rule's literals: every text and every claim name is one
string constant. The statements of a collection, joined by semicolons, split exactly where they were
joined. -/
theorem rule_literals_cannot_break_out (context : FilterContext) :
    (∀ e p, Policy.predicate context e = .ok p →
      lex p.text.toList = some p.tokens ∧ p.tokens = fill p.skeleton e.literals ∧
      p.skeleton.count none = e.literals.length ∧
      nesting p.tokens 0 = some 0 ∧ Token.sym ";" ∉ p.tokens ∧
      ∀ e' p', e'.shape = e.shape → Policy.predicate context e' = .ok p' →
        p'.skeleton = p.skeleton) ∧
    ∀ collection ss, statements collection context = .ok ss →
      ∃ tss : List (List Token), ss.map (fun s => lex s.text.toList) = tss.map some ∧
        (∀ ts ∈ tss, Token.sym ";" ∉ ts) ∧
        (lex (batch ss).toList).map (List.splitOn (.sym ";")) = some tss := by
  constructor
  · intro e p hp
    have hvalues : p.values = e.literals := (Policy.predicate_inlines hp).values
    refine ⟨p.lexes.lex_eq, ?_, ?_, p.nesting_tokens, p.semicolon_notMem, ?_⟩
    · rw [p.tokens_eq_fill, hvalues]
    · rw [p.count_skeleton, hvalues]
    · intro e' p' hshape hp'
      exact Policy.skeleton_eq_of_shape hshape hp hp'
  · intro collection ss hss
    refine ⟨ss.map Statement.tokens, ?_, ?_, splitOn_batch (statements_ne_nil hss)⟩
    · simp [Function.comp_def, (Statement.lexes _).lex_eq]
    · intro ts hts
      obtain ⟨s, -, rfl⟩ := List.mem_map.mp hts
      exact s.semicolon_notMem

/-- A collection of posts with a text column, readable by everyone who asks for the one title. -/
def titledPosts : Collection where
  id := "c1"
  name := "posts"
  collectionType := .base
  options := .object []
  rules := .object [("listRule", .string "title = \"it's; --\"")]
  fields := []

def titledContext : FilterContext where
  table := "posts"
  collectionId := "c1"
  columns := [("title", "text")]
  relations := []

theorem titledPosts_cannot_break_out :
    (∃ p, Policy.predicate titledContext
        (.compare (.path ["title"]) .eq (.value (.text "it's; --"))) = .ok p ∧
      lex p.text.toList =
        some [.quoted "title", .sym "=", .str "it's; --", .sym "::", .word "text"]) ∧
    ∃ ss, statements titledPosts titledContext = .ok ss ∧
      ∃ tss : List (List Token), ss.map (fun s => lex s.text.toList) = tss.map some ∧
        (∀ ts ∈ tss, Token.sym ";" ∉ ts) ∧
        (lex (batch ss).toList).map (List.splitOn (.sym ";")) = some tss := by
  have h := rule_literals_cannot_break_out titledContext
  have hp : Policy.predicate titledContext (.compare (.path ["title"]) .eq
      (.value (.text "it's; --"))) = .ok (.compare (.column none "title") .eq
        (.cast (.str "it's; --") .text)) := rfl
  refine ⟨⟨_, hp, (h.1 _ _ hp).1⟩, ?_⟩
  obtain ⟨ss, hss⟩ := isOk_iff.mp (show isOk (statements titledPosts titledContext) by decide +kernel)
  exact ⟨ss, hss, h.2 _ _ hss⟩

end LazyPock.Policies
