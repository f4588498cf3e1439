import LazyPock.Rls.Policy

/-!
# The rules of the files

Who may list and delete files is data: the `files` setting (`crates/files/src/rules.rs`). Its rules
become policies of `_files` (`crates/files/src/policy.rs`), which are all dropped and made anew each
time.

## Main definitions

* `Files.FileRule`, `Files.FileRules.fromSetting`.
* `Files.PolicyStatement`, `Files.policyStatements`: the policies of the rules.
* `Files.PolicyStatement.execAll`: what becomes of the policies of `_files`.

## Main results

* `Files.execAll_policyStatements`: which policies were there before is of no matter.
-/

namespace LazyPock.Files

open Text Filter

/-! ### Rules -/

/-- The columns a file rule may name, with their Postgres types. -/
def ruleColumns : List (String × String) :=
  [("id", "text"), ("filename", "text"), ("extension", "text"), ("mime_type", "text"),
    ("size", "bigint"), ("storage_path", "text"), ("storage_backend", "text"),
    ("collection_name", "text"), ("record_id", "text"), ("field_name", "text"),
    ("variants", "jsonb"), ("status", "text"), ("original_name", "text"), ("width", "integer"),
    ("height", "integer"), ("checksum", "text"), ("origin", "text"), ("uploaded_by", "text"),
    ("attached_at", "timestamptz"), ("created_at", "timestamptz"), ("updated_at", "timestamptz")]

/-- The context a file rule is compiled against: a rule reaches no other table. -/
def ruleContext : FilterContext := ⟨"_files", "", ruleColumns, []⟩

/-- One rule, in its three states. -/
inductive FileRule where
  /-- Absent, `null` or unreadable. -/
  | superusersOnly
  | publicAccess
  | filter (expr : Expr)
deriving DecidableEq

/-- Read one rule out of the setting. -/
def FileRule.parse : Option Json → Result FileRule
  | none | some .null => .ok .superusersOnly
  | some (.string text) =>
    if text = "" then .ok .publicAccess
    else if trim text = "" then .error (.invalid ("a file rule is whitespace only; write a filter " ++
      "or leave it empty to make it public"))
    else do
      let expr ← Filter.parse text
      .ok (.filter expr)
  | some other => .error (.invalid ("a file rule must be a string or null, got " ++ other.render))

/-- The two rules of the files. -/
structure FileRules where
  list : FileRule
  delete : FileRule
deriving DecidableEq

/-- Read both rules from the setting: one that cannot be read denies. -/
def FileRules.fromSetting (setting : Json) : FileRules :=
  let rules := (setting.get "rules").getD .null
  let read (key : String) := match FileRule.parse (rules.get key) with
    | .ok rule => rule
    | .error _ => .superusersOnly
  ⟨read "listRule", read "deleteRule"⟩

/-! ### Policies -/

/-- A policy of `_files`. -/
structure FilePolicy where
  command : String
  reads : String
  writes : Option String
deriving DecidableEq

/-- A statement about the policies of the files. -/
inductive PolicyStatement where
  /-- `alter table t enable row level security` -/
  | enable (table : String)
  /-- `drop policy if exists name on _files` -/
  | drop (name : String)
  /-- `create policy name on _files for command to roles using (…) [with check (…)]` -/
  | create (name : String) (policy : FilePolicy)
deriving DecidableEq

/-- The text that is sent to the database. -/
def PolicyStatement.text : PolicyStatement → String
  | enable table => "alter table " ++ table ++ " enable row level security"
  | drop name => "drop policy if exists " ++ name ++ " on _files"
  | create name policy => "create policy " ++ name ++ " on _files for " ++ policy.command ++
      " to lazypock_anon, lazypock_authenticated using (" ++ policy.reads ++ ")" ++
      ((policy.writes.map fun check => " with check (" ++ check ++ ")").getD "")

/-- Every policy that is created and dropped. -/
def policyNames : List String :=
  ["lazypock_files_list", "lazypock_files_view", "lazypock_files_delete",
    "lazypock_files_delete_select", "lazypock_files_attach", "lazypock_files_attach_select"]

/-- The condition of a rule; a rule for superusers only has none. -/
def rulePredicate : FileRule → Result (Option String)
  | .superusersOnly => .ok none
  | .publicAccess => .ok (some "true")
  | .filter expr => do
    let pred ← Policy.predicate ruleContext expr
    .ok (some pred.text)

/-- A condition for one action of the request only. -/
def duringAction (action condition : String) : String :=
  "current_setting('request.action', true) = '" ++ action ++ "'" ++ condition

/-- The policies of a rule for listing. -/
def listPolicies (predicate : String) : List PolicyStatement :=
  [.create "lazypock_files_list" ⟨"select", duringAction "list" (" and (" ++ predicate ++ ")"), none⟩]

/-- The policies of a rule for deleting: the rows a delete reads are selected. -/
def deletePolicies (predicate : String) : List PolicyStatement :=
  [.create "lazypock_files_delete" ⟨"delete", predicate, none⟩,
    .create "lazypock_files_delete_select"
      ⟨"select", duringAction "delete" (" and (" ++ predicate ++ ")"), none⟩]

/-- Attaching is an update of an upload the caller owns. -/
def attachPolicies : List PolicyStatement :=
  [.create "lazypock_files_attach"
      ⟨"update", "uploaded_by = auth.uid()", some "uploaded_by = auth.uid()"⟩,
    .create "lazypock_files_attach_select"
      ⟨"select", duringAction "update" " and uploaded_by = auth.uid()", none⟩]

/-- The policies that the rules ask for. -/
def createdPolicies (rules : FileRules) : Result (List PolicyStatement) := do
  let list ← rulePredicate rules.list
  let delete ← rulePredicate rules.delete
  .ok (.create "lazypock_files_view" ⟨"select", duringAction "view" "", none⟩ ::
    ((list.map listPolicies).getD [] ++ (delete.map deletePolicies).getD [] ++ attachPolicies))

/-- The statements that (re)create the policies of the files. -/
def policyStatements (rules : FileRules) : Result (List PolicyStatement) := do
  let created ← createdPolicies rules
  .ok (.enable "_files" :: .enable "_file_refs" :: (policyNames.map PolicyStatement.drop ++ created))

/-- The policies of `_files`, by name. -/
abbrev Policies := String → Option FilePolicy

/-- What a statement does, where the database accepts the conditions of a policy. -/
def PolicyStatement.exec (accepts : FilePolicy → Bool) (policies : Policies) :
    PolicyStatement → Option Policies
  | enable _ => some policies
  | drop name => some (Function.update policies name none)
  | create name policy =>
    if (policies name).isNone && accepts policy then
      some (Function.update policies name (some policy))
    else none

/-- Statements in turn. -/
def PolicyStatement.execAll (accepts : FilePolicy → Bool) :
    List PolicyStatement → Policies → Option Policies
  | [], policies => some policies
  | statement :: rest, policies =>
    (statement.exec accepts policies).bind (execAll accepts rest)

/-- Only policies that the server knows. -/
def Known (policies : Policies) : Prop := ∀ name, name ∉ policyNames → policies name = none

section Statements

variable {accepts : FilePolicy → Bool} {policies after : Policies} {rules : FileRules}

theorem execAll_append (first rest : List PolicyStatement) :
    PolicyStatement.execAll accepts (first ++ rest) policies =
      (PolicyStatement.execAll accepts first policies).bind
        (PolicyStatement.execAll accepts rest) := by
  induction first generalizing policies with
  | nil => rfl
  | cons statement first ih =>
    simp only [List.cons_append, PolicyStatement.execAll]
    cases statement.exec accepts policies with
    | none => rfl
    | some mid => exact ih

/-- Dropping policies leaves the others. -/
theorem execAll_drop (names : List String) :
    PolicyStatement.execAll accepts (names.map .drop) policies =
      some fun name => if name ∈ names then none else policies name := by
  induction names generalizing policies with
  | nil => simp [PolicyStatement.execAll]
  | cons first names ih =>
    rw [List.map_cons, PolicyStatement.execAll, PolicyStatement.exec, Option.bind_some, ih]
    congr 1
    funext name
    by_cases hname : name = first
    · simp [hname]
    · simp [hname]

/-- **The policies are made anew**: which of them were there before is of no matter. -/
theorem execAll_policyStatements {statements : List PolicyStatement}
    (h : policyStatements rules = .ok statements) (hknown : Known policies) :
    PolicyStatement.execAll accepts statements policies =
      PolicyStatement.execAll accepts statements fun _ => none := by
  obtain ⟨created, -, h⟩ := bind_eq_ok.mp h
  obtain rfl := Except.ok.inj h
  have hdropped : ∀ policies, Known policies →
      (fun name => if name ∈ policyNames then none else policies name) = fun _ => none := by
    intro policies hknown
    funext name
    split_ifs with hname
    · rfl
    · exact hknown name hname
  simp only [PolicyStatement.execAll, PolicyStatement.exec, Option.bind_some, execAll_append,
    execAll_drop, hdropped policies hknown, hdropped (fun _ => none) fun _ _ => rfl]

/-- The policies that are created are known. -/
theorem createdPolicies_known {created : List PolicyStatement}
    (h : createdPolicies rules = .ok created) {name : String} {policy : FilePolicy}
    (hcreate : .create name policy ∈ created) : name ∈ policyNames := by
  obtain ⟨list, -, h⟩ := bind_eq_ok.mp h
  obtain ⟨delete, -, h⟩ := bind_eq_ok.mp h
  obtain rfl := Except.ok.inj h
  have hlist : .create name policy ∈ (list.map listPolicies).getD [] → name ∈ policyNames := by
    cases list with
    | none => simp
    | some predicate => simp +contextual [listPolicies, policyNames]
  have hdelete : .create name policy ∈ (delete.map deletePolicies).getD [] → name ∈ policyNames := by
    cases delete with
    | none => simp
    | some predicate =>
      simp only [Option.map_some, Option.getD_some, deletePolicies, List.mem_cons,
        PolicyStatement.create.injEq, List.not_mem_nil, or_false]
      rintro (⟨rfl, -⟩ | ⟨rfl, -⟩) <;> decide
  have hattach : .create name policy ∈ attachPolicies → name ∈ policyNames := by
    simp only [attachPolicies, List.mem_cons, PolicyStatement.create.injEq, List.not_mem_nil, or_false]
    rintro (⟨rfl, -⟩ | ⟨rfl, -⟩) <;> decide
  simp only [List.mem_cons, List.mem_append, PolicyStatement.create.injEq] at hcreate
  rcases hcreate with ⟨rfl, -⟩ | (hmem | hmem) | hmem
  · decide
  · exact hlist hmem
  · exact hdelete hmem
  · exact hattach hmem

/-- Statements that create known policies leave known policies. -/
theorem known_execAll {statements : List PolicyStatement}
    (hcreates : ∀ name policy, .create name policy ∈ statements → name ∈ policyNames)
    (hknown : Known policies)
    (h : PolicyStatement.execAll accepts statements policies = some after) : Known after := by
  induction statements generalizing policies with
  | nil =>
    obtain rfl := Option.some.inj h
    exact hknown
  | cons statement rest ih =>
    obtain ⟨mid, hmid, hrest⟩ := Option.bind_eq_some_iff.mp h
    refine ih (fun name policy hmem => hcreates name policy (List.mem_cons_of_mem _ hmem)) ?_ hrest
    cases statement with
    | enable table =>
      obtain rfl := Option.some.inj hmid
      exact hknown
    | drop dropped =>
      obtain rfl := Option.some.inj hmid
      intro name hname
      rw [Function.update_apply]
      split_ifs
      · rfl
      · exact hknown name hname
    | create created policy =>
      have hmem : created ∈ policyNames := hcreates created policy List.mem_cons_self
      simp only [PolicyStatement.exec] at hmid
      split_ifs at hmid
      obtain rfl := Option.some.inj hmid
      intro name hname
      have hne : name ≠ created := by
        rintro rfl
        exact hname hmem
      rw [Function.update_of_ne hne]
      exact hknown name hname

/-- The policies of the rules are known. -/
theorem known_of_policyStatements {statements : List PolicyStatement}
    (h : policyStatements rules = .ok statements)
    (hexec : PolicyStatement.execAll accepts statements (fun _ => none) = some after) :
    Known after := by
  obtain ⟨created, hcreated, h⟩ := bind_eq_ok.mp h
  obtain rfl := Except.ok.inj h
  refine known_execAll (fun name policy hmem => ?_) (fun _ _ => rfl) hexec
  simp only [List.mem_cons, List.mem_append, List.mem_map, reduceCtorEq, and_false, exists_false,
    false_or] at hmem
  exact createdPolicies_known hcreated hmem

end Statements

end LazyPock.Files
