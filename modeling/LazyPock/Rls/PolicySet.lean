import LazyPock.Rls.Identity
import LazyPock.Rls.Policies

/-!
# What the policies of a collection let through

The statements of a collection's rules, run against the database's policies, and what the resulting
set lets a restricted role do. Postgres combines the permissive policies of a command by `or`, lets
nothing through when there is none, and applies the `select` policies to the rows an update or a
delete reads, and to the row an update leaves behind.

Each rule is in force for exactly its own action: the guard on `request.action` keeps the `select`
policies of the others out.

## Main definitions

* `Policies.TablePolicy`, `Policies.TablePolicies`, `Policies.exec`.
* `Policies.Visible`, `Policies.Updatable`, `Policies.Deletable`,
  `Policies.Insertable`.
* `Policies.RuleHolds`: what a rule says of a row.
* `Policies.Applied`: the states earlier applications of rules lead to.

## Main results

* `Policies.exec_statements`: the policies after an application, whatever was there.
* `Policies.rules_separate_by_action`.
-/

namespace LazyPock.Policies

open Sql List Function

/-! ### Policies of a table -/

/-- A permissive policy. -/
structure TablePolicy where
  name : String
  command : Command
  roles : List String
  /-- `using` -/
  reads : Option Pred
  /-- `with check` -/
  writes : Option Pred

/-- Row-level security of a table. -/
structure TablePolicies where
  enabled : Bool
  policies : List TablePolicy

/-- Row-level security of the database, by table. -/
abbrev Catalog := String → TablePolicies

/-- Run a statement; creating a policy under a name that is taken fails. -/
@[grind =]
def execOne (catalog : Catalog) : Statement → Option Catalog
  | .enable table => some (update catalog table { catalog table with enabled := true })
  | .drop name table =>
    some (update catalog table
      { catalog table with policies := (catalog table).policies.filter fun p => p.name ≠ name })
  | .create name table command reads writes =>
    if (catalog table).policies.any fun p => p.name = name then none
    else some (update catalog table
      { catalog table with
        policies := (catalog table).policies ++ [⟨name, command, roles, reads, writes⟩] })

/-- Run the statements of a batch. -/
@[grind =]
def exec (catalog : Catalog) : List Statement → Option Catalog
  | [] => some catalog
  | s :: rest => (execOne catalog s).bind fun catalog => exec catalog rest

theorem exec_append (catalog : Catalog) (ss ts : List Statement) :
    exec catalog (ss ++ ts) = (exec catalog ss).bind fun catalog => exec catalog ts := by
  induction ss generalizing catalog with
  | nil => rfl
  | cons s ss ih =>
    simp only [cons_append, exec]
    cases execOne catalog s with
    | none => rfl
    | some catalog => exact ih catalog

/-! ### What a set of policies lets through -/

/-- A policy is for a role's command. -/
def TablePolicy.Applies (policy : TablePolicy) (role : String) (command : Command) : Prop :=
  role ∈ policy.roles ∧ (policy.command = command ∨ policy.command = .all)

/-- A condition is there and true. -/
def Grants (env : Env) (condition : Option Pred) : Prop :=
  ∃ p, condition = some p ∧ p.eval env = .val true

section Access

variable (table : TablePolicies) (role : String) (command : Command) (env : Env)

/-- Some policy lets the command read the row. -/
def Reads : Prop :=
  table.enabled = true →
    ∃ p ∈ table.policies, p.Applies role command ∧ Grants env p.reads

/-- Some policy lets the command write the row. Without `with check` it is the condition for reading
that counts. -/
def Writes : Prop :=
  table.enabled = true →
    ∃ p ∈ table.policies, p.Applies role command ∧ Grants env (p.writes.or p.reads)

/-- A `select` returns the row. -/
def Visible : Prop := Reads table role .select env

/-- An `update` finds the row and may leave the new one behind. -/
def Updatable (new : Env) : Prop :=
  Reads table role .select env ∧ Reads table role .update env ∧ Writes table role .update new ∧
    Reads table role .select new

/-- A `delete` finds the row. -/
def Deletable : Prop := Reads table role .select env ∧ Reads table role .delete env

/-- An `insert` may add the row. -/
def Insertable : Prop := Writes table role .insert env

end Access

/-! ### What a rule says -/

@[grind =]
def Rule.Holds (context : FilterContext) (env : Env) : Rule → Prop
  | .absent => False
  | .publicAccess => True
  | .filter expr => ∃ p, Policy.predicate context expr = .ok p ∧ p.eval env = .val true

/-- The rule of a key holds of the row. -/
def RuleHolds (ruleSet : Json) (context : FilterContext) (key : String) (env : Env) : Prop :=
  ∃ rule, ruleOf ruleSet key = .ok rule ∧ rule.Holds context env

/-- The condition a rule becomes. -/
@[grind =]
def rulePred (ruleSet : Json) (context : FilterContext) (key : String) : Option Pred :=
  match ruleOf ruleSet key >>= fun rule => predicateOf rule context with
  | .ok pred => pred
  | .error _ => none

variable {context : FilterContext}

theorem ruleHolds_iff {ruleSet : Json} {key : String} {env : Env} :
    RuleHolds ruleSet context key env ↔ Grants env (rulePred ruleSet context key) := by
  unfold RuleHolds rulePred
  cases hrule : ruleOf ruleSet key with
  | error e => simp [Grants, bind, Except.bind]
  | ok rule =>
    simp only [Except.ok.injEq, exists_eq_left', bind, Except.bind]
    cases rule with
    | absent => simp [Rule.Holds, predicateOf, Grants]
    | publicAccess => simp [Rule.Holds, predicateOf, Grants, Pred.eval]
    | filter expr =>
      cases hpred : Policy.predicate context expr with
      | error e => simp [Rule.Holds, predicateOf, Grants, hpred, bind, Except.bind]
      | ok p => simp [Rule.Holds, predicateOf, Grants, hpred, bind, Except.bind]

/-! ### The policies after an application -/

/-- The policy of a rule whose condition is `p`. -/
@[grind =]
def RuleSpec.policy (spec : RuleSpec) (p : Pred) : TablePolicy :=
  let guarded := match spec.guard with
    | some action => Pred.guarded (actionGuard action) p
    | none => p
  match spec.command with
  | .select => ⟨spec.name, .select, roles, some guarded, none⟩
  | .insert => ⟨spec.name, .insert, roles, none, some p⟩
  | .update => ⟨spec.name, .update, roles, some p, some p⟩
  | .delete => ⟨spec.name, .delete, roles, some p, none⟩
  | .all => ⟨spec.name, .all, roles, some guarded, some guarded⟩

def TablePolicy.create (policy : TablePolicy) (table : String) : Statement :=
  .create policy.name table policy.command policy.reads policy.writes

theorem policyStatement_eq (spec : RuleSpec) (table : String) (p : Pred) :
    policyStatement spec.name table spec.command p spec.guard = (spec.policy p).create table := by
  obtain ⟨key, name, command, guard⟩ := spec
  cases command <;> rfl

@[simp] theorem RuleSpec.name_policy (spec : RuleSpec) (p : Pred) :
    (spec.policy p).name = spec.name := by
  obtain ⟨key, name, command, guard⟩ := spec
  cases command <;> rfl

@[simp] theorem RuleSpec.roles_policy (spec : RuleSpec) (p : Pred) :
    (spec.policy p).roles = roles := by
  obtain ⟨key, name, command, guard⟩ := spec
  cases command <;> rfl

/-- The policies of the rules that are present. -/
def policiesOf (ruleSet : Json) (context : FilterContext) (specs : List RuleSpec) :
    List TablePolicy :=
  specs.filterMap fun spec => (rulePred ruleSet context spec.key).map spec.policy

theorem createPolicies_eq {table : String} {ruleSet : Json}
    {specs : List RuleSpec} {created : List Statement}
    (h : createPolicies table ruleSet context specs = .ok created) :
    created = (policiesOf ruleSet context specs).map fun policy => policy.create table := by
  induction specs generalizing created with
  | nil =>
    simp only [createPolicies, Except.ok.injEq] at h
    simp [← h, policiesOf]
  | cons spec specs ih =>
    obtain ⟨first, hfirst, h⟩ := bind_eq_ok.mp h
    obtain ⟨others, hothers, h⟩ := bind_eq_ok.mp h
    rw [Except.ok.injEq] at h
    subst h
    obtain ⟨rule, hrule, hfirst⟩ := bind_eq_ok.mp hfirst
    obtain ⟨pred, hpred, hfirst⟩ := bind_eq_ok.mp hfirst
    rw [Except.ok.injEq] at hfirst
    have hpred' : rulePred ruleSet context spec.key = pred := by
      simp [rulePred, hrule, hpred, bind, Except.bind]
    rw [ih hothers, ← hfirst]
    cases pred with
    | none => simp [policiesOf, hpred']
    | some p => simp [policiesOf, hpred', policyStatement_eq]

theorem names_policiesOf_sublist (ruleSet : Json) (context : FilterContext)
    (specs : List RuleSpec) :
    ((policiesOf ruleSet context specs).map TablePolicy.name).Sublist (specs.map RuleSpec.name) := by
  induction specs with
  | nil => simp [policiesOf]
  | cons spec specs ih =>
    cases hpred : rulePred ruleSet context spec.key with
    | none => simpa [policiesOf, hpred] using ih.cons spec.name
    | some p => simpa [policiesOf, hpred] using ih.cons_cons spec.name

theorem exec_drops (catalog : Catalog) (table : String) (names : List String) :
    exec catalog (names.map fun name => .drop name table) =
      some (update catalog table
        { catalog table with
          policies := (catalog table).policies.filter fun p => p.name ∉ names }) := by
  induction names generalizing catalog with
  | nil => simp [exec]
  | cons name names ih =>
    simp only [map_cons, exec, execOne, Option.bind_some, ih, update_self,
      update_idem, filter_filter, mem_cons, not_or]
    congr! 5
    simp [Bool.and_comm]

theorem exec_creates (catalog : Catalog) (table : String) {policies : List TablePolicy}
    (hroles : ∀ p ∈ policies, p.roles = roles) (hnodup : (policies.map TablePolicy.name).Nodup)
    (hfresh : ∀ p ∈ policies, ∀ q ∈ (catalog table).policies, q.name ≠ p.name) :
    exec catalog (policies.map fun p => p.create table) =
      some (update catalog table
        { catalog table with policies := (catalog table).policies ++ policies }) := by
  induction policies generalizing catalog with
  | nil => simp [exec]
  | cons p policies ih =>
    obtain ⟨hp, hnodup⟩ := nodup_cons.mp hnodup
    have hany : ((catalog table).policies.any fun q => q.name = p.name) = false := by
      simpa using hfresh p (by simp)
    have hrow : (⟨p.name, p.command, roles, p.reads, p.writes⟩ : TablePolicy) = p := by
      rw [← hroles p (by simp)]
    simp only [map_cons, exec, TablePolicy.create, execOne, hany, Bool.false_eq_true,
      ↓reduceIte, Option.bind_some, hrow]
    have hrest := ih (update catalog table
      { catalog table with policies := (catalog table).policies ++ [p] })
      (fun q hq => hroles q (mem_cons_of_mem _ hq)) hnodup ?_
    · simpa [TablePolicy.create] using hrest
    · intro q hq r hr
      simp only [update_self, mem_append, mem_singleton] at hr
      rcases hr with hr | rfl
      · exact hfresh q (mem_cons_of_mem _ hq) r hr
      · intro hname
        exact hp (hname ▸ mem_map_of_mem hq)

theorem nodup_names_allSpecs : (allSpecs.map RuleSpec.name).Nodup := by decide

theorem mem_policyNames {name : String} : name ∈ policyNames ↔ name ∈ allSpecs.map RuleSpec.name := by
  simp only [policyNames, allSpecs, map_append, mem_append, map_cons, map_nil,
    mem_singleton]
  exact or_comm.trans (or_assoc).symm

/-- **The policies after an application.** Row-level security is on, the policies under the server's
names are those of the rules that are present, and any other policy is kept. -/
theorem exec_statements {collection : Collection} {ss : List Statement}
    (hss : statements collection context = .ok ss) (catalog : Catalog) :
    exec catalog ss = some (update catalog collection.name
      ⟨true, ((catalog collection.name).policies.filter fun p => p.name ∉ policyNames) ++
        policiesOf collection.rules context allSpecs⟩) := by
  obtain ⟨created, hcreated, hss⟩ := bind_eq_ok.mp hss
  rw [Except.ok.injEq] at hss
  subst hss
  have hcreated' := createPolicies_eq hcreated
  subst hcreated'
  simp only [exec, execOne, exec_append, dropPolicies, exec_drops, cons_append,
    Option.bind_some, update_self, update_idem]
  have hsub := names_policiesOf_sublist collection.rules context allSpecs
  rw [exec_creates]
  · simp
  · intro p hp
    obtain ⟨spec, -, hspec⟩ := mem_filterMap.mp hp
    obtain ⟨q, -, rfl⟩ := Option.map_eq_some_iff.mp hspec
    simp
  · exact hsub.nodup nodup_names_allSpecs
  · intro p hp q hq hname
    have hmem : p.name ∈ policyNames :=
      mem_policyNames.mpr (hsub.subset (mem_map_of_mem hp))
    simp only [update_self, mem_filter, decide_eq_true_eq] at hq
    exact hq.2 (hname ▸ hmem)

/-! ### One action, one rule -/

theorem eval_actionGuard {env : Env} {action : String} (a : String)
    (h : env.setting "request.action" = some action) :
    (actionGuard a).eval env = .val (decide (action = a)) := by
  have hsetting : (Scalar.setting "request.action").eval env = .val (.text action) := by
    simp [Scalar.eval, h, Outcome.ofOption]
  have hlit : (Scalar.lit a).eval env = .val (.text a) := rfl
  rw [actionGuard, Pred.eval, hsetting, hlit]
  by_cases ha : action = a
  · simp [Outcome.both, compareValues, Value.order, orderBy, ha, Outcome.orError, CmpOp.holds]
  · simp only [Outcome.both, compareValues, Value.order, orderBy, ha, ↓reduceIte, Option.map_some,
      Outcome.orError, decide_false]
    split <;> rfl

theorem grants_guarded {env : Env} {action : String} (a : String) (p : Pred)
    (h : env.setting "request.action" = some action) :
    Grants env (some (.guarded (actionGuard a) p)) ↔ action = a ∧ Grants env (some p) := by
  simp [Grants, Pred.eval, eval_actionGuard a h, Outcome.and_eq_true]

section Access

variable {ruleSet : Json} {context : FilterContext} {role : String} {env : Env} {action : String}

/-- The policies of a collection's rules, with row-level security on. -/
def ruleTable (ruleSet : Json) (context : FilterContext) : TablePolicies :=
  ⟨true, policiesOf ruleSet context allSpecs⟩

theorem exists_mem_policiesOf {specs : List RuleSpec} {P : TablePolicy → Prop} :
    (∃ p ∈ policiesOf ruleSet context specs, P p) ↔
      ∃ spec ∈ specs, ∃ p, rulePred ruleSet context spec.key = some p ∧ P (spec.policy p) := by
  simp only [policiesOf, mem_filterMap, Option.map_eq_some_iff]
  constructor
  · rintro ⟨_, ⟨spec, hspec, p, hp, rfl⟩, h⟩
    exact ⟨spec, hspec, p, hp, h⟩
  · rintro ⟨spec, hspec, p, hp, h⟩
    exact ⟨_, ⟨spec, hspec, p, hp, rfl⟩, h⟩

theorem exists_grants {condition : Option Pred} :
    (∃ p, condition = some p ∧ Grants env (some p)) ↔ Grants env condition := by
  simp [Grants]

theorem exists_and_grants {condition : Option Pred} {a : Prop} :
    (∃ p, condition = some p ∧ a ∧ Grants env (some p)) ↔ a ∧ Grants env condition := by
  simp [Grants, and_left_comm]

/-- What the rules of a collection let each command do, by the action of the request. -/
theorem access_iff (ruleSet : Json) (context : FilterContext) (hrole : role ∈ roles)
    (h : env.setting "request.action" = some action) :
    (Reads (ruleTable ruleSet context) role .select env ↔
      RuleHolds ruleSet context "manageRule" env ∨
      (action = "list" ∧ RuleHolds ruleSet context "listRule" env) ∨
      (action = "view" ∧ RuleHolds ruleSet context "viewRule" env) ∨
      (action = "update" ∧ RuleHolds ruleSet context "updateRule" env) ∨
      (action = "delete" ∧ RuleHolds ruleSet context "deleteRule" env)) ∧
    (Reads (ruleTable ruleSet context) role .update env ↔
      RuleHolds ruleSet context "manageRule" env ∨ RuleHolds ruleSet context "updateRule" env) ∧
    (Writes (ruleTable ruleSet context) role .update env ↔
      RuleHolds ruleSet context "manageRule" env ∨ RuleHolds ruleSet context "updateRule" env) ∧
    (Reads (ruleTable ruleSet context) role .delete env ↔
      RuleHolds ruleSet context "manageRule" env ∨ RuleHolds ruleSet context "deleteRule" env) ∧
    (Writes (ruleTable ruleSet context) role .insert env ↔
      RuleHolds ruleSet context "manageRule" env ∨ RuleHolds ruleSet context "createRule" env) := by
  simp only [Reads, Writes, ruleTable, exists_mem_policiesOf, ruleHolds_iff, forall_const]
  -- The eight rules one by one: those of another command drop out.
  simp only [allSpecs, manage, rules, selectMirrors, cons_append, nil_append,
    mem_cons, not_mem_nil, or_false, exists_eq_or_imp, exists_eq_left,
    RuleSpec.policy, TablePolicy.Applies, hrole, true_and, or_true, reduceCtorEq,
    or_self, false_and, and_false, exists_false, grants_guarded _ _ h, false_or, Option.some_or,
    exists_grants, exists_and_grants, and_self, Option.none_or]

end Access

/-! ### Any history of applications -/

/-- The states of a table that was never given policies but by applications of rules. -/
inductive Applied (table : String) : Catalog → Prop
  | fresh (catalog : Catalog) (h : (catalog table).policies = []) : Applied table catalog
  | apply {catalog catalog' : Catalog} {collection : Collection} {context : FilterContext}
      {ss : List Statement} (h : Applied table catalog) (hname : collection.name = table)
      (hss : statements collection context = .ok ss) (hexec : exec catalog ss = some catalog') :
      Applied table catalog'

/-- Every policy such a table has is one the server knows. -/
theorem Applied.name_mem {table : String} {catalog : Catalog} (h : Applied table catalog) :
    ∀ p ∈ (catalog table).policies, p.name ∈ policyNames := by
  induction h with
  | fresh catalog h => simp [h]
  | @apply catalog catalog' collection context ss h hname hss hexec ih =>
    subst hname
    rw [exec_statements hss, Option.some.injEq] at hexec
    subst hexec
    intro p hp
    simp only [update_self, mem_append, mem_filter] at hp
    rcases hp with ⟨hp, -⟩ | hp
    · exact ih p hp
    · have hsub := names_policiesOf_sublist collection.rules context allSpecs
      exact mem_policyNames.mpr (hsub.subset (mem_map_of_mem hp))

theorem Applied.exec_eq {collection : Collection} {ss : List Statement}
    (hss : statements collection context = .ok ss) {catalog : Catalog}
    (h : Applied collection.name catalog) :
    exec catalog ss =
      some (update catalog collection.name (ruleTable collection.rules context)) := by
  have hnone : ((catalog collection.name).policies.filter fun p => p.name ∉ policyNames) = [] := by
    rw [filter_eq_nil_iff]
    intro p hp
    simpa using h.name_mem p hp
  rw [exec_statements hss, hnone, nil_append, ruleTable]

theorem role_mem_roles {request : RequestContext} {role : String}
    (h : request.role.name = some role) : role ∈ roles := by
  cases hrole : request.role <;> rw [hrole] at h <;> simp_all [Role.name, roles]

/-- **Rules separate by action.** After any history of applications, applying the rules of a
collection succeeds and leaves the same policies, and under each action a restricted role may do
exactly what the rule of that action, or the manage rule, allows. -/
theorem rules_separate_by_action {collection : Collection} {context : FilterContext}
    {ss : List Statement} (hss : statements collection context = .ok ss) {catalog : Catalog}
    (hcatalog : Applied collection.name catalog) :
    ∃ catalog', exec catalog ss = some catalog' ∧
      (∀ earlier, Applied collection.name earlier →
        ∃ later, exec earlier ss = some later ∧
          later collection.name = catalog' collection.name) ∧
      ∀ (session : Session) (request : RequestContext) (role : String),
        request.role.name = some role → ∀ row new : Row,
        let env := fun action row => session.env (request.withAction action) row
        let holds := fun key action row => RuleHolds collection.rules context key (env action row)
        let table := catalog' collection.name
        (Visible table role (env .list row) ↔
          holds "manageRule" .list row ∨ holds "listRule" .list row) ∧
        (Visible table role (env .view row) ↔
          holds "manageRule" .view row ∨ holds "viewRule" .view row) ∧
        (Updatable table role (env .update row) (env .update new) ↔
          (holds "manageRule" .update row ∨ holds "updateRule" .update row) ∧
          (holds "manageRule" .update new ∨ holds "updateRule" .update new)) ∧
        (Deletable table role (env .delete row) ↔
          holds "manageRule" .delete row ∨ holds "deleteRule" .delete row) ∧
        (∀ action, Insertable table role (env action new) ↔
          holds "manageRule" action new ∨ holds "createRule" action new) ∧
        (Visible table role (env .write row) ↔ holds "manageRule" .write row) := by
  refine ⟨_, hcatalog.exec_eq hss, ?_, ?_⟩
  · intro earlier hearlier
    exact ⟨_, hearlier.exec_eq hss, by simp⟩
  · intro session request role hrole row new env holds table
    have htable : table = ruleTable collection.rules context := by simp [table]
    have haccess := fun (action : Action) (row : Row) =>
      access_iff collection.rules context (role_mem_roles hrole)
        (show (env action row).setting "request.action" = some action.name from rfl)
    rw [htable]
    refine ⟨?_, ?_, ?_, ?_, ?_, ?_⟩
    · rw [Visible, (haccess .list row).1]
      simp [Action.name, holds]
    · rw [Visible, (haccess .view row).1]
      simp [Action.name, holds]
    · rw [Updatable, (haccess .update row).1, (haccess .update row).2.1,
        (haccess .update new).2.2.1, (haccess .update new).1]
      simp [Action.name, holds]
    · rw [Deletable, (haccess .delete row).1, (haccess .delete row).2.2.2.1]
      simp [Action.name, holds]
    · intro action
      exact (haccess action new).2.2.2.2
    · rw [Visible, (haccess .write row).1]
      simp [Action.name, holds]

/-- Posts that everyone may view and nobody may list. -/
def viewablePosts : Collection := { titledPosts with rules := .object [("viewRule", .string "")] }

def plainSession : Session := ⟨.plain, fun _ => [], 0, 0⟩

theorem viewablePosts_separate :
    ∃ ss catalog', statements viewablePosts titledContext = .ok ss ∧
      exec (fun _ => ⟨false, []⟩) ss = some catalog' ∧
      Visible ( catalog' "posts") "lazypock_anon"
        (plainSession.env (RequestContext.anonymous.withAction .view) fun _ => none) ∧
      ¬ Visible ( catalog' "posts") "lazypock_anon"
        (plainSession.env (RequestContext.anonymous.withAction .list) fun _ => none) := by
  obtain ⟨ss, hss⟩ := isOk_iff.mp
    (show isOk (statements viewablePosts titledContext) by decide)
  obtain ⟨catalog', hexec, -, haccess⟩ := rules_separate_by_action hss
    (Applied.fresh (fun _ => ⟨false, []⟩) rfl)
  have h := haccess plainSession .anonymous "lazypock_anon" rfl (fun _ => none) (fun _ => none)
  refine ⟨ss, catalog', hss, hexec, h.2.1.mpr (.inr ⟨.publicAccess, rfl, trivial⟩), ?_⟩
  intro hlist
  rcases h.1.mp hlist with ⟨rule, hrule, hholds⟩ | ⟨rule, hrule, hholds⟩
  · cases hrule
    exact hholds
  · cases hrule
    exact hholds

end LazyPock.Policies
