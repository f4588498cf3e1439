import LazyPock.Files.Rules
import LazyPock.Schema.Options
import LazyPock.Settings.Export

/-!
# The settings in force

Two settings have an effect beside their row: the rules of the files are policies of `_files`
(`crates/files/src/policy.rs`), and the realtime switch is a trigger on the table of every collection
that is published (`crates/db/src/realtime.rs`). A `PATCH` of the settings brings both in line in its
transaction (`update` of `crates/api/src/settings.rs`), and so do a creation and an update with the
trigger of their collection. An import of settings (`import` of the same file) stores them only, and a
table that is adopted keeps the trigger it has, or has not.

Operations on collections are those of `Collections`; what is answered is left out.

## Main definitions

* `Settings.Node`, `Settings.Action`, `Settings.perform`.
* `Settings.InForce`: what the settings and the options declare is what the database does.
* `Settings.Faithful`: an import that changes nothing of these settings, an adoption of tables
  that have their triggers.

## Main results

* `Settings.inForce_of_run`: what is declared stays in force along such actions.
* `Settings.import_leaves_policies`: an import whose rules are not in force.
-/

namespace LazyPock.Settings

open Text Machine Collections Files Assoc

/-! ### The realtime switch -/

/-- Read the switch out of the stored setting: whatever is malformed is on. -/
def enabledFromSetting : Json → Bool
  | .bool enabled => enabled
  | .object entries => ((lookup "enabled" entries).bind Json.asBool).getD true
  | _ => true

/-- Whether the switch of the whole server is on. -/
def globalEnabled (rows : List (String × Json)) : Bool :=
  ((lookup "realtime" rows).map enabledFromSetting).getD true

/-- Whether a collection publishes as far as its own options say. -/
def realtimeEnabled (options : Json) : Bool := ((options.get "realtime").bind Json.asBool).getD true

/-- Whether a collection publishes, given the switch of the whole server. -/
def isPublished (options : Json) (globallyEnabled : Bool) : Bool :=
  globallyEnabled && realtimeEnabled options

/-- The rules of the files in `_settings`. -/
def loadRules (rows : List (String × Json)) : FileRules :=
  .fromSetting ((lookup "files" rows).getD .null)

/-! ### The server -/

/-- What the database decides by itself. -/
structure Environment where
  sha : String → String
  server : Server
  toQuery : Json → List Collection → Result String
  catalog : Reflect.Catalog
  /-- Whether the condition of a policy is one the database can check. -/
  accepts : FilePolicy → Bool

/-- The collections, the settings, the policies of `_files` and the tables with a trigger. -/
structure Node where
  db : Db
  settings : List (String × Json)
  filePolicies : Policies
  triggers : String → Bool

/-- The trigger of a table is dropped, and created where it is to publish. -/
def setTrigger (db : Db) (name : String) (published : Bool) (triggers : String → Bool) :
    Result (String → Bool) := do
  Ddl.realtimeTriggerStatements name
  failIf (published = true ∧ (db.tables name).any Relation.isTable = false)
    (.invalid ("cannot set the realtime trigger of " ++ debug name ++
      " while applying the instance-wide switch"))
  .ok (Function.update triggers name published)

/-- Apply the switch to every collection that is a table. -/
def applyGlobal (db : Db) (enabled : Bool) :
    List Collection → (String → Bool) → Result (String → Bool)
  | [], triggers => .ok triggers
  | c :: rest, triggers =>
    if c.collectionType = .view then applyGlobal db enabled rest triggers
    else do
      let triggers ← setTrigger db c.name (isPublished c.options enabled) triggers
      applyGlobal db enabled rest triggers

/-- Make the policies of the files anew. -/
def applyRules (env : Environment) (rules : FileRules) (policies : Policies) : Result Policies := do
  let statements ← policyStatements rules
  okOr (.invalid ("cannot apply the file rules: " ++ env.server.report))
    (PolicyStatement.execAll env.accepts statements policies)

/-! ### Requests about the settings -/

/-- Write settings one after another: a `null` clears one. -/
def patchRows : List (String × Json) → List (String × Json) → Result (List (String × Json))
  | rows, [] => .ok rows
  | rows, (key, value) :: rest => do
    failIf (isInternal key) (.invalid (debug key ++
      " is lazypock's own setting and cannot be written through the settings API"))
    patchRows (if value.isNull then erase key rows else insert key value rows) rest

/-- `PATCH /api/settings`: the rows, the policies and the triggers. -/
def patched (env : Environment) (body : Json) (s : Node) : Result Node :=
  match body with
  | .object entries => do
    let settings ← patchRows s.settings entries
    let filePolicies ← (match lookup "files" entries with
      | some setting => applyRules env (.fromSetting setting) s.filePolicies
      | none => .ok s.filePolicies)
    let triggers ← (match lookup "realtime" entries with
      | some setting => applyGlobal s.db (enabledFromSetting setting) s.db.collections s.triggers
      | none => .ok s.triggers)
    .ok ⟨s.db, settings, filePolicies, triggers⟩
  | _ => .error (.invalid "settings must be a JSON object")

/-- `POST /api/settings/import`: the rows alone. -/
def imported (body : Document) (s : Node) : Result Node := do
  let result ← importSettings s.settings body
  .ok { s with settings := result.rows }

/-! ### Actions -/

/-- What is asked of the server. -/
inductive Action where
  | patchSettings (body : Json)
  | importSettings (body : Document)
  | create (input : CreateCollection) (ids : Ids)
  | update (key : String) (input : UpdateCollection) (ids : ℕ → String)
  | delete (key : String) (dropData : Bool)
  | reflect (ids : Reflect.Ids)

/-- A transaction that fails leaves everything as it was. -/
@[grind =]
def orElse (s : Node) : Result Node → Node
  | .ok after => after
  | .error _ => s

/-- What a creation makes of the triggers: a table that was there keeps what it has. -/
def afterCreate (s : Node) (created : Collection) : String → Bool :=
  if created.collectionType = .view ∨ s.db.nameTaken created.name = true then s.triggers
  else Function.update s.triggers created.name
    (isPublished created.options (globalEnabled s.settings))

/-- What an update of the collection under a key makes of the triggers: the collection is read once
more, by its id. -/
def afterUpdate (s : Node) (key : String) (input : UpdateCollection) (updated : Collection) :
    String → Bool :=
  match get s.db key with
  | .ok existing =>
    if existing.collectionType = .view ∨ updated.collectionType = .view then s.triggers
    else Function.update s.triggers updated.name
      (isPublished (input.options.getD existing.options) (globalEnabled s.settings))
  | .error _ => s.triggers

/-- What a deletion makes of the triggers: those of a table go with it. -/
def afterDelete (s : Node) (deleted : Collection) (dropData : Bool) : String → Bool :=
  if dropData then Function.update s.triggers deleted.name false else s.triggers

/-- What an operation on collections leaves, where it succeeds and where it fails. -/
def onCollections (s : Node) (outcome : Result Collection × Db)
    (triggers : Collection → String → Bool) : Node :=
  match outcome with
  | (.ok c, db) => { s with db, triggers := triggers c }
  | (.error _, db) => { s with db }

/-- What an action leaves. -/
@[grind =]
def perform (env : Environment) (s : Node) : Action → Node
  | .patchSettings body => orElse s (patched env body s)
  | .importSettings body => orElse s (imported body s)
  | .create input ids =>
    onCollections s (create env.sha env.server env.toQuery input ids s.db) (afterCreate s)
  | .update key input ids =>
    onCollections s (update env.sha env.server env.toQuery key input ids s.db)
      (afterUpdate s key input)
  | .delete key dropData =>
    onCollections s (delete env.server key dropData s.db) fun c => afterDelete s c dropData
  | .reflect ids => { s with db := (Reflect.reflect env.server env.catalog ids s.db).2 }

/-- The actions in turn. -/
def performAll (env : Environment) (s : Node) (actions : List Action) : Node :=
  actions.foldl (perform env) s

/-! ### What is declared -/

/-- The policies are those that the statements of the rules build. -/
def Builds (env : Environment) (rules : FileRules) (policies : Policies) : Prop :=
  ∃ statements, policyStatements rules = .ok statements ∧
    PolicyStatement.execAll env.accepts statements (fun _ => none) = some policies

/-- **What is declared is in force**: the policies of `_files` are those of the stored rules, and a
table of a collection has its trigger exactly where the collection is published. -/
structure InForce (env : Environment) (s : Node) : Prop where
  policies : Builds env (loadRules s.settings) s.filePolicies
  triggers : ∀ c ∈ s.db.collections, c.collectionType ≠ .view →
    s.triggers c.name = isPublished c.options (globalEnabled s.settings)

/-- What a document makes of a stored setting. -/
def mergedSetting (rows : List (String × Json)) (body : Document) (key : String) : Json :=
  ((lookup key body.settings).bind (mergedRow (lookup key rows))).getD
    ((lookup key rows).getD .null)

/-- The import makes other policies of the rules, or turns the switch while a collection publishes. -/
def Redeclares (s : Node) (body : Document) : Prop :=
  policyStatements (.fromSetting (mergedSetting s.settings body "files")) ≠
      policyStatements (loadRules s.settings) ∨
    (enabledFromSetting (mergedSetting s.settings body "realtime") ≠ globalEnabled s.settings ∧
      ∃ c ∈ s.db.collections, c.collectionType ≠ .view ∧ realtimeEnabled c.options = true)

/-- The actions that keep to what is declared: an import that is accepted redeclares nothing, the tables
that are adopted have the triggers that their collections declare, and no other collection is named by
the id of one that is updated. -/
def Faithful (env : Environment) (s : Node) : Action → Prop
  | .importSettings body => body.version = exportVersion →
    (∀ e ∈ body.settings, isInternal e.1 = false) → ¬ Redeclares s body
  | .create input _ => input.collectionType ≠ .view → input.adoptExistingTable = true →
    s.db.nameTaken input.name = true →
    s.triggers input.name = isPublished input.options (globalEnabled s.settings)
  | .update key _ _ => ∀ existing, get s.db key = .ok existing →
    ∀ c ∈ s.db.collections, c.name = existing.id → c.id = existing.id
  | .reflect _ => ∀ table ∈ (Reflect.adoptable env.catalog s.db).map Prod.fst,
    s.triggers table = globalEnabled s.settings
  | _ => True

/-- A body as it is read: the keys of an object stand in order, each once. -/
def Action.Read : Action → Prop
  | .patchSettings body => body.ordered = true
  | .importSettings body => Sorted body.settings
  | _ => True

/-! ### The rows -/

section Rows

variable {rows after entries : List (String × Json)} {key : String}

theorem globalEnabled_eq (rows : List (String × Json)) :
    globalEnabled rows = enabledFromSetting ((lookup "realtime" rows).getD .null) := by
  unfold globalEnabled
  cases lookup "realtime" rows <;> rfl

/-- What a `PATCH` leaves of a setting. -/
theorem lookup_patchRows (hsorted : Sorted entries) (h : patchRows rows entries = .ok after) :
    lookup key after =
      ((lookup key entries).map fun value => if value.isNull then none else some value).getD
        (lookup key rows) := by
  induction entries generalizing rows with
  | nil =>
    obtain rfl := Except.ok.inj h
    rfl
  | cons entry rest ih =>
    obtain ⟨k, value⟩ := entry
    obtain ⟨_, -, h⟩ := bind_eq_ok.mp h
    obtain ⟨hfirst, hrest⟩ := List.pairwise_cons.mp hsorted
    rw [ih hrest h]
    by_cases hkey : k = key
    · subst hkey
      rw [lookup_eq_none_of_lt hfirst, lookup, if_pos rfl]
      cases hnull : value.isNull with
      | true => simp [hnull, lookup_erase_self]
      | false => simp [hnull, lookup_insert_self]
    · rw [lookup, if_neg hkey]
      congr 1
      split_ifs
      · exact lookup_erase_of_ne (Ne.symm hkey) rows
      · exact lookup_insert_of_ne (Ne.symm hkey) value rows

/-- A setting that is cleared and one that was never written read the same. -/
theorem getD_lookup_patchRows (hsorted : Sorted entries)
    (h : patchRows rows entries = .ok after) :
    (lookup key after).getD .null =
      (lookup key entries).getD ((lookup key rows).getD .null) := by
  rw [lookup_patchRows hsorted h]
  cases hentry : lookup key entries with
  | none => rfl
  | some value => cases value <;> rfl

/-- What an import leaves of a setting. -/
theorem getD_lookup_importSettings {body : Document} {result : Imported}
    (hsorted : Sorted body.settings) (h : importSettings rows body = .ok result) :
    body.version = exportVersion ∧ (∀ e ∈ body.settings, isInternal e.1 = false) ∧
      ∀ key, (lookup key result.rows).getD .null = mergedSetting rows body key := by
  obtain ⟨_, hversion, h⟩ := bind_eq_ok.mp h
  have hpublic : ∀ (doc rows : List (String × Json)) (result : Imported),
      importRows rows doc = .ok result → ∀ e ∈ doc, isInternal e.1 = false := by
    intro doc
    induction doc with
    | nil => simp
    | cons first rest ih =>
      intro rows result h
      obtain ⟨_, hfirst, h⟩ := bind_eq_ok.mp h
      rw [failIf_eq_ok, Bool.not_eq_true] at hfirst
      refine List.forall_mem_cons.mpr ⟨hfirst, ?_⟩
      split at h
      · obtain ⟨others, hothers, -⟩ := bind_eq_ok.mp h
        exact ih _ _ hothers
      · obtain ⟨others, hothers, -⟩ := bind_eq_ok.mp h
        exact ih _ _ hothers
  have hall := hpublic _ _ _ h
  obtain ⟨found, hfound, hrows⟩ := importRows_eq rows hall
  obtain rfl := Except.ok.inj (h.symm.trans hfound)
  refine ⟨not_not.mp (failIf_eq_ok.mp hversion), hall, fun key => ?_⟩
  rw [hrows, lookup_updateAll hsorted, mergedSetting]
  cases (lookup key body.settings).bind (mergedRow (lookup key rows)) <;> rfl

end Rows

/-! ### The triggers and the policies -/

section Catalog

variable {env : Environment} {db : Db} {enabled : Bool} {collections : List Collection}
  {triggers after : String → Bool}

theorem setTrigger_eq_ok {name : String} {published : Bool}
    (h : setTrigger db name published triggers = .ok after) :
    after = Function.update triggers name published := by
  obtain ⟨_, -, h⟩ := bind_eq_ok.mp h
  obtain ⟨_, -, h⟩ := bind_eq_ok.mp h
  exact (Except.ok.inj h).symm

/-- The switch leaves the triggers of other tables. -/
theorem applyGlobal_other (h : applyGlobal db enabled collections triggers = .ok after)
    {name : String} (hname : ∀ c ∈ collections, c.name ≠ name) : after name = triggers name := by
  induction collections generalizing triggers with
  | nil =>
    obtain rfl := Except.ok.inj h
    rfl
  | cons c rest ih =>
    obtain ⟨hfirst, hrest⟩ := List.forall_mem_cons.mp hname
    rw [applyGlobal] at h
    split_ifs at h
    · exact ih h hrest
    · obtain ⟨mid, hmid, h⟩ := bind_eq_ok.mp h
      rw [ih h hrest, setTrigger_eq_ok hmid, Function.update_of_ne (Ne.symm hfirst)]

/-- **The switch sets the trigger of every collection.** -/
theorem applyGlobal_published (h : applyGlobal db enabled collections triggers = .ok after)
    (hnames : (collections.map Collection.name).Nodup) {c : Collection} (hc : c ∈ collections)
    (htable : c.collectionType ≠ .view) : after c.name = isPublished c.options enabled := by
  induction collections generalizing triggers with
  | nil => cases hc
  | cons first rest ih =>
    obtain ⟨hfirst, hrest⟩ := List.nodup_cons.mp hnames
    rw [applyGlobal] at h
    rcases List.mem_cons.mp hc with rfl | hc
    · rw [if_neg htable] at h
      obtain ⟨mid, hmid, h⟩ := bind_eq_ok.mp h
      have hothers : ∀ d ∈ rest, d.name ≠ c.name :=
        fun d hd hsame => hfirst (hsame ▸ List.mem_map_of_mem hd)
      rw [applyGlobal_other h hothers, setTrigger_eq_ok hmid, Function.update_self]
    · split_ifs at h
      · exact ih h hrest hc
      · obtain ⟨mid, -, h⟩ := bind_eq_ok.mp h
        exact ih h hrest hc

/-- The policies are made of the rules alone. -/
theorem builds_of_applyRules {rules : FileRules} {policies made : Policies}
    (hknown : Known policies) (h : applyRules env rules policies = .ok made) :
    Builds env rules made := by
  obtain ⟨statements, hstatements, h⟩ := bind_eq_ok.mp h
  rw [okOr_eq_ok, execAll_policyStatements hstatements hknown] at h
  exact ⟨statements, hstatements, h⟩

theorem Builds.known {rules : FileRules} {policies : Policies} (h : Builds env rules policies) :
    Known policies := by
  obtain ⟨statements, hstatements, hexec⟩ := h
  exact known_of_policyStatements hstatements hexec

end Catalog

/-! ### What an action keeps in force -/

section Actions

variable {env : Environment} {s : Node} {action : Action}

/-- **A `PATCH` brings policies and triggers in line** with what it stores. -/
theorem patched_inForce {body : Json} {after : Node} (hbody : body.ordered = true)
    (hs : InForce env s) (h : patched env body s = .ok after) : InForce env after := by
  cases body with
  | object entries =>
    obtain ⟨hsorted, -⟩ := Json.ordered_object.mp hbody
    obtain ⟨rows, hrows, h⟩ := bind_eq_ok.mp h
    obtain ⟨policies, hpolicies, h⟩ := bind_eq_ok.mp h
    obtain ⟨triggers, htriggers, h⟩ := bind_eq_ok.mp h
    obtain rfl := Except.ok.inj h
    constructor
    · change Builds env (.fromSetting ((lookup "files" rows).getD .null)) policies
      rw [getD_lookup_patchRows hsorted hrows]
      cases hfiles : lookup "files" entries with
      | none =>
        rw [hfiles] at hpolicies
        obtain rfl := Except.ok.inj hpolicies
        exact hs.policies
      | some setting =>
        rw [hfiles] at hpolicies
        exact builds_of_applyRules hs.policies.known hpolicies
    · intro c hc htable
      change triggers c.name = isPublished c.options (globalEnabled rows)
      rw [globalEnabled_eq, getD_lookup_patchRows hsorted hrows]
      cases hrealtime : lookup "realtime" entries with
      | none =>
        rw [hrealtime] at htriggers
        obtain rfl := Except.ok.inj htriggers
        rw [Option.getD_none, ← globalEnabled_eq]
        exact hs.triggers c hc htable
      | some setting =>
        rw [hrealtime] at htriggers
        exact applyGlobal_published htriggers s.db.keyed.names hc htable
  | null | bool b | number n | string t | array items => cases h

/-- **An import keeps what is declared in force** where it redeclares nothing. -/
theorem imported_inForce {body : Document} {after : Node} (hbody : Sorted body.settings)
    (hs : InForce env s) (hfaithful : Faithful env s (.importSettings body))
    (h : imported body s = .ok after) : InForce env after := by
  obtain ⟨result, hresult, h⟩ := bind_eq_ok.mp h
  obtain rfl := Except.ok.inj h
  obtain ⟨hversion, hpublic, hrows⟩ := getD_lookup_importSettings hbody hresult
  obtain ⟨hrules, hswitch⟩ := not_or.mp (hfaithful hversion hpublic)
  constructor
  · change Builds env (.fromSetting ((lookup "files" result.rows).getD .null)) s.filePolicies
    rw [hrows, Builds, not_not.mp hrules]
    exact hs.policies
  · intro c hc htable
    change s.triggers c.name = isPublished c.options (globalEnabled result.rows)
    rw [globalEnabled_eq, hrows, hs.triggers c hc htable]
    by_cases hsame : enabledFromSetting (mergedSetting s.settings body "realtime") =
      globalEnabled s.settings
    · rw [hsame]
    · -- No collection publishes, so the switch is of no matter.
      have hoff : realtimeEnabled c.options = false := by
        rw [← Bool.not_eq_true]
        exact fun hon => hswitch ⟨hsame, c, hc, htable, hon⟩
      rw [isPublished, isPublished, hoff, Bool.and_false, Bool.and_false]

/-- What was declared before has its trigger. -/
theorem InForce.of_declared (hs : InForce env s) {c : Collection} (htable : c.collectionType ≠ .view)
    (h : Db.declarationOf c ∈ s.db.declared) :
    s.triggers c.name = isPublished c.options (globalEnabled s.settings) := by
  obtain ⟨d, hd, hsame⟩ := List.mem_map.mp h
  obtain ⟨-, hname, htype, hoptions⟩ := Db.Declaration.mk.inj hsame
  rw [← hname, ← hoptions]
  exact hs.triggers d hd (htype ▸ htable)

/-- The collections that are declared the same have the same triggers. -/
theorem inForce_of_declared {db : Db} (hs : InForce env s)
    (h : ∀ c ∈ db.collections, c.collectionType ≠ .view → Db.declarationOf c ∈ s.db.declared) :
    InForce env { s with db } := by
  refine ⟨hs.policies, fun c hc htable => ?_⟩
  exact hs.of_declared htable (h c hc htable)

/-- What an operation leaves where it succeeds. -/
theorem inForce_of_ok {outcome : Result Collection × Db} {triggers : Collection → String → Bool}
    {answer : Collection} {db : Db} (hs : InForce env s) (houtcome : outcome = (.ok answer, db))
    (h : ∀ c ∈ db.collections, c.collectionType ≠ .view →
      triggers answer c.name = isPublished c.options (globalEnabled s.settings)) :
    InForce env (onCollections s outcome triggers) := by
  subst houtcome
  exact ⟨hs.policies, h⟩

/-- What an operation leaves where it fails. -/
theorem inForce_of_error {outcome : Result Collection × Db} {triggers : Collection → String → Bool}
    {e : Error} {db : Db} (hs : InForce env s) (houtcome : outcome = (.error e, db))
    (h : ∀ c ∈ db.collections, c.collectionType ≠ .view → Db.declarationOf c ∈ s.db.declared) :
    InForce env (onCollections s outcome triggers) := by
  subst houtcome
  exact inForce_of_declared hs h

/-- A creation sets the trigger of a new table; one that is adopted has it as declared. -/
theorem create_inForce {input : CreateCollection} {ids : Ids} (hs : InForce env s)
    (hfaithful : Faithful env s (.create input ids)) :
    InForce env (onCollections s (create env.sha env.server env.toQuery input ids s.db)
      (afterCreate s)) := by
  cases hcreate : create env.sha env.server env.toQuery input ids s.db with
  | mk r db =>
    cases r with
    | error e =>
      obtain rfl := create_eq_error hcreate
      exact inForce_of_error hs rfl fun c hc _ => List.mem_map_of_mem hc
    | ok created =>
      obtain ⟨hdeclared, hname, htype, hinput⟩ := create_declared hcreate
      obtain ⟨hnew, -⟩ := create_labels hcreate
      refine inForce_of_ok hs rfl fun c hc htable => ?_
      have hmem : Db.declarationOf c ∈ s.db.declared ++ [Db.declarationOf created] :=
        hdeclared ▸ List.mem_map_of_mem hc
      unfold afterCreate
      rcases List.mem_append.mp hmem with hold | hcreated
      · split_ifs
        · exact hs.of_declared htable hold
        · obtain ⟨d, hd, hsame⟩ := List.mem_map.mp hold
          have hne : c.name ≠ created.name := by
            rw [hname, ← (Db.Declaration.mk.inj hsame).2.1]
            exact (hnew d hd).2.1
          rw [Function.update_of_ne hne]
          exact hs.of_declared htable hold
      · obtain ⟨-, hsame, hsameType, hoptions⟩ :=
          Db.Declaration.mk.inj (List.mem_singleton.mp hcreated)
        have hnotView : input.collectionType ≠ .view := htype ▸ hsameType ▸ htable
        obtain ⟨hgiven, hadopts⟩ := hinput hnotView
        rw [hsame, hoptions]
        split_ifs with hkept
        · have htaken : s.db.nameTaken input.name = true :=
            hname ▸ hkept.resolve_left (htype ▸ hnotView)
          rw [hname, hgiven]
          exact hfaithful hnotView (hadopts htaken) htaken
        · exact Function.update_self _ _ _

/-- An update of a table sets the trigger of its collection. -/
theorem updateTable_inForce {key : String} {input : UpdateCollection} {ids : ℕ → String}
    {existing : Collection} (hs : InForce env s) (hget : get s.db key = .ok existing)
    (htype : existing.collectionType ≠ .view)
    (hid : ∀ c ∈ s.db.collections, c.name = existing.id → c.id = existing.id) :
    InForce env (onCollections s (update env.sha env.server env.toQuery key input ids s.db)
      (afterUpdate s key input)) := by
  cases hupdate : update env.sha env.server env.toQuery key input ids s.db with
  | mk r db =>
    cases r with
    | error e =>
      refine inForce_of_error hs rfl fun c hc _ => ?_
      rw [← update_error_declared hget htype hupdate]
      exact List.mem_map_of_mem hc
    | ok updated =>
      have hdeclared := update_declared hget htype hupdate
      obtain ⟨-, -, -, -, -, hupdated⟩ := (update_eq_ok hget htype).mp hupdate
      have hlabels : db.labels = s.db.labels := by
        simpa only [hupdate] using
          @update_labels env.sha env.server env.toQuery s.db key input ids
      obtain ⟨stored, hstored, rfl, -⟩ := exists_of_get hget
      -- The collection that is read by the id is the one that was found by the key.
      obtain ⟨hname, hsameType⟩ : updated.name = stored.name ∧
          updated.collectionType = stored.collectionType := by
        obtain ⟨found, hfound, rfl, hkey⟩ := exists_of_get hupdated
        have hlabel : (found.id, found.name, found.collectionType) ∈ s.db.labels :=
          hlabels ▸ List.mem_map_of_mem hfound
        obtain ⟨d, hd, hsame⟩ := List.mem_map.mp hlabel
        have hdid : d.id = found.id := congrArg Prod.fst hsame
        have hdname : d.name = found.name := congrArg (fun l => l.2.1) hsame
        have hsameId : d.id = stored.id := by
          rcases hkey with hkey | hkey
          · exact hdid.trans hkey
          · exact hid d hd (hdname.trans hkey)
        obtain rfl := List.inj_on_of_nodup_map s.db.keyed.ids hd hstored hsameId
        exact ⟨hdname.symm, (congrArg (fun l => l.2.2) hsame).symm⟩
      refine inForce_of_ok hs rfl fun c hc htable => ?_
      unfold afterUpdate
      rw [hget]
      dsimp only
      rw [if_neg (not_or.mpr ⟨htype, hsameType ▸ htype⟩)]
      have hmem : Db.declarationOf c ∈ s.db.declared.map (Db.redeclare stored.id
          (input.options.getD (loadFields s.db stored).options)) :=
        hdeclared ▸ List.mem_map_of_mem hc
      by_cases hown : c.id = stored.id
      · obtain ⟨d, hd, hsame⟩ := List.mem_map.mp hmem
        obtain ⟨collection, hcollection, rfl⟩ := List.mem_map.mp hd
        unfold Db.redeclare at hsame
        split_ifs at hsame with hsameId
        · obtain ⟨-, hcname, -, hoptions⟩ := Db.Declaration.mk.inj hsame
          obtain rfl := List.inj_on_of_nodup_map s.db.keyed.ids hcollection hstored hsameId
          rw [← hcname, ← hoptions, hname]
          exact Function.update_self _ _ _
        · exact absurd ((Db.Declaration.mk.inj hsame).1.trans hown) hsameId
      · have hold := Db.mem_of_redeclare hmem hown
        obtain ⟨d, hd, hsame⟩ := List.mem_map.mp hold
        obtain ⟨hdid, hdname, -, -⟩ := Db.Declaration.mk.inj hsame
        have hne : c.name ≠ updated.name := by
          rw [hname, ← hdname]
          intro hsameName
          obtain rfl := List.inj_on_of_nodup_map s.db.keyed.names hd hstored hsameName
          exact hown hdid.symm
        rw [Function.update_of_ne hne]
        exact hs.of_declared htable hold

/-- An update sets the trigger of its collection; a view has none. -/
theorem update_inForce {key : String} {input : UpdateCollection} {ids : ℕ → String}
    (hs : InForce env s) (hfaithful : Faithful env s (.update key input ids)) :
    InForce env (onCollections s (update env.sha env.server env.toQuery key input ids s.db)
      (afterUpdate s key input)) := by
  cases hget : get s.db key with
  | error e =>
    rw [update_of_get_error hget]
    exact inForce_of_error hs rfl fun c hc _ => List.mem_map_of_mem hc
  | ok existing =>
    by_cases htype : existing.collectionType = .view
    · have hkept : ∀ c ∈ (update env.sha env.server env.toQuery key input ids s.db).2.collections,
          c.collectionType ≠ .view → Db.declarationOf c ∈ s.db.declared := fun c hc htable =>
        List.mem_map_of_mem (update_view_declared hget htype hc htable)
      cases hupdate : update env.sha env.server env.toQuery key input ids s.db with
      | mk r db =>
        rw [hupdate] at hkept
        cases r with
        | error e => exact inForce_of_error hs rfl hkept
        | ok updated =>
          refine inForce_of_ok hs rfl fun c hc htable => ?_
          unfold afterUpdate
          rw [hget]
          dsimp only
          rw [if_pos (.inl htype)]
          exact hs.of_declared htable (hkept c hc htable)
    · exact updateTable_inForce hs hget htype (hfaithful existing hget)

/-- A deletion takes the trigger of its table along. -/
theorem delete_inForce {key : String} {dropData : Bool} (hs : InForce env s) :
    InForce env (onCollections s (delete env.server key dropData s.db)
      fun c => afterDelete s c dropData) := by
  cases hdelete : delete env.server key dropData s.db with
  | mk r db =>
    cases r with
    | error e =>
      obtain rfl := delete_error hdelete
      exact inForce_of_error hs rfl fun c hc _ => List.mem_map_of_mem hc
    | ok deleted =>
      obtain ⟨hget, hcollections⟩ := delete_collections hdelete
      obtain ⟨stored, hstored, rfl, -⟩ := exists_of_get hget
      refine inForce_of_ok hs rfl fun c hc htable => ?_
      rw [hcollections, List.mem_filter] at hc
      have hne : c.name ≠ stored.name := by
        intro hsame
        obtain rfl := List.inj_on_of_nodup_map s.db.keyed.names hc.1 hstored hsame
        exact of_decide_eq_true hc.2 rfl
      have hkept := hs.triggers c hc.1 htable
      unfold afterDelete
      split_ifs
      · exact (Function.update_of_ne hne _ _).trans hkept
      · exact hkept

/-- An adoption leaves the triggers as they are, and they are to be those of collections that publish. -/
theorem reflect_inForce {ids : Reflect.Ids} (hs : InForce env s)
    (hfaithful : Faithful env s (.reflect ids)) :
    InForce env { s with db := (Reflect.reflect env.server env.catalog ids s.db).2 } := by
  refine ⟨hs.policies, fun c hc htable => ?_⟩
  change s.triggers c.name = isPublished c.options (globalEnabled s.settings)
  rcases Reflect.reflect_declared ids _ (List.mem_map_of_mem hc) with hold | ⟨hadopted, hoptions⟩
  · exact hs.of_declared htable hold
  · have hon : realtimeEnabled c.options = true := by
      rw [realtimeEnabled, show c.options.get "realtime" = none from hoptions]
      rfl
    rw [isPublished, hon, Bool.and_true]
    exact hfaithful _ hadopted

/-- **An action that keeps to what is declared leaves it in force.** -/
theorem perform_inForce (hread : action.Read) (hs : InForce env s) (hfaithful : Faithful env s action) :
    InForce env (perform env s action) := by
  cases action with
  | patchSettings body =>
    cases hpatched : patched env body s with
    | error e => simpa only [perform, orElse, hpatched] using hs
    | ok after => simpa only [perform, orElse, hpatched] using patched_inForce hread hs hpatched
  | importSettings body =>
    cases himported : imported body s with
    | error e => simpa only [perform, orElse, himported] using hs
    | ok after =>
      simpa only [perform, orElse, himported] using imported_inForce hread hs hfaithful himported
  | create input ids => exact create_inForce hs hfaithful
  | update key input ids => exact update_inForce hs hfaithful
  | delete key dropData => exact delete_inForce hs
  | reflect ids => exact reflect_inForce hs hfaithful

/-- **What is declared stays in force along every run** whose actions keep to it, in every state that
it comes to. -/
theorem inForce_of_run {actions : List Action} (hread : ∀ action ∈ actions, action.Read)
    (hs : InForce env s)
    (hfaithful : ∀ earlier action later, actions = earlier ++ action :: later →
      Faithful env (performAll env s earlier) action) {earlier later : List Action}
    (hsplit : actions = earlier ++ later) : InForce env (performAll env s earlier) := by
  induction earlier using List.reverseRecOn generalizing later with
  | nil => exact hs
  | append_singleton earlier action ih =>
    rw [List.append_assoc, List.singleton_append] at hsplit
    rw [performAll, List.foldl_append]
    exact perform_inForce (hread action (hsplit ▸ by simp)) (ih hsplit)
      (hfaithful earlier action later hsplit)

end Actions

/-! ### A setting that is stored only -/

/-- A database that refuses nothing and has no tables of its own. -/
def Environment.lenient : Environment where
  sha := noSha
  server := .lenient
  toQuery := noBuilder
  catalog := ⟨fun _ => [], fun _ => []⟩
  accepts _ := true

/-- The policies of the rules, where the database accepts all of them. -/
def builtPolicies (rules : FileRules) : Policies :=
  ((policyStatements rules).toOption.bind fun statements =>
    PolicyStatement.execAll (fun _ => true) statements fun _ => none).getD fun _ => none

/-- A server without collections and settings. -/
def Node.fresh : Node := ⟨.empty, [], builtPolicies (loadRules []), fun _ => false⟩

theorem inForce_fresh : InForce .lenient .fresh where
  policies := ⟨_, rfl, rfl⟩
  triggers _ hc _ := (List.not_mem_nil hc).elim

/-- Rules under which anyone may list the files. -/
def publicFiles : List (String × Json) :=
  [("files", .object [("rules", .object [("listRule", .string "")])])]

/-- A name for the application. -/
def nameDocument : Document := ⟨1, [("app_name", .string "pock")], []⟩

/-- The rules are written by a `PATCH`, and a document is imported that says nothing of them. -/
theorem inForce_of_run_files :
    let s := performAll .lenient .fresh [.patchSettings (.object publicFiles),
      .importSettings nameDocument]
    InForce .lenient s ∧ s.filePolicies "lazypock_files_list" ≠ none := by
  have hread : ∀ action ∈ [Action.patchSettings (.object publicFiles),
      .importSettings nameDocument], action.Read := by
    intro action haction
    rcases List.mem_cons.mp haction with rfl | haction
    · exact (by decide : (Json.object publicFiles).ordered = true)
    · obtain rfl := List.mem_singleton.mp haction
      exact (by decide : Sorted nameDocument.settings)
  have hfaithful : ∀ earlier action later, [Action.patchSettings (.object publicFiles),
      .importSettings nameDocument] = earlier ++ action :: later →
      Faithful .lenient (performAll .lenient .fresh earlier) action := by
    intro earlier action later hactions
    rcases earlier with _ | ⟨first, _ | ⟨second, rest⟩⟩
    · obtain ⟨rfl, -⟩ := List.cons.inj hactions
      trivial
    · obtain ⟨rfl, hrest⟩ := List.cons.inj hactions
      obtain ⟨rfl, -⟩ := List.cons.inj hrest
      rintro - - (hrules | ⟨-, c, hc, -⟩)
      · exact hrules rfl
      · exact List.not_mem_nil hc
    · simp at hactions
  exact ⟨inForce_of_run hread inForce_fresh hfaithful (List.append_nil _).symm, by decide⟩

/-- **An import whose rules are not in force**: anyone may list the files as the settings say, and no
policy lets them. -/
theorem import_leaves_policies :
    ¬ ∀ (env : Environment) (s : Node) (actions : List Action), (∀ action ∈ actions, action.Read) →
      InForce env s → InForce env (performAll env s actions) := by
  intro hclaim
  have hread : ∀ action ∈ [Action.importSettings ⟨1, publicFiles, []⟩], action.Read := by
    intro action haction
    obtain rfl := List.mem_singleton.mp haction
    exact (by decide : Sorted publicFiles)
  obtain ⟨statements, hstatements, hexec⟩ := (hclaim .lenient .fresh _ hread inForce_fresh).policies
  have hsettings : (performAll .lenient .fresh [.importSettings ⟨1, publicFiles, []⟩]).settings =
    publicFiles := by decide
  have hlist : (performAll .lenient .fresh [.importSettings ⟨1, publicFiles, []⟩]).filePolicies
    "lazypock_files_list" = none := by decide
  have hbuilt : (policyStatements (loadRules publicFiles)).map (fun statements =>
      (PolicyStatement.execAll (fun _ => true) statements fun _ => none).map fun policies =>
        policies "lazypock_files_list") =
      .ok (some (some ⟨"select", duringAction "list" " and (true)", none⟩)) := by rfl
  rw [hsettings] at hstatements
  rw [hstatements] at hbuilt
  have hmade : (PolicyStatement.execAll (fun _ => true) statements fun _ => none).map (fun policies =>
      policies "lazypock_files_list") = some none := by
    have hexec : PolicyStatement.execAll (fun _ => true) statements (fun _ => none) = some _ := hexec
    rw [hexec, Option.map_some, hlist]
  cases (Except.ok.inj hbuilt).symm.trans hmade

end LazyPock.Settings
