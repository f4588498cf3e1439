import LazyPock.Files.Ownership
import LazyPock.Records.Write
import LazyPock.Schema.Cache
import LazyPock.Schema.Indexes

/-!
# Batches

`POST /api/batch` runs several record requests in one transaction (`crates/api/src/batch.rs`). Each of
them is written out a second time there, next to the route that serves it alone. The two differ: a
batch does not release the files of a record it deletes, does not end the sessions of an account whose
password it changes, and does not validate a body before the hooks have run.

`Records.batch_keeps_step` says that a batch does what its requests do one by one exactly when these
make no difference, for hooks that stay away from the database, and that a batch that fails leaves the
database as it was.

## Main definitions

* `Records.plan`, `Records.Step`.
* `Records.runStep`, `Records.batch`.
* `Records.single`: the route of a step.
* `Records.Step.Agrees`: where the two do the same.

## Main results

* `Records.single_eq_alone_iff`: a batch of one step.
* `Records.batch_keeps_step`, `Records.batch_delete_keeps_files`.
-/

namespace LazyPock.Records

open Text Machine Saga

/-! ### Planning -/

/-- One operation. -/
structure BatchItem where
  method : String
  url : String
  body : Option Json

/-- What a planned step does. -/
inductive Operation where
  | post (input : Json)
  | patch (id : String) (input : Json)
  | delete (id : String)
  | get (id : String)

/-- A planned and validated operation, with the random values it will draw. -/
structure Step where
  /-- The collection, as the URL spells it. -/
  path : String
  collection : Collection
  context : FilterContext
  isTable : collection.collectionType ≠ .view
  operation : Operation
  draws : Draws

/-- `strip_prefix` -/
def stripPrefix (start : String) (s : String) : Option String :=
  if start.toList.isPrefixOf s.toList then some (String.ofList (s.toList.drop start.toList.length))
  else none

/-- Parse `/api/collections/{collection}/records` or `.../records/{id}`. -/
def parseRecordUrl (url : String) : Option (String × Option String) := do
  let rest ← stripPrefix "/api/collections/" url
  let (collection, rest) ← splitOnce '/' rest
  if collection = "" then none
  else do
    let rest ← stripPrefix "records" rest
    if rest = "" then some (collection, none)
    else do
      let id ← stripPrefix "/" rest
      if id = "" ∨ '/' ∈ id.toList then none else some (collection, some id)

/-- The body of a create or an update. -/
def planInput (method : String) (body : Option Json) : Result Json := do
  let body ← okOr (.invalid (method ++ " needs a request body")) body
  failIf (body.isObject = false) (.invalid "the request body must be a JSON object of field values")
  .ok body

/-- The operation of a method on a URL that has an id or none. -/
def planOperation (method : String) (id : Option String) (body : Option Json) : Result Operation :=
  let needsId := .error (.invalid (method ++ " needs a record id in the URL"))
  match method, id with
  | "POST", some _ => .error (.invalid "POST takes the collection URL without a record id")
  | "POST", none => return .post (← planInput method body)
  | "PATCH", some id => return .patch id (← planInput method body)
  | "DELETE", some id => .ok (.delete id)
  | "GET", some id => .ok (.get id)
  | _, _ => needsId

/-- `GET`, `POST`, `PATCH` or `DELETE`. -/
def planMethod (method : String) : Result String :=
  match Indexes.toAsciiUppercase method with
  | "POST" => .ok "POST"
  | "PATCH" | "PUT" => .ok "PATCH"
  | "DELETE" => .ok "DELETE"
  | "GET" => .ok "GET"
  | other => .error (.unsupported ("`" ++ other ++
      "` is not supported in a batch; use GET, POST, PATCH or DELETE"))

def plan (schema : Schema) (item : BatchItem) (draws : Draws) : Result Step := do
  failIf ('?' ∈ item.url.toList ∨ '#' ∈ item.url.toList)
    (.unsupported "batch URLs cannot carry query parameters")
  let method ← planMethod item.method
  let (name, id) ← okOr (.invalid ("`" ++ item.url ++ "` is not a record URL; a batch accepts " ++
    "/api/collections/\x7bcollection\x7d/records or .../records/\x7bid\x7d")) (parseRecordUrl item.url)
  let ⟨collection, context⟩ ← schema.resolve name
  if hview : collection.collectionType = .view then
    .error (.unsupported ("the collection " ++ debug name ++
      " is a view: a batch does not support view collections"))
  else do
    let operation ← planOperation method id item.body
    .ok ⟨name, collection, context, hview, operation, draws⟩

/-! ### Running -/

/-- The action a step declares. -/
@[grind =]
def Operation.action : Operation → Action
  | .post _ => .write
  | .patch _ _ => .update
  | .delete _ => .delete
  | .get _ => .view

variable {ρ : Type} (hooks : Hooks ρ) (backend : Backend ρ) (principal : Principal) (now : Int)

/-- What a step answers, and the hooks that are to follow it. -/
abbrev Produced := (ℕ × Json) × Option HookCall

/-- `execute` -/
def Step.execute (step : Step) : Saga (Work ρ) Error Produced :=
  let collection := step.collection
  let context := hookContext principal collection.name step.operation.action
  match step.operation with
  | .post input => do
    let extra := Auth.authColumns collection input step.draws.hashed step.draws.tokenKey
    let record ← createWith hooks backend context collection input extra step.draws.newId
    syncFiles principal now collection record
    pure ((201, record), some ⟨context, .create, collection.name, record⟩)
  | .patch id input => do
    let extra := Auth.authColumns collection input step.draws.hashed step.draws.tokenKey
    let record ← updateWith hooks backend context collection id input extra
    match record with
    | some record => do
      syncFiles principal now collection record
      pure ((200, record), some ⟨context, .update, collection.name, record⟩)
    | none => lift (.error (notFound collection.name id))
  | .delete id => do
    let existing ← getOne backend collection id
    onSome existing fun record => do
      let _ ← runBefore hooks ⟨context, .delete, collection.name, record⟩
      pure ()
    let removed ← delete backend collection id
    if removed then
      pure ((204, .null), existing.map fun record => ⟨context, .delete, collection.name, record⟩)
    else lift (.error (notFound collection.name id))
  | .get id => do
    let record ← getOne backend collection id
    match record with
    | some record => pure ((200, record), none)
    | none => lift (.error (notFound collection.name id))

/-- One round of `run`: the context is applied again for every step. -/
def runStep (step : Step) : Saga (Work ρ) Error Produced := do
  apply (principal.requestContext step.operation.action)
  step.execute hooks backend principal now

/-- `run`: the answers of all steps, and the hooks that are to follow them. -/
def run : List Step → Saga (Work ρ) Error (List (ℕ × Json) × List HookCall)
  | [] => pure ([], [])
  | step :: rest => do
    let (result, produced) ← runStep hooks backend principal now step
    let (results, after) ← run rest
    pure (result :: results, produced.toList ++ after)

/-- The hooks after a batch, in the order the steps ran; the first that fails is the last. -/
def runAfters : List HookCall → Saga (Site ρ) Error Unit
  | [] => pure ()
  | call :: rest => do
    runAfter hooks call
    runAfters rest

/-- A batch of planned steps. -/
def runBatch (steps : List Step) : Saga (Site ρ) Error (List (ℕ × Json)) := do
  let (results, after) ← transaction (run hooks backend principal now steps)
  runAfters hooks after
  pure results

/-- `MAX_BATCH_REQUESTS` -/
def maxBatchRequests : ℕ := 50

/-- `POST /api/batch`: everything is planned before anything is written. -/
def batch (schema : Schema) (items : List (BatchItem × Draws)) :
    Saga (Site ρ) Error (List (ℕ × Json)) := do
  lift (failIf (items = []) (.invalid "a batch needs at least one request"))
  lift (failIf (maxBatchRequests < items.length)
    (.invalid ("a batch accepts at most " ++ toString maxBatchRequests ++ " requests, got " ++
      toString items.length)))
  let steps ← lift (items.mapM fun (item, draws) => plan schema item draws)
  runBatch hooks backend principal now steps

/-! ### One by one -/

/-- The request of a step, through its own route. -/
def single (step : Step) : Saga (Site ρ) Error (ℕ × Json) :=
  match step.operation with
  | .post input => createRecord hooks backend principal now step.collection input step.draws
  | .patch id input =>
    updateRecord hooks backend principal now step.collection step.path id input step.draws
  | .delete id => deleteRecord hooks backend principal step.collection step.path id
  | .get id => viewRecord backend principal step.collection step.path id

/-- Requests, one after the other. -/
@[grind =]
def inTurn {α β : Type} (f : α → Saga (Site ρ) Error β) : List α → Saga (Site ρ) Error (List β)
  | [] => pure []
  | a :: rest => do
    let b ← f a
    let bs ← inTurn f rest
    pure (b :: bs)

theorem inTurn_take {α β : Type} {f : α → Saga (Site ρ) Error β} {as : List α} {site site' : Site ρ}
    {bs : List β} (h : inTurn f as site = (.ok bs, site')) (n : ℕ) :
    ∃ bs' t, inTurn f (as.take n) site = (.ok bs', t) := by
  induction as generalizing site site' bs n with
  | nil => exact ⟨[], site, by rw [List.take_nil]; rfl⟩
  | cons a rest ih =>
    cases n with
    | zero => exact ⟨[], site, rfl⟩
    | succ n =>
      obtain ⟨b, first, hfirst, h⟩ := Saga.bind_eq_ok.mp h
      obtain ⟨_, _, hrest, -⟩ := Saga.bind_eq_ok.mp h
      obtain ⟨bs', t, htake⟩ := ih hrest n
      exact ⟨b :: bs', t, Saga.bind_eq_ok.mpr ⟨b, first, hfirst,
        Saga.bind_eq_ok.mpr ⟨bs', t, htake, rfl⟩⟩⟩

/-- The requests of a batch, one by one. -/
def singles (steps : List Step) : Saga (Site ρ) Error (List (ℕ × Json)) :=
  inTurn (single hooks backend principal now) steps

/-! ### Where the two agree -/

/-- A batch of one step. -/
def alone (step : Step) : Saga (Site ρ) Error (ℕ × Json) := do
  let (result, produced) ← transaction (runStep hooks backend principal now step)
  runAfters hooks produced.toList
  pure result

/-- The step does the same in a batch and alone. -/
def Step.Agrees (step : Step) (data : Data ρ) : Prop :=
  match step.operation with
  -- The route validates the body of an account before the hooks run.
  | .post input => step.collection.collectionType.isAuth = true →
      validateFirst backend step.collection input false = .ok ()
  -- The route validates the changes before the hooks run, and a new password ends the sessions.
  | .patch id input => validateFirst backend step.collection input true = .ok () ∧
      (Auth.authColumns step.collection input step.draws.hashed step.draws.tokenKey ≠ [] →
        data.revokeForUser step.collection.id id now = data)
  -- The route releases the files of the record.
  | .delete id => ∀ existing, backend.read (principal.requestContext .delete) step.collection id
      data.records = .ok existing → data.releaseFiles step.collection id existing = data
  | .get _ => True

/-- Every step of a list does the same in a batch and alone, each on the database that the steps before
it have left. -/
def Agree : List Step → Data ρ → Prop
  | [], _ => True
  | step :: rest, data => step.Agrees backend principal now data ∧
      Agree rest (runStep hooks backend principal now step (.begin data)).2.view

section Detached

variable {hooks backend principal now} (hhooks : hooks.Detached)

variable {site site' : Site ρ}

theorem transaction_eq_ok {α : Type} {work : Saga (Work ρ) Error α} {a : α} :
    transaction work site = (.ok a, site') ↔ ∃ w, work (.begin site.data) = (.ok a, w) ∧
      site' = ⟨w.view, site.before ++ w.calls, site.after⟩ := by
  unfold transaction
  cases h : work (.begin site.data) with
  | mk r w => cases r <;> simp [eq_comm]

include hhooks

theorem runAfter_eq (call : HookCall) (site : Site ρ) :
    runAfter hooks call site = (.ok (), { site with after := site.after ++ [call] }) := by
  simp [runAfter, hhooks.after, hhooks.appAfter]

theorem runAfters_eq (calls : List HookCall) (site : Site ρ) :
    runAfters hooks calls site = (.ok (), { site with after := site.after ++ calls }) := by
  induction calls generalizing site with
  | nil => simp [runAfters]
  | cons call rest ih =>
    rw [runAfters, bind_of_ok (runAfter_eq hhooks call site), ih]
    simp

variable {result : ℕ × Json}

theorem alone_eq_ok {step : Step} :
    alone hooks backend principal now step site = (.ok result, site') ↔
      ∃ produced w, runStep hooks backend principal now step (.begin site.data) =
          (.ok (result, produced), w) ∧
        site' = ⟨w.view, site.before ++ w.calls, site.after ++ produced.toList⟩ := by
  unfold alone
  rw [Saga.bind_eq_ok]
  constructor
  · rintro ⟨⟨result', produced⟩, t, htransaction, h⟩
    obtain ⟨w, hw, rfl⟩ := transaction_eq_ok.mp htransaction
    have hafters := (bind_of_ok (runAfters_eq hhooks _ _) _).symm.trans h
    obtain ⟨hresult, hsite⟩ := Prod.mk.inj hafters
    obtain rfl := Except.ok.inj hresult
    exact ⟨produced, w, hw, hsite.symm⟩
  · rintro ⟨produced, w, hw, rfl⟩
    exact ⟨(result, produced), _, transaction_eq_ok.mpr ⟨w, hw, rfl⟩,
      bind_of_ok (runAfters_eq hhooks _ _) _⟩

/-! ### One step -/

variable {collection : Collection} {context : FilterContext}
  {isTable : collection.collectionType ≠ .view}

theorem post_eq_iff {path : String} {input : Json} {draws : Draws}
    (h : alone hooks backend principal now ⟨path, collection, context, isTable, .post input, draws⟩
      site = (.ok result, site')) :
    createRecord hooks backend principal now collection input draws site = (.ok result, site') ↔
      (collection.collectionType.isAuth = true →
        validateFirst backend collection input false = .ok ()) := by
  obtain ⟨produced, w, hrun, rfl⟩ := (alone_eq_ok hhooks).mp h
  obtain ⟨_, a, happly, hrun⟩ := Saga.bind_eq_ok.mp hrun
  obtain ⟨record, t, hcreate, hrun⟩ := Saga.bind_eq_ok.mp hrun
  obtain ⟨_, t', hsync, hrun⟩ := Saga.bind_eq_ok.mp hrun
  obtain ⟨hproduced, rfl⟩ := Prod.mk.inj hrun
  obtain ⟨rfl, rfl⟩ := Prod.mk.inj (Except.ok.inj hproduced)
  unfold createRecord
  rw [lift_bind_eq_ok]
  constructor
  · rintro ⟨_, hvalid, -⟩ hauth
    rwa [if_pos hauth] at hvalid
  · intro hvalid
    refine ⟨(), ?_, Saga.bind_eq_ok.mpr ⟨record, _, transaction_eq_ok.mpr ⟨t', ?_, rfl⟩,
      bind_of_ok (runAfter_eq hhooks _ _) _⟩⟩
    · split_ifs with hauth
      · exact hvalid hauth
      · rfl
    · exact Saga.bind_eq_ok.mpr ⟨(), a, happly, Saga.bind_eq_ok.mpr ⟨record, t, hcreate,
        Saga.bind_eq_ok.mpr ⟨(), t', hsync, rfl⟩⟩⟩

theorem patch_eq_iff {path id : String} {input : Json} {draws : Draws}
    (h : alone hooks backend principal now
      ⟨path, collection, context, isTable, .patch id input, draws⟩ site = (.ok result, site')) :
    updateRecord hooks backend principal now collection path id input draws site =
        (.ok result, site') ↔
      validateFirst backend collection input true = .ok () ∧
        (Auth.authColumns collection input draws.hashed draws.tokenKey ≠ [] →
          site.data.revokeForUser collection.id id now = site.data) := by
  obtain ⟨produced, w, hrun, rfl⟩ := (alone_eq_ok hhooks).mp h
  obtain ⟨_, a, happly, hrun⟩ := Saga.bind_eq_ok.mp hrun
  obtain ⟨updated, t, hupdate, hrun⟩ := Saga.bind_eq_ok.mp hrun
  cases updated with
  | none => cases hrun
  | some record =>
    obtain ⟨_, t', hsync, hrun⟩ := Saga.bind_eq_ok.mp hrun
    obtain ⟨hproduced, rfl⟩ := Prod.mk.inj hrun
    obtain ⟨rfl, rfl⟩ := Prod.mk.inj (Except.ok.inj hproduced)
    dsimp only [Operation.action] at happly hupdate hsync ⊢
    -- The update has left the sessions alone.
    have hsessions : t.view.sessions = site.data.sessions := by
      have hrest : t.view.rest = a.view.rest := (keeps_updateWith hhooks _ _ _ _ _).of_eq hupdate
      rw [show t.view.sessions = a.view.sessions from congrArg (fun r => r.2.2) hrest,
        ← (Prod.mk.inj happly).2]
      rfl
    unfold updateRecord
    constructor
    · intro hsingle
      obtain ⟨record', s₁, htransaction, hsingle⟩ := Saga.bind_eq_ok.mp hsingle
      obtain ⟨w, hwork, rfl⟩ := transaction_eq_ok.mp htransaction
      obtain ⟨_, a', happly', hwork⟩ := Saga.bind_eq_ok.mp hwork
      obtain rfl : a = a' := (Prod.mk.inj (happly.symm.trans happly')).2
      obtain ⟨_, hvalid, hwork⟩ := lift_bind_eq_ok.mp hwork
      obtain ⟨updated', t₁, hupdate', hwork⟩ := Saga.bind_eq_ok.mp hwork
      obtain ⟨hupdated, rfl⟩ := Prod.mk.inj (hupdate.symm.trans hupdate')
      obtain rfl := Except.ok.inj hupdated
      obtain ⟨_, t₂, hrevoke, hwork⟩ := Saga.bind_eq_ok.mp hwork
      obtain ⟨_, t₃, hsync', hwork⟩ := Saga.bind_eq_ok.mp hwork
      obtain ⟨hrecord, rfl⟩ := Prod.mk.inj hwork
      obtain rfl := Except.ok.inj hrecord
      have hafter := (bind_of_ok (runAfter_eq hhooks _ _) _).symm.trans hsingle
      have hview : t₃.view = t'.view := congrArg Site.data (Prod.mk.inj hafter).2
      refine ⟨hvalid, fun hextra => ?_⟩
      rw [onlyIf, if_pos (decide_eq_true hextra)] at hrevoke
      have hleft : t₃.view.sessions = t₂.view.sessions :=
        (keeps_syncFiles collection record).of_eq hsync'
      have hright : t'.view.sessions = t.view.sessions :=
        (keeps_syncFiles collection record).of_eq hsync
      have hrevoked : t₂.view.sessions = t.view.sessions.revokeForUser collection.id id now := by
        rw [← (Prod.mk.inj hrevoke).2]
        rfl
      have hsame : site.data.sessions.revokeForUser collection.id id now = site.data.sessions := by
        rw [← hsessions, ← hrevoked, ← hleft, hview, hright]
      rw [Data.revokeForUser, hsame]
    · rintro ⟨hvalid, hagrees⟩
      refine Saga.bind_eq_ok.mpr ⟨some record, _, transaction_eq_ok.mpr ⟨t', ?_, rfl⟩,
        bind_of_ok (runAfter_eq hhooks _ _) _⟩
      refine Saga.bind_eq_ok.mpr ⟨(), a, happly, lift_bind_eq_ok.mpr ⟨(), hvalid,
        Saga.bind_eq_ok.mpr ⟨some record, t, hupdate, Saga.bind_eq_ok.mpr ⟨(), t, ?_,
          Saga.bind_eq_ok.mpr ⟨(), t', hsync, rfl⟩⟩⟩⟩⟩
      unfold onlyIf
      split_ifs with hextra
      · have hsame := congrArg Data.sessions (hagrees (of_decide_eq_true hextra))
        have hview : t.view.revokeForUser collection.id id now = t.view := by
          rw [Data.revokeForUser, hsessions]
          rw [show site.data.sessions.revokeForUser collection.id id now = site.data.sessions from
            hsame, ← hsessions]
        simp only [revokeForUser, execute, hview]
      · rfl

omit hhooks in
/-- Whether a release changes anything is up to the media library. -/
theorem releaseFiles_eq_self_congr {a b : Data ρ} (h : a.rest = b.rest) (collection : Collection)
    (id : String) (record : Option Json) :
    a.releaseFiles collection id record = a ↔ b.releaseFiles collection id record = b := by
  obtain ⟨recordsA, storeA, deletionsA, sessionsA⟩ := a
  obtain ⟨recordsB, storeB, deletionsB, sessionsB⟩ := b
  simp only [Data.rest, Prod.mk.injEq] at h
  obtain ⟨rfl, rfl, rfl⟩ := h
  simp [Data.releaseFiles]

theorem delete_eq_iff {path id : String} {draws : Draws}
    (h : alone hooks backend principal now
      ⟨path, collection, context, isTable, .delete id, draws⟩ site = (.ok result, site')) :
    deleteRecord hooks backend principal collection path id site = (.ok result, site') ↔
      ∀ existing, backend.read (principal.requestContext .delete) collection id site.data.records =
        .ok existing → site.data.releaseFiles collection id existing = site.data := by
  obtain ⟨produced, w, hrun, rfl⟩ := (alone_eq_ok hhooks).mp h
  obtain ⟨_, a, happly, hrun⟩ := Saga.bind_eq_ok.mp hrun
  obtain ⟨existing, b, hexisting, hrun⟩ := Saga.bind_eq_ok.mp hrun
  obtain ⟨_, c, hbefore, hrun⟩ := Saga.bind_eq_ok.mp hrun
  obtain ⟨removed, t, hdelete, hrun⟩ := Saga.bind_eq_ok.mp hrun
  dsimp only [Operation.action] at happly hexisting hbefore hdelete
  cases removed with
  | false => cases hrun
  | true =>
    obtain ⟨hproduced, rfl⟩ := Prod.mk.inj hrun
    obtain ⟨rfl, rfl⟩ := Prod.mk.inj (Except.ok.inj hproduced)
    obtain ⟨hread, rfl⟩ := Prod.mk.inj hexisting
    obtain ⟨-, rfl⟩ := Prod.mk.inj happly
    -- The hooks and the statement leave the media library alone.
    have hrest : t.view.rest = site.data.rest := by
      have hc : c.view.rest = _ :=
        Keeps.of_eq (Keeps.onSome fun record => (keeps_runBefore hhooks _).bind fun _ =>
          (Quiet.lift (.ok ())).keeps _) hbefore
      have ht : t.view.rest = c.view.rest := (keeps_delete _ _).of_eq hdelete
      exact ht.trans hc
    have hafters (s : Site ρ) : onSome existing (fun record => runAfter hooks
        ⟨hookContext principal collection.name .delete, .delete, collection.name, record⟩) s =
        (.ok (), { s with after := s.after ++ (existing.map fun record =>
          (⟨hookContext principal collection.name .delete, .delete, collection.name, record⟩ :
            HookCall)).toList }) := by
      cases existing with
      | none => simp [onSome]
      | some record => exact runAfter_eq hhooks _ _
    have hsingle : deleteRecord hooks backend principal collection path id site =
        (.ok (204, .null), ⟨t.view.releaseFiles collection id existing, site.before ++ t.calls,
          site.after ++ (existing.map fun record =>
            (⟨hookContext principal collection.name .delete, .delete, collection.name, record⟩ :
              HookCall)).toList⟩) := by
      refine Saga.bind_eq_ok.mpr ⟨(existing, true), _, transaction_eq_ok.mpr ⟨⟨t.committed,
        t.view.releaseFiles collection id existing, { t.session with role := .owner }, t.calls⟩, ?_,
        rfl⟩, ?_⟩
      · exact Saga.bind_eq_ok.mpr ⟨(), _, rfl, Saga.bind_eq_ok.mpr ⟨existing, _, Prod.ext hread rfl,
          Saga.bind_eq_ok.mpr ⟨(), c, hbefore, Saga.bind_eq_ok.mpr ⟨true, t, hdelete,
            Saga.bind_eq_ok.mpr ⟨(), _, rfl, rfl⟩⟩⟩⟩⟩
      · dsimp only
        rw [if_pos rfl]
        exact bind_of_ok (hafters _) _
    dsimp only [Operation.action]
    rw [hsingle]
    simp only [Prod.mk.injEq, true_and, Site.mk.injEq, and_true]
    rw [releaseFiles_eq_self_congr hrest]
    constructor
    · intro hsame existing' hread'
      rw [← Except.ok.inj (hread.symm.trans hread')]
      exact hsame
    · exact fun hall => hall existing hread

theorem get_eq {path id : String} {draws : Draws}
    (h : alone hooks backend principal now ⟨path, collection, context, isTable, .get id, draws⟩
      site = (.ok result, site')) :
    viewRecord backend principal collection path id site = (.ok result, site') := by
  obtain ⟨produced, w, hrun, rfl⟩ := (alone_eq_ok hhooks).mp h
  obtain ⟨_, a, happly, hrun⟩ := Saga.bind_eq_ok.mp hrun
  obtain ⟨record, b, hread, hrun⟩ := Saga.bind_eq_ok.mp hrun
  cases record with
  | none => cases hrun
  | some record =>
    obtain ⟨hproduced, rfl⟩ := Prod.mk.inj hrun
    obtain ⟨rfl, rfl⟩ := Prod.mk.inj (Except.ok.inj hproduced)
    refine Saga.bind_eq_ok.mpr ⟨some record, _, transaction_eq_ok.mpr ⟨b, ?_, rfl⟩, ?_⟩
    · exact Saga.bind_eq_ok.mpr ⟨(), a, happly, hread⟩
    · simp [okOr, bind_of_ok (lift_apply (.ok record) _)]

/-- **A step does the same in a batch of its own and through its route** exactly where the files, the
sessions and the early validation make no difference. -/
theorem single_eq_alone_iff {step : Step}
    (h : alone hooks backend principal now step site = (.ok result, site')) :
    single hooks backend principal now step site = (.ok result, site') ↔
      step.Agrees backend principal now site.data := by
  obtain ⟨path, collection, context, isTable, operation, draws⟩ := step
  cases operation with
  | post input => exact post_eq_iff hhooks h
  | patch id input => exact patch_eq_iff hhooks h
  | delete id => exact delete_eq_iff hhooks h
  | get id => exact iff_of_true (get_eq hhooks h) trivial

/-! ### All steps -/

theorem framed_runStep (step : Step) : Framed (runStep hooks backend principal now step) := by
  obtain ⟨path, collection, context, isTable, operation, draws⟩ := step
  refine (framed_apply _).bind fun _ => ?_
  cases operation with
  | post input =>
    exact (framed_createWith hhooks _ _ _ _ _).bind fun record =>
      (framed_syncFiles _ _).bind fun _ => Framed.pure _
  | patch id input =>
    refine (framed_updateWith hhooks _ _ _ _ _).bind fun record => ?_
    cases record with
    | some record => exact (framed_syncFiles _ _).bind fun _ => Framed.pure _
    | none => exact Framed.lift _
  | delete id =>
    refine (framed_query _).bind fun existing => (framed_onSome fun record =>
      (framed_runBefore hhooks _).bind fun _ => Framed.pure _).bind fun _ =>
        (framed_execute _).bind fun removed => ?_
    cases removed with
    | true => exact Framed.pure _
    | false => exact Framed.lift _
  | get id =>
    refine (framed_query _).bind fun record => ?_
    cases record with
    | some record => exact Framed.pure _
    | none => exact Framed.lift _

theorem framed_run (steps : List Step) : Framed (run hooks backend principal now steps) := by
  induction steps with
  | nil => exact Framed.pure _
  | cons step rest ih =>
    exact (framed_runStep hhooks step).bind fun _ => ih.bind fun _ => Framed.pure _

variable {steps : List Step}

/-- The steps of a batch in one transaction are the steps in transactions of their own. -/
theorem inTurn_alone_of_run {view : Data ρ} {session : RequestContext}
    {before after : List HookCall} {results : List (ℕ × Json)} {calls : List HookCall} {w : Work ρ}
    (h : run hooks backend principal now steps ⟨view, view, session, []⟩ = (.ok (results, calls), w)) :
    inTurn (alone hooks backend principal now) steps ⟨view, before, after⟩ =
      (.ok results, ⟨w.view, before ++ w.calls, after ++ calls⟩) := by
  induction steps generalizing view session before after results calls w with
  | nil =>
    obtain ⟨hresult, rfl⟩ := Prod.mk.inj h
    obtain ⟨rfl, rfl⟩ := Prod.mk.inj (Except.ok.inj hresult)
    simp [inTurn]
  | cons step rest ih =>
    obtain ⟨⟨result, produced⟩, first, hstep, h⟩ := Saga.bind_eq_ok.mp h
    obtain ⟨⟨results', calls'⟩, last, hrest, h⟩ := Saga.bind_eq_ok.mp h
    obtain ⟨hresult, rfl⟩ := Prod.mk.inj h
    obtain ⟨rfl, rfl⟩ := Prod.mk.inj (Except.ok.inj hresult)
    obtain rfl := (framed_runStep hhooks step).committed_eq hstep
    -- The rest of the batch sees what the first step has left.
    cases hopen : run hooks backend principal now rest ⟨first.view, first.view, first.session, []⟩ with
    | mk r w =>
      obtain ⟨hr, rfl⟩ := Prod.mk.inj
        (hrest.symm.trans ((framed_run hhooks rest).of_eq hopen first.committed first.calls))
      subst hr
      have halone : alone hooks backend principal now step ⟨first.committed, before, after⟩ =
          (.ok result, ⟨first.view, before ++ first.calls, after ++ produced.toList⟩) :=
        (alone_eq_ok hhooks).mpr ⟨produced, first, hstep, rfl⟩
      refine Saga.bind_eq_ok.mpr ⟨result, _, halone, Saga.bind_eq_ok.mpr ⟨results', _, ih hopen, ?_⟩⟩
      simp [Work.within]

omit hhooks in
/-- The first steps of a run that succeeds succeed. -/
theorem run_take {w w' : Work ρ} {r : List (ℕ × Json) × List HookCall}
    (h : run hooks backend principal now steps w = (.ok r, w')) (n : ℕ) :
    ∃ r' t, run hooks backend principal now (steps.take n) w = (.ok r', t) := by
  induction steps generalizing w w' r n with
  | nil => exact ⟨([], []), w, by rw [List.take_nil]; rfl⟩
  | cons step rest ih =>
    cases n with
    | zero => exact ⟨([], []), w, rfl⟩
    | succ n =>
      obtain ⟨⟨result, produced⟩, first, hstep, h⟩ := Saga.bind_eq_ok.mp h
      obtain ⟨_, _, hrest, -⟩ := Saga.bind_eq_ok.mp h
      obtain ⟨⟨results, calls⟩, t, htake⟩ := ih hrest n
      exact ⟨_, t, Saga.bind_eq_ok.mpr ⟨_, first, hstep, Saga.bind_eq_ok.mpr ⟨_, t, htake, rfl⟩⟩⟩

/-- A batch that succeeds is its steps in batches of their own. -/
theorem runBatch_eq_inTurn {r : List (ℕ × Json) × List HookCall}
    {w : Work ρ} (h : run hooks backend principal now steps (.begin site.data) = (.ok r, w)) :
    runBatch hooks backend principal now steps site = (.ok r.1, ⟨w.view, site.before ++ w.calls,
      site.after ++ r.2⟩) ∧
      inTurn (alone hooks backend principal now) steps site =
        runBatch hooks backend principal now steps site := by
  have hbatch : runBatch hooks backend principal now steps site = (.ok r.1, ⟨w.view,
      site.before ++ w.calls, site.after ++ r.2⟩) :=
    Saga.bind_eq_ok.mpr ⟨r, _, transaction_eq_ok.mpr ⟨w, h, rfl⟩,
      bind_of_ok (runAfters_eq hhooks _ _) _⟩
  exact ⟨hbatch, (inTurn_alone_of_run hhooks h).trans hbatch.symm⟩

/-- Requests that keep in step with batches of their own. -/
theorem inTurn_eq_iff {results : List (ℕ × Json)}
    (h : inTurn (alone hooks backend principal now) steps site = (.ok results, site')) :
    (∀ n, singles hooks backend principal now (steps.take n) site =
        inTurn (alone hooks backend principal now) (steps.take n) site) ↔
      Agree hooks backend principal now steps site.data := by
  induction steps generalizing site site' results with
  | nil => simp [Agree, singles, inTurn]
  | cons step rest ih =>
    obtain ⟨result, first, halone, h⟩ := Saga.bind_eq_ok.mp h
    obtain ⟨results', last, hrest, -⟩ := Saga.bind_eq_ok.mp h
    have hview : first.data = (runStep hooks backend principal now step (.begin site.data)).2.view := by
      obtain ⟨produced, w, hw, rfl⟩ := (alone_eq_ok hhooks).mp halone
      rw [hw]
    rw [Agree, ← single_eq_alone_iff hhooks halone, ← hview, ← ih hrest]
    constructor
    · intro hall
      have hsingle : single hooks backend principal now step site = (.ok result, first) := by
        have hone : singles hooks backend principal now [step] site = (.ok [result], first) :=
          (hall 1).trans (Saga.bind_eq_ok.mpr ⟨result, first, halone, rfl⟩)
        obtain ⟨result', first', hsingle, hone⟩ := Saga.bind_eq_ok.mp hone
        obtain ⟨hresult, rfl⟩ := Prod.mk.inj hone
        rw [hsingle, (List.cons.inj (Except.ok.inj hresult)).1]
      refine ⟨hsingle, fun n => ?_⟩
      obtain ⟨results, t, htake⟩ := inTurn_take hrest n
      have hleft : (singles hooks backend principal now (rest.take n) >>= fun bs =>
          pure (result :: bs)) first = (.ok (result :: results), t) := by
        rw [← bind_of_ok hsingle (fun b => singles hooks backend principal now (rest.take n) >>=
          fun bs => pure (b :: bs))]
        refine (hall (n + 1)).trans ?_
        exact Saga.bind_eq_ok.mpr ⟨result, first, halone, Saga.bind_eq_ok.mpr ⟨results, t, htake, rfl⟩⟩
      obtain ⟨results', t', hsingles, hleft⟩ := Saga.bind_eq_ok.mp hleft
      obtain ⟨hresult, rfl⟩ := Prod.mk.inj hleft
      rw [hsingles, htake, (List.cons.inj (Except.ok.inj hresult)).2]
    · rintro ⟨hsingle, hall⟩ n
      cases n with
      | zero => rfl
      | succ n =>
        have hn := hall n
        unfold singles at hn ⊢
        rw [List.take_succ_cons, inTurn, inTurn, bind_of_ok hsingle, bind_of_ok halone]
        change (inTurn _ (rest.take n) >>= _) first = (inTurn _ (rest.take n) >>= _) first
        obtain ⟨results, t, htake⟩ := inTurn_take hrest n
        rw [bind_of_ok htake, bind_of_ok (hn.trans htake)]

omit hhooks in
theorem runBatch_of_error {e : Error} {w : Work ρ}
    (h : run hooks backend principal now steps (.begin site.data) = (.error e, w)) :
    runBatch hooks backend principal now steps site =
      (.error e, ⟨w.committed, site.before ++ w.calls, site.after⟩) :=
  bind_of_error (by simp only [transaction, h]) _

/-- A batch that fails leaves the database as it was. -/
theorem data_of_runBatch_error {e : Error}
    (h : (runBatch hooks backend principal now steps site).1 = .error e) :
    (runBatch hooks backend principal now steps site).2.data = site.data := by
  cases hrun : run hooks backend principal now steps (.begin site.data) with
  | mk r w =>
    cases r with
    | error e' =>
      rw [runBatch_of_error hrun]
      exact (framed_run hhooks steps).committed_eq hrun
    | ok r =>
      rw [(runBatch_eq_inTurn hhooks hrun).1] at h
      cases h

omit hhooks in
variable (hooks backend principal now) in
/-- A batch is refused before anything is written, or it is planned and run. -/
theorem batch_cases (schema : Schema) (items : List (BatchItem × Draws)) (site : Site ρ) :
    (∃ e, batch hooks backend principal now schema items site = (.error e, site)) ∨
      ∃ steps, items.mapM (fun (item, draws) => plan schema item draws) = .ok steps ∧
        batch hooks backend principal now schema items site =
          runBatch hooks backend principal now steps site := by
  unfold batch
  cases hempty : failIf (items = []) (.invalid "a batch needs at least one request") with
  | error e => exact .inl ⟨e, bind_of_error rfl _⟩
  | ok _ =>
    rw [bind_of_ok (lift_apply _ _)]
    cases hlong : failIf (maxBatchRequests < items.length) (.invalid ("a batch accepts at most " ++
        toString maxBatchRequests ++ " requests, got " ++ toString items.length)) with
    | error e => exact .inl ⟨e, bind_of_error rfl _⟩
    | ok _ =>
      rw [bind_of_ok (lift_apply _ _)]
      cases hplan : items.mapM fun (item, draws) => plan schema item draws with
      | error e => exact .inl ⟨e, bind_of_error rfl _⟩
      | ok steps => exact .inr ⟨steps, rfl, bind_of_ok (lift_apply _ _) _⟩

/-- **A batch does what its requests do one by one, step for step, exactly when the files, the sessions
and the early validation make no difference at any step.** A batch that fails leaves the database as it
was. -/
theorem batch_keeps_step (schema : Schema) (items : List (BatchItem × Draws)) (site : Site ρ) :
    (∀ e, (batch hooks backend principal now schema items site).1 = .error e →
      (batch hooks backend principal now schema items site).2.data = site.data) ∧
    ∀ results, (batch hooks backend principal now schema items site).1 = .ok results →
      ∃ steps, items.mapM (fun (item, draws) => plan schema item draws) = .ok steps ∧
        batch hooks backend principal now schema items site =
          runBatch hooks backend principal now steps site ∧
        ((∀ n, singles hooks backend principal now (steps.take n) site =
            runBatch hooks backend principal now (steps.take n) site) ↔
          Agree hooks backend principal now steps site.data) := by
  rcases batch_cases hooks backend principal now schema items site with
    ⟨e, hrefused⟩ | ⟨steps, hplan, hbatch⟩
  · rw [hrefused]
    exact ⟨fun _ _ => rfl, fun results h => by cases h⟩
  rw [hbatch]
  refine ⟨fun e h => data_of_runBatch_error hhooks h, fun results h => ⟨steps, hplan, rfl, ?_⟩⟩
  cases hrun : run hooks backend principal now steps (.begin site.data) with
  | mk r w =>
    cases r with
    | error e =>
      rw [runBatch_of_error hrun] at h
      cases h
    | ok r =>
      have hturn := (runBatch_eq_inTurn hhooks hrun).2.trans (runBatch_eq_inTurn hhooks hrun).1
      rw [← inTurn_eq_iff hhooks hturn]
      refine forall_congr' fun n => ?_
      obtain ⟨r', t, htake⟩ := run_take hrun n
      rw [(runBatch_eq_inTurn hhooks htake).2]

end Detached

/-! ### A batch that keeps files -/

section Example

/-- No hooks: every write passes through unchanged. -/
def noHooks {ρ : Type} : Hooks ρ where
  before call _ := .ok call.record
  after _ _ := .ok ()
  appBefore _ _ data := data
  appAfter _ _ data := data

theorem detached_noHooks {ρ : Type} : (noHooks : Hooks ρ).Detached where
  before _ _ _ := rfl
  after _ _ := rfl
  appBefore _ _ _ := rfl
  appAfter _ _ _ := rfl

/-- One table, whose statements refuse nothing. -/
def oneTable : Backend (List (String × Json)) where
  validate _ _ _ := .ok ()
  insert _ _ id input _ records := .ok ((id, input) :: records)
  update _ _ id input _ records :=
    if records.any fun record => record.1 = id then
      .ok (some (records.map fun record => if record.1 = id then (id, input) else record))
    else .ok none
  delete _ _ id records :=
    if records.any fun record => record.1 = id then
      .ok (some (records.filter fun record => record.1 ≠ id))
    else .ok none
  read _ _ id records := .ok ((records.find? fun record => record.1 = id).map Prod.snd)

def root : Principal := ⟨some ⟨true, "root", "root@example.com", "", ""⟩, [], fun _ => rfl⟩

/-- An album with its cover. -/
def oneAlbum : Site (List (String × Json)) where
  data := {
    records := [("recordOfAdaLove", Ownership.adasAlbum.document)]
    store := ⟨⟨[(Ownership.cover.row "coverUploadAda1" 0).attachTo "albums" "recordOfAdaLove" "cover" 0],
      by simp⟩, []⟩
    deletions := []
    sessions := fun _ => none }
  before := []
  after := []

/-- The delete of the album, in a batch. -/
def deleteAlbum : List (BatchItem × Draws) :=
  [(⟨"DELETE", "/api/collections/albums/records/recordOfAdaLove", none⟩, ⟨"", "", ""⟩)]

/-- **A batch that deletes a record keeps its files.** -/
theorem batch_delete_keeps_files :
    ¬ ∀ (ρ : Type) (hooks : Hooks ρ) (backend : Backend ρ) (principal : Principal) (now : Int)
      (schema : Schema) (items : List (BatchItem × Draws)) (site : Site ρ) (steps : List Step),
      items.mapM (fun (item, draws) => plan schema item draws) = .ok steps →
        (∃ results, (batch hooks backend principal now schema items site).1 = .ok results) →
          (singles hooks backend principal now steps site).2.data =
            (batch hooks backend principal now schema items site).2.data := by
  intro hall
  have hrun : (match deleteAlbum.mapM (fun (item, draws) => plan ⟨[Ownership.albums]⟩ item draws) with
      | .ok steps => isOk (batch noHooks oneTable root 0 ⟨[Ownership.albums]⟩ deleteAlbum oneAlbum).1 &&
        ((singles noHooks oneTable root 0 steps oneAlbum).2.data.store.files.rows ≠
          (batch noHooks oneTable root 0 ⟨[Ownership.albums]⟩ deleteAlbum oneAlbum).2.data.store.files.rows)
      | .error _ => false) = true := by decide +kernel
  cases hplan : deleteAlbum.mapM fun (item, draws) => plan ⟨[Ownership.albums]⟩ item draws with
  | error e => simp only [hplan, Bool.false_eq_true] at hrun
  | ok steps =>
    rw [hplan] at hrun
    obtain ⟨hok, hrows⟩ := (Bool.and_eq_true _ _).mp hrun
    exact of_decide_eq_true hrows (congrArg (fun data => data.store.files.rows)
      (hall _ noHooks oneTable root 0 ⟨[Ownership.albums]⟩ deleteAlbum oneAlbum steps hplan
        (isOk_iff.mp hok)))

/-- A new album, and a look at the old one. -/
def newAlbum : List (BatchItem × Draws) :=
  [(⟨"POST", "/api/collections/albums/records", some (.object [])⟩, ⟨"recordOfMallory", "", ""⟩),
    (⟨"GET", "/api/collections/albums/records/recordOfAdaLove", none⟩, ⟨"", "", ""⟩)]

theorem newAlbum_keeps_step :
    ∃ steps, newAlbum.mapM (fun (item, draws) => plan ⟨[Ownership.albums]⟩ item draws) = .ok steps ∧
      ((∀ n, singles noHooks oneTable root 0 (steps.take n) oneAlbum =
          runBatch noHooks oneTable root 0 (steps.take n) oneAlbum) ↔
        Agree noHooks oneTable root 0 steps oneAlbum.data) := by
  have hok : isOk (batch noHooks oneTable root 0 ⟨[Ownership.albums]⟩ newAlbum oneAlbum).1 = true := by
    decide +kernel
  obtain ⟨results, hresults⟩ := isOk_iff.mp hok
  obtain ⟨steps, hplan, -, hiff⟩ :=
    (batch_keeps_step detached_noHooks ⟨[Ownership.albums]⟩ newAlbum oneAlbum).2 results hresults
  exact ⟨steps, hplan, hiff⟩

end Example

end LazyPock.Records
