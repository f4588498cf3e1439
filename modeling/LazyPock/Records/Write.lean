import LazyPock.Auth.PasswordChange
import LazyPock.Files.Store
import LazyPock.Machine.Transactions
import LazyPock.Rls.Identity

/-!
# Record writes

What a create, an update, a delete and a read of one record do to the database: the record layer
(`crates/db/src/records.rs`) and the routes over it (`crates/api/src/records.rs`). A route opens a
transaction under the caller's context, runs the hooks that come before the write inside it, and the
hooks that come after it once it is committed. Around the write it attaches or releases files and ends
the sessions of an account whose password changed.

The statements against a collection's table are a parameter, `Backend`, and so are the hooks. A hook
may write through `$app`: in a transaction of its own, which stays when the caller's is rolled back.
It sees what is committed.

## Main definitions

* `Records.Data`, `Records.Backend`, `Records.Hooks`.
* `Records.Work`, `Records.Site`: a transaction under way, and the server around it.
* `Records.createWith`, `Records.updateWith`, `Records.getOne`.
* `Records.createRecord`, `Records.updateRecord`, `Records.deleteRecord`,
  `Records.viewRecord`: the routes.

## Main results

* `Records.Framed.bind` and the rules for the record layer: its work depends on what the
  transaction sees, where the hooks stay away from the database.
-/

namespace LazyPock

/-- The caller as the media library sees it. -/
def Principal.caller (principal : Principal) : Files.Caller :=
  match principal.claims with
  | none => .anonymous
  | some claims => if claims.superuser then .superuser else .user claims.sub

namespace Records

open Text Machine Saga

/-! ### The database -/

/-- A row of `_file_deletions`. -/
structure FileDeletion where
  fileId : String
  backend : String
deriving DecidableEq

/-- The tables that record requests write; `records` are the tables of the collections. -/
structure Data (ρ : Type) where
  records : ρ
  store : Files.Store
  deletions : List FileDeletion
  sessions : Sessions.Table

/-- The statements against the table of a collection, each under the context that the session has, and
the validation of a body. -/
structure Backend (ρ : Type) where
  /-- `validation::validate`; fields may be missing where the flag is set. -/
  validate : Collection → Json → Bool → Result Unit
  /-- `insert into … values …` -/
  insert : RequestContext → Collection → String → Json → List (String × Option String) → ρ → Result ρ
  /-- `update … set … where "id" = …`: nothing where no row matches. -/
  update : RequestContext → Collection → String → Json → List (String × Option String) → ρ →
    Result (Option ρ)
  /-- `delete from … where "id" = …`: nothing where no row matches. -/
  delete : RequestContext → Collection → String → ρ → Result (Option ρ)
  /-- `select … where "id" = …` -/
  read : RequestContext → Collection → String → ρ → Result (Option Json)

/-! ### Hooks -/

/-- A write a hook can be attached to. -/
inductive HookEvent where
  | create
  | update
  | delete
deriving DecidableEq

/-- Who triggered the write a hook is running for. -/
structure HookContext where
  collection : String
  request : RequestContext

/-- One dispatch to the hooks. -/
structure HookCall where
  context : HookContext
  event : HookEvent
  collection : String
  record : Json

/-- What the hooks answer, and what they write through `$app`, given what they see. -/
structure Hooks (ρ : Type) where
  before : HookCall → Data ρ → Result Json
  after : HookCall → Data ρ → Result Unit
  appBefore : HookCall → (seen : Data ρ) → Data ρ → Data ρ
  appAfter : HookCall → (seen : Data ρ) → Data ρ → Data ρ

/-- Hooks that stay away from the database, and never fail after a write. -/
structure Hooks.Detached {ρ : Type} (hooks : Hooks ρ) : Prop where
  before : ∀ call seen seen', hooks.before call seen = hooks.before call seen'
  after : ∀ call seen, hooks.after call seen = .ok ()
  appBefore : ∀ call seen data, hooks.appBefore call seen data = data
  appAfter : ∀ call seen data, hooks.appAfter call seen data = data

/-! ### Transactions -/

/-- A transaction under way: what is committed, what the transaction sees, the context of its session,
and the hooks it has run. -/
structure Work (ρ : Type) where
  committed : Data ρ
  view : Data ρ
  session : RequestContext
  calls : List HookCall

/-- A transaction that has just begun. -/
def Work.begin {ρ : Type} (data : Data ρ) : Work ρ := ⟨data, data, .owner, []⟩

/-- The server between requests: the database, and the hooks that were run before and after its
writes. -/
structure Site (ρ : Type) where
  data : Data ρ
  before : List HookCall
  after : List HookCall

variable {ρ α β : Type}

/-- `rls::context::apply` -/
def apply (context : RequestContext) : Saga (Work ρ) Error Unit := fun w =>
  (.ok (), { w with session := context })

/-- `rls::context::assume_owner` -/
def assumeOwner : Saga (Work ρ) Error Unit := fun w =>
  (.ok (), { w with session := { w.session with role := .owner } })

/-- A statement that reads. -/
def query (f : RequestContext → Data ρ → Result α) : Saga (Work ρ) Error α := fun w =>
  (f w.session w.view, w)

/-- A statement that writes. -/
def execute (f : RequestContext → Data ρ → Result (α × Data ρ)) : Saga (Work ρ) Error α := fun w =>
  match f w.session w.view with
  | .ok (a, view) => (.ok a, { w with view })
  | .error e => (.error e, w)

/-- Work in a transaction: it is committed where it succeeds. What the hooks committed by themselves
stays either way. -/
def transaction (work : Saga (Work ρ) Error α) : Saga (Site ρ) Error α := fun site =>
  match work (.begin site.data) with
  | (.ok a, w) => (.ok a, ⟨w.view, site.before ++ w.calls, site.after⟩)
  | (.error e, w) => (.error e, ⟨w.committed, site.before ++ w.calls, site.after⟩)

variable (hooks : Hooks ρ) (backend : Backend ρ)

/-- Run the hooks that precede a write. -/
def runBefore (call : HookCall) : Saga (Work ρ) Error Json := fun w =>
  (hooks.before call w.committed,
    { w with
      committed := hooks.appBefore call w.committed w.committed
      view := hooks.appBefore call w.committed w.view
      calls := w.calls ++ [call] })

/-- Run the hooks that follow a write. -/
def runAfter (call : HookCall) : Saga (Site ρ) Error Unit := fun site =>
  (hooks.after call site.data,
    { site with
      data := hooks.appAfter call site.data site.data
      after := site.after ++ [call] })

/-! ### The record layer -/

def expectObject (input : Json) : Result Unit :=
  failIf (input.isObject = false) (.invalid "the request body must be a JSON object of field values")

/-- Honour a client-supplied id when it is valid, otherwise generate one. -/
def resolveId (object : Json) (newId : String) : Result String :=
  match object.get "id" with
  | none | some .null => .ok newId
  | some (.string raw) =>
    if raw = "" then .ok newId
    else if isValidId raw then .ok raw
    else .error (.invalid "`id` must be 15 characters from [a-zA-Z0-9]")
  | some _ => .error (.invalid "`id` must be a string")

/-- Fetch one record. -/
def getOne (collection : Collection) (id : String) : Saga (Work ρ) Error (Option Json) :=
  query fun session data => backend.read session collection id data.records

/-- Create a record, returning the stored row. -/
def createWith (context : HookContext) (collection : Collection) (input : Json)
    (extra : List (String × Option String)) (newId : String) : Saga (Work ρ) Error Json := do
  let input ← runBefore hooks ⟨context, .create, collection.name, input⟩
  lift (expectObject input)
  lift (backend.validate collection input false)
  let id ← lift (resolveId input newId)
  execute fun session data => do
    let records ← backend.insert session collection id input extra data.records
    return ((), { data with records })
  assumeOwner
  let record ← getOne backend collection id
  lift (okOr (.internal "the record was written but could not be read back") record)

/-- Update a record, returning the stored row, or nothing when it does not exist. -/
def updateWith (context : HookContext) (collection : Collection) (id : String) (input : Json)
    (extra : List (String × Option String)) : Saga (Work ρ) Error (Option Json) := do
  let input ← runBefore hooks ⟨context, .update, collection.name, input⟩
  lift (expectObject input)
  lift (backend.validate collection input true)
  let updated ← execute fun session data => do
    let records ← backend.update session collection id input extra data.records
    return (records.isSome, { data with records := records.getD data.records })
  if updated then do
    assumeOwner
    getOne backend collection id
  else pure none

/-- Delete a record. Returns whether a row was removed. -/
def delete (collection : Collection) (id : String) : Saga (Work ρ) Error Bool :=
  execute fun session data => do
    let records ← backend.delete session collection id data.records
    return (records.isSome, { data with records := records.getD data.records })

/-! ### Files and sessions -/

/-- Record what a record's file fields own and reference. -/
def syncFiles (principal : Principal) (now : Int) (collection : Collection) (record : Json) :
    Saga (Work ρ) Error Unit :=
  match (record.get "id").bind Json.asStr with
  | none => pure ()
  | some _ => do
    apply (principal.requestContext .update)
    execute fun _ data => do
      let store ← Files.syncFiles data.store collection record principal.caller now
      return ((), { data with store })
    assumeOwner

/-- The rows the trigger on `_files` queues when some rows are deleted. -/
def enqueued (before after : Files.FileTable) : List FileDeletion :=
  (before.rows.filter fun row => row ∉ after.rows).map fun row => ⟨row.id, row.storageBackend⟩

/-- Let go of what a deleted record owned and referenced. -/
def Data.releaseFiles (data : Data ρ) (collection : Collection) (id : String)
    (record : Option Json) : Data ρ :=
  let store := Files.releaseFiles data.store collection id record
  { data with store, deletions := data.deletions ++ enqueued data.store.files store.files }

def releaseFiles (collection : Collection) (id : String) (record : Option Json) :
    Saga (Work ρ) Error Unit := do
  assumeOwner
  execute fun _ data => .ok ((), data.releaseFiles collection id record)

/-- `revoke_for_user` -/
def Data.revokeForUser (data : Data ρ) (collectionId userId : String) (now : Int) : Data ρ :=
  { data with sessions := data.sessions.revokeForUser collectionId userId now }

def revokeForUser (collectionId userId : String) (now : Int) : Saga (Work ρ) Error Unit :=
  execute fun _ data => .ok ((), data.revokeForUser collectionId userId now)

/-! ### The routes -/

/-- The random values that a request draws. -/
structure Draws where
  newId : String
  /-- The hash of a supplied password. -/
  hashed : String
  tokenKey : String

/-- The early pass over a body; one that is no object is reported by the record layer. -/
def validateFirst (collection : Collection) (input : Json) (missing : Bool) : Result Unit :=
  if input.isObject then backend.validate collection input missing else .ok ()

def notFound (collection id : String) : Error :=
  .notFound ("no record " ++ debug id ++ " in collection " ++ debug collection)

def hookContext (principal : Principal) (collection : String) (action : Action) : HookContext :=
  ⟨collection, principal.requestContext action⟩

variable (principal : Principal) (now : Int)

/-- `POST /api/collections/{collection}/records` -/
def createRecord (collection : Collection) (input : Json) (draws : Draws) :
    Saga (Site ρ) Error (ℕ × Json) := do
  lift (if collection.collectionType.isAuth then validateFirst backend collection input false
    else .ok ())
  let extra := Auth.authColumns collection input draws.hashed draws.tokenKey
  let context := hookContext principal collection.name .write
  let record ← transaction do
    apply (principal.requestContext .write)
    let record ← createWith hooks backend context collection input extra draws.newId
    syncFiles principal now collection record
    pure record
  runAfter hooks ⟨context, .create, collection.name, record⟩
  pure (201, record)

/-- `PATCH /api/collections/{collection}/records/{id}` -/
def updateRecord (collection : Collection) (path id : String) (input : Json) (draws : Draws) :
    Saga (Site ρ) Error (ℕ × Json) := do
  let context := hookContext principal collection.name .update
  let extra := Auth.authColumns collection input draws.hashed draws.tokenKey
  let record ← transaction do
    apply (principal.requestContext .update)
    lift (validateFirst backend collection input true)
    let record ← updateWith hooks backend context collection id input extra
    -- A value is there only where a password was supplied.
    onlyIf (extra ≠ []) (revokeForUser collection.id id now)
    onSome record fun record => syncFiles principal now collection record
    pure record
  match record with
  | some record => do
    runAfter hooks ⟨context, .update, collection.name, record⟩
    pure (200, record)
  | none => lift (.error (notFound path id))

/-- `DELETE /api/collections/{collection}/records/{id}` -/
def deleteRecord (collection : Collection) (path id : String) : Saga (Site ρ) Error (ℕ × Json) := do
  let context := hookContext principal collection.name .delete
  let (existing, removed) ← transaction do
    apply (principal.requestContext .delete)
    let existing ← getOne backend collection id
    onSome existing fun record => do
      let _ ← runBefore hooks ⟨context, .delete, collection.name, record⟩
      pure ()
    let removed ← delete backend collection id
    onlyIf removed (releaseFiles collection id existing)
    pure (existing, removed)
  if removed then do
    onSome existing fun record => runAfter hooks ⟨context, .delete, collection.name, record⟩
    pure (204, .null)
  else lift (.error (notFound path id))

/-- `GET /api/collections/{collection}/records/{id}`, of a collection that is no view. -/
def viewRecord (collection : Collection) (path id : String) : Saga (Site ρ) Error (ℕ × Json) := do
  let record ← transaction do
    apply (principal.requestContext .view)
    getOne backend collection id
  let record ← lift (okOr (notFound path id) record)
  pure (200, record)

/-! ### Work that looks at its own view only -/

/-- The same run in a transaction that began elsewhere: what is committed does not matter, and the hooks
are run after those that were run before. -/
def Work.within (committed : Data ρ) (calls : List HookCall) (w : Work ρ) : Work ρ :=
  ⟨committed, w.view, w.session, calls ++ w.calls⟩

/-- Work whose outcome depends on what the transaction sees, and not on what is committed. -/
def Framed (m : Saga (Work ρ) Error α) : Prop :=
  ∀ committed view session calls, m ⟨committed, view, session, calls⟩ =
    ((m ⟨view, view, session, []⟩).1, (m ⟨view, view, session, []⟩).2.within committed calls)

section Framed

variable {hooks backend principal now}

theorem Framed.of_eq {m : Saga (Work ρ) Error α} (hm : Framed m) {view : Data ρ}
    {session : RequestContext} {r : Except Error α} {w : Work ρ}
    (h : m ⟨view, view, session, []⟩ = (r, w)) (committed : Data ρ) (calls : List HookCall) :
    m ⟨committed, view, session, calls⟩ = (r, w.within committed calls) := by
  rw [hm, h]

/-- A framed run leaves what is committed. -/
theorem Framed.committed_eq {m : Saga (Work ρ) Error α} (hm : Framed m) {view : Data ρ}
    {session : RequestContext} {r : Except Error α} {w : Work ρ}
    (h : m ⟨view, view, session, []⟩ = (r, w)) : w.committed = view := by
  rw [(Prod.mk.inj (h.symm.trans (hm.of_eq h view []))).2]
  rfl

theorem Framed.lift (r : Except Error α) : Framed (lift r : Saga (Work ρ) Error α) := by
  intro committed view session calls
  simp [Work.within]

theorem Framed.pure (a : α) : Framed (pure a : Saga (Work ρ) Error α) := Framed.lift (.ok a)

theorem Framed.bind {m : Saga (Work ρ) Error α} {f : α → Saga (Work ρ) Error β} (hm : Framed m)
    (hf : ∀ a, Framed (f a)) : Framed (m >>= f) := by
  intro committed view session calls
  cases hr : m ⟨view, view, session, []⟩ with
  | mk r w =>
    have hw : w = w.within view [] := (Prod.mk.inj (hr.symm.trans (hm.of_eq hr view []))).2
    have hleft := hm.of_eq hr committed calls
    cases r with
    | error e => rw [bind_of_error hleft, bind_of_error hr]
    | ok a =>
      rw [bind_of_ok hleft, bind_of_ok hr, Work.within, hf a, hw, Work.within]
      rw [hf a view w.view w.session ([] ++ w.calls)]
      simp only [Work.within, List.nil_append, List.append_assoc]

theorem framed_apply (context : RequestContext) : Framed (apply context : Saga (Work ρ) Error Unit) := by
  intro committed view session calls
  simp [apply, Work.within]

theorem framed_assumeOwner : Framed (assumeOwner : Saga (Work ρ) Error Unit) := by
  intro committed view session calls
  simp [assumeOwner, Work.within]

theorem framed_query (f : RequestContext → Data ρ → Result α) : Framed (query f) := by
  intro committed view session calls
  simp [query, Work.within]

theorem framed_execute (f : RequestContext → Data ρ → Result (α × Data ρ)) : Framed (execute f) := by
  intro committed view session calls
  unfold execute
  cases f session view <;> simp [Work.within]

theorem framed_runBefore (hhooks : hooks.Detached) (call : HookCall) :
    Framed (runBefore hooks call) := by
  intro committed view session calls
  simp [runBefore, Work.within, hhooks.appBefore, hhooks.before call committed view]

theorem framed_createWith (hhooks : hooks.Detached) (context : HookContext) (collection : Collection)
    (input : Json) (extra : List (String × Option String)) (newId : String) :
    Framed (createWith hooks backend context collection input extra newId) :=
  (framed_runBefore hhooks _).bind fun _ => (Framed.lift _).bind fun _ => (Framed.lift _).bind fun _ =>
    (Framed.lift _).bind fun _ => (framed_execute _).bind fun _ => framed_assumeOwner.bind fun _ =>
      (framed_query _).bind fun _ => Framed.lift _

theorem framed_updateWith (hhooks : hooks.Detached) (context : HookContext) (collection : Collection)
    (id : String) (input : Json) (extra : List (String × Option String)) :
    Framed (updateWith hooks backend context collection id input extra) := by
  refine (framed_runBefore hhooks _).bind fun _ => (Framed.lift _).bind fun _ =>
    (Framed.lift _).bind fun _ => (framed_execute _).bind fun updated => ?_
  cases updated with
  | true => exact framed_assumeOwner.bind fun _ => framed_query _
  | false => exact Framed.pure none

theorem framed_syncFiles (collection : Collection) (record : Json) :
    Framed (syncFiles principal now collection record : Saga (Work ρ) Error Unit) := by
  unfold syncFiles
  split
  · exact Framed.pure ()
  · exact (framed_apply _).bind fun _ => (framed_execute _).bind fun _ => framed_assumeOwner

theorem framed_onSome {o : Option α} {f : α → Saga (Work ρ) Error Unit} (hf : ∀ a, Framed (f a)) :
    Framed (onSome o f) := by
  cases o with
  | none => exact Framed.pure ()
  | some a => exact hf a

end Framed

/-! ### What is left alone -/

/-- What a database holds besides the tables of the collections. -/
def Data.rest (data : Data ρ) : Files.Store × List FileDeletion × Sessions.Table :=
  (data.store, data.deletions, data.sessions)

section Keeps

variable {τ : Type} {part : Data ρ → τ} {hooks backend principal now}

theorem keeps_apply (context : RequestContext) :
    Keeps (fun w => part w.view) (apply context : Saga (Work ρ) Error Unit) := fun _ => rfl

theorem keeps_assumeOwner :
    Keeps (fun w => part w.view) (assumeOwner : Saga (Work ρ) Error Unit) := fun _ => rfl

theorem keeps_query (f : RequestContext → Data ρ → Result α) :
    Keeps (fun w => part w.view) (query f) := fun _ => rfl

theorem keeps_execute {f : RequestContext → Data ρ → Result (α × Data ρ)}
    (hf : ∀ session data a data', f session data = .ok (a, data') → part data' = part data) :
    Keeps (fun w => part w.view) (execute f) := by
  intro w
  unfold execute
  split
  · rename_i a view hview
    exact hf _ _ a view hview
  · rfl

theorem keeps_runBefore (hhooks : hooks.Detached) (call : HookCall) :
    Keeps (fun w => part w.view) (runBefore hooks call) := by
  intro w
  simp [runBefore, hhooks.appBefore]

/-- An update touches the tables of the collections only. -/
theorem keeps_updateWith (hhooks : hooks.Detached) (context : HookContext) (collection : Collection)
    (id : String) (input : Json) (extra : List (String × Option String)) :
    Keeps (fun w => w.view.rest)
      (updateWith hooks backend context collection id input extra) := by
  refine (keeps_runBefore hhooks _).bind fun input => ((Quiet.lift _).keeps _).bind fun _ =>
    ((Quiet.lift _).keeps _).bind fun _ => (keeps_execute ?_).bind fun updated => ?_
  · intro session data a data' h
    obtain ⟨records, -, h⟩ := bind_eq_ok.mp h
    rw [← (Prod.mk.inj (Except.ok.inj h)).2]
    rfl
  · cases updated with
    | true => exact keeps_assumeOwner.bind fun _ => keeps_query _
    | false => exact (Quiet.lift (.ok none)).keeps _

theorem keeps_delete (collection : Collection) (id : String) :
    Keeps (fun w => w.view.rest) (delete backend collection id) := by
  refine keeps_execute fun session data a data' h => ?_
  obtain ⟨records, -, h⟩ := bind_eq_ok.mp h
  rw [← (Prod.mk.inj (Except.ok.inj h)).2]
  rfl

/-- Attaching files leaves the sessions alone. -/
theorem keeps_syncFiles (collection : Collection) (record : Json) :
    Keeps (fun w => w.view.sessions)
      (syncFiles principal now collection record : Saga (Work ρ) Error Unit) := by
  unfold syncFiles
  split
  · exact (Quiet.lift (.ok ())).keeps _
  · refine (keeps_apply _).bind fun _ => (keeps_execute fun session data a data' h => ?_).bind
      fun _ => keeps_assumeOwner
    obtain ⟨store, -, h⟩ := bind_eq_ok.mp h
    rw [← (Prod.mk.inj (Except.ok.inj h)).2]

end Keeps

end Records

end LazyPock
