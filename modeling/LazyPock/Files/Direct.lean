import LazyPock.Files.Buckets
import LazyPock.Files.Guard
import LazyPock.Files.Validation
import LazyPock.Schema.Cache

/-!
# Uploads that go to the storage directly

`crates/api/src/files.rs`: an upload goes through the server, which validates the bytes before it
stores them, or a client reserves a key (`presign`), sends the bytes to the storage by itself, and asks
the server to look at them (`complete`). The URL it was given stays good for fifteen minutes, for any
bytes under any content type, and a file is served from its row and its object, whether anybody has
looked at the object or not. So what is served is what was written last, `Direct.served_of_run`.

A record write attaches files as before; it goes through the steps of `Ownership`.

## Main definitions

* `Direct.Deployment`, `Direct.State`, `Direct.step`.
* `Direct.serve`: the requests for a source object.
* `Direct.State.Served`: only validated objects are served.

## Main results

* `Direct.served_iff`, `Direct.sound_step_iff`.
* `Direct.served_of_run`, `Direct.put_is_served`.
-/

namespace LazyPock.Direct

open Text Machine Files Ownership

/-! ### State -/

/-- An object of the storage. -/
structure Object where
  contentType : String
  body : Bytes
deriving DecidableEq

/-- How a server is set up. The names of its collections are unique, and those of fields not empty. -/
structure Deployment where
  backend : Backend
  limits : UploadLimits
  keyPrefix : String
  schema : Schema
  names : (schema.collections.map Collection.name).Nodup
  fieldNames : ∀ collection ∈ schema.collections, ∀ field ∈ collection.fields, field.name ≠ ""

/-- The rows and the records, the storage, and the URLs that were handed out. -/
structure State extends Ownership.State where
  /-- `storage_path` of each row. -/
  paths : String → String
  objects : List (String × Object)
  /-- The keys that may be written, each with the end of its time. -/
  presigned : List (String × Int)
  /-- The ids of the rows whose bytes were measured. -/
  completed : List String

/-- A server without records or files. -/
def State.empty (now : Int) : State := ⟨Ownership.State.empty now, fun _ => "", [], [], []⟩

/-- The place of a file that a request names. -/
structure Place where
  collection : String
  recordId : String
  fieldName : String

/-- `POST /api/files` -/
structure UploadRequest where
  userId : Option String
  place : Place
  filename : String
  origin : Origin
  declaredType : String
  body : Bytes

/-- `POST /api/files/presign` -/
structure PresignRequest where
  userId : Option String
  place : Place
  filename : String
  origin : Origin
  mime : String
  size : Int

/-- What can happen. -/
inductive Event where
  /-- An upload through the server; `id` and `random` are drawn. -/
  | upload (request : UploadRequest) (id random : String)
  | presign (request : PresignRequest) (id random : String)
  /-- A client writes to the storage. -/
  | put (key : String) (object : Object)
  | complete (userId : Option String) (id : String)
  /-- A write of records, or time that passes. -/
  | record (event : Ownership.Event)
  /-- A row is deleted, by a request or by the reaper. -/
  | dropRow (id : String)
  /-- The object of a row that is gone is deleted. -/
  | dropObject (key : String)

/-- The backend's name, as `storage_backend` has it. -/
def backendName : Backend → String
  | .localStorage => "local"
  | .s3Storage => "s3"

/-! ### Requests -/

variable (deployment : Deployment)

/-- The name of an authenticated caller. -/
def requireUser (what : String) (userId : Option String) : Result String :=
  okOr (.forbidden (what ++ " requires an authenticated request")) userId

/-- The collection and the record of an upload exist where they are named. -/
def checkPlace (state : State) (place : Place) (incomplete : String) : Result Unit := do
  let collection := trim place.collection
  let recordId := trim place.recordId
  failIf (collection ≠ "" ∧ (deployment.schema.get collection).isNone)
    (.notFound ("no collection named " ++ debug collection))
  failIf (recordId ≠ "" ∧ collection = "")
    (.invalid (incomplete ++ " does not say where the file belongs"))
  failIf (recordId ≠ "" ∧ ¬ state.records.any fun record => record.key = (collection, recordId))
    (.notFound ("no record " ++ debug recordId ++ " in the collection " ++ debug collection))

/-- The key of a new object. -/
def newKey (place : Place) (filename random : String) : Result String :=
  if trim place.collection = "" ∨ trim place.recordId = "" then
    .ok (pendingKey deployment.keyPrefix filename random)
  else storageKey deployment.keyPrefix (trim place.collection) (trim place.recordId) filename random

/-- The field a place names. -/
def Place.field (place : Place) : Option Field :=
  if trim place.collection = "" ∨ place.fieldName = "" then none
  else (deployment.schema.get (trim place.collection)).bind fun collection =>
    collection.fields.find? fun field => field.name = place.fieldName

/-- A field's limits, where a field is known. -/
def checkField (size : Int) (mimeType : String) : Option Field → Result Unit
  | some field => checkFilePolicy field size mimeType
  | none => .ok ()

/-- What `upload` stores: the key, the object and the row. -/
def acceptUpload (state : State) (request : UploadRequest) (random : String) :
    Result (String × Object × NewFile) := do
  let user ← requireUser "uploading" request.userId
  checkPlace deployment state request.place "a `record` without a `collection`"
  let key ← newKey deployment request.place request.filename random
  let format ← validate request.body request.declaredType deployment.limits
  checkField request.body.length format.contentType (request.place.field deployment)
  return (key, ⟨format.contentType, request.body⟩,
    ⟨format.contentType, request.body.length, backendName deployment.backend, trim request.place.collection,
      trim request.place.recordId, request.place.fieldName, request.origin, user⟩)

/-- The format a client claims. -/
def claimedFormat (mime : String) : Result ImageFormat :=
  (ImageFormat.parse ((splitOn '/' mime).getD 1 "")).mapError fun _ =>
    .invalid ("unsupported image type " ++ debug mime ++ "; supported: png, jpeg, gif and webp")

/-- What `presign` reserves: the key and the row, with the values that the client claims. -/
def acceptPresign (state : State) (request : PresignRequest) (random : String) :
    Result (String × NewFile) := do
  let user ← requireUser "uploading" request.userId
  let format ← claimedFormat request.mime
  failIf (request.size ≤ 0 ∨ (deployment.limits.maxBytes : Int) < request.size)
    (.invalid ("size must be between 1 and " ++ toString deployment.limits.maxBytes ++ " bytes, got " ++
      toString request.size))
  checkPlace deployment state request.place "a `record_id` without a `collection_name`"
  let key ← newKey deployment request.place request.filename random
  return (key, ⟨format.contentType, request.size, backendName deployment.backend,
    trim request.place.collection, trim request.place.recordId, request.place.fieldName, request.origin, user⟩)

/-- `PRESIGN_TTL_SECONDS`, in microseconds. -/
def presignTtl : Int := 15 * 60 * 1000000

/-- Whether a header may have this value. -/
def isHeaderValue (value : String) : Bool :=
  value.toList.all fun c => (32 ≤ c.toNat && c.toNat < 127) || c = '\t'

/-- An object as its backend gives it back: the local one only knows the bytes. -/
@[grind =]
def asServed (object : Object) : Object :=
  match deployment.backend with
  | .localStorage => { object with contentType := ((sniff object.body).getD .png).contentType }
  | .s3Storage => { object with
      contentType := if isHeaderValue object.contentType then object.contentType
        else "application/octet-stream" }

/-- `get` of the storage. -/
def getObject (objects : List (String × Object)) (key : String) : Option Object :=
  (objects.lookup key).map (asServed deployment)

/-- What `complete` measures. -/
def measure (state : State) (userId : Option String) (id : String) :
    Result (Object × ImageFormat) := do
  let _ ← requireUser "completing an upload" userId
  let _ ← okOr (.notFound ("no file " ++ debug id)) (state.store.files.get id)
  let object ← okOr (.notFound ("nothing was uploaded for the file " ++ debug id))
    (getObject deployment state.objects (state.paths id))
  let format ← validate object.body object.contentType deployment.limits
  return (object, format)

/-- Whether the storage takes an object under a key. -/
def State.mayPut (state : State) (key : String) : Bool :=
  state.presigned.any fun (presigned, expires) => presigned = key && state.now ≤ expires

/-- The records that a step writes are of collections of the schema. -/
def inSchema : Ownership.Event → Bool
  | .save _ record | .appSave record => record.collection ∈ deployment.schema.collections
  | .batch _ steps => (Guard.saved steps).all fun record =>
    record.collection ∈ deployment.schema.collections
  | .read collection _ => collection ∈ deployment.schema.collections
  | .delete _ | .abandon _ | .appDelete _ | .wait _ => true
  -- Uploads have their own steps here.
  | .upload .. | .complete .. => false

/-- A row with its place in the storage. -/
def State.insertRow (state : State) (new : NewFile) (id key : String) : Option State :=
  (state.store.files.insert (new.row id state.now)).map fun files => { state with
    store.files := files
    paths := Function.update state.paths id key }

/-- One step. A request that is refused changes nothing. -/
def step (state : State) : Event → Option State
  | .upload request id random =>
    match acceptUpload deployment state request random with
    | .error _ => some state
    | .ok (key, object, new) => (state.insertRow new id key).map fun state => { state with
        objects := (key, object) :: state.objects
        completed := id :: state.completed }
  | .presign request id random =>
    match acceptPresign deployment state request random with
    | .error _ => some state
    | .ok (key, new) => match deployment.backend with
      -- A directory takes no direct upload, and the reservation is dropped.
      | .localStorage => some state
      | .s3Storage => (state.insertRow new id key).map fun state => { state with
          presigned := (key, state.now + presignTtl) :: state.presigned
          completed := state.completed.filter (· ≠ id) }
  | .put key object =>
    if state.mayPut key then some { state with objects := (key, object) :: state.objects }
    else some state
  | .complete userId id =>
    match measure deployment state userId id with
    | .error _ => some state
    | .ok (object, format) => some { state with
        store.files := state.store.files.update (fun row => row.id = id)
          (fun row => { row with size := object.body.length, mimeType := format.contentType })
          fun _ => rfl
        completed := id :: state.completed }
  | .record event =>
    if inSchema deployment event then
      (Ownership.step state.toState event).map fun next => { state with toState := next }
    else none
  | .dropRow id => some { state with
      store.files := state.store.files.delete fun row => row.id = id }
  | .dropObject key => some { state with
      objects := state.objects.filter fun entry => entry.1 ≠ key }

/-- The steps as a relation. -/
def Step (state : State) (event : Event) (next : State) : Prop :=
  step deployment state event = some next

/-- The key of the row that a request means. -/
def objectKey (state : State) : Guard.Address → Result String
  | .byId id => do
    let row ← okOr (.notFound ("no file " ++ debug id)) (state.store.files.get id)
    return state.paths row.id
  | .byKey collection recordId filename => do
    validateIdentifier "collection name" collection
    let recordId ← Guard.safeSegment recordId
    let filename ← Guard.safeSegment filename
    let key := collection ++ "/" ++ recordId ++ "/" ++ filename
    let _ ← okOr (.notFound "no such file")
      (state.store.files.rows.find? fun row => state.paths row.id = key)
    return key

/-- A request for a source object: `serve_by_id` and `serve_path` without a variant. -/
def serve (state : State) (address : Guard.Address) : Result Object := do
  let key ← objectKey state address
  okOr (.notFound "no such file") (getObject deployment state.objects key)

/-! ### What is served -/

/-- Bytes that were validated, under the content type of their format. -/
def Valid (object : Object) : Prop :=
  ∃ format, validate object.body "" deployment.limits = .ok format ∧
    object.contentType = format.contentType

/-- Every source object that is served is valid. -/
def State.Served (state : State) : Prop :=
  ∀ address object, serve deployment state address = .ok object → Valid deployment object

/-- Every object that a row names is valid. -/
def State.Sound (state : State) : Prop :=
  ∀ row ∈ state.store.files.rows, ∀ object,
    getObject deployment state.objects (state.paths row.id) = some object → Valid deployment object

/-- The steps that put nothing else where a row points. -/
def Careful (state : State) : Event → Prop
  | .put key object => state.mayPut key = true →
    (∃ row ∈ state.store.files.rows, state.paths row.id = key) →
      Valid deployment (asServed deployment object)
  -- The random part of a key is new: nothing is stored under it.
  | .presign request _ random => ∀ key new,
    acceptPresign deployment state request random = .ok (key, new) →
      deployment.backend = .s3Storage → ∀ object,
        getObject deployment state.objects key = some object → Valid deployment object
  | _ => True

section Serving

variable {deployment} {state next : State} {event : Event}

/-- **What is served is what the rows name.** -/
theorem served_iff : state.Served deployment ↔ state.Sound deployment := by
  constructor
  · intro h row hrow object hobject
    refine h (.byId row.id) object (bind_eq_ok.mpr ⟨state.paths row.id, ?_, okOr_eq_ok.mpr hobject⟩)
    rw [objectKey, Guard.get_of_mem hrow]
    rfl
  · intro h address object hserve
    obtain ⟨key, hkey, hserve⟩ := bind_eq_ok.mp hserve
    have hobject := okOr_eq_ok.mp hserve
    cases address with
    | byId id =>
      obtain ⟨row, hrow, hkey⟩ := bind_eq_ok.mp hkey
      obtain rfl := Except.ok.inj hkey
      exact h row (List.mem_of_find?_eq_some (okOr_eq_ok.mp hrow)) _ hobject
    | byKey collection recordId filename =>
      obtain ⟨_, -, hkey⟩ := bind_eq_ok.mp hkey
      obtain ⟨_, -, hkey⟩ := bind_eq_ok.mp hkey
      obtain ⟨_, -, hkey⟩ := bind_eq_ok.mp hkey
      obtain ⟨row, hrow, hkey⟩ := bind_eq_ok.mp hkey
      obtain rfl := Except.ok.inj hkey
      have hfind := okOr_eq_ok.mp hrow
      have hpath := List.find?_some hfind
      rw [decide_eq_true_eq] at hpath
      rw [← hpath] at hobject
      exact h row (List.mem_of_find?_eq_some hfind) _ hobject

theorem validate_declared {content : Bytes} {declared other : String} {limits : UploadLimits}
    {format : ImageFormat} (h : validate content declared limits = .ok format) :
    validate content other limits = .ok format :=
  validate_eq_ok.mpr (validate_eq_ok.mp h)

/-- What the server stores is served as it was validated. -/
theorem valid_of_validate {body : Bytes} {declared : String} {format : ImageFormat}
    (h : validate body declared deployment.limits = .ok format) :
    Valid deployment (asServed deployment ⟨format.contentType, body⟩) := by
  refine ⟨format, ?_, ?_⟩
  · rw [show (asServed deployment ⟨format.contentType, body⟩).body = body by
      unfold asServed; cases deployment.backend <;> rfl]
    exact validate_declared h
  · unfold asServed
    cases deployment.backend with
    | localStorage =>
      obtain ⟨-, -, -, hsniff, -⟩ := validate_eq_ok.mp h
      simp only [hsniff, Option.getD_some]
    | s3Storage =>
      have hvisible : isHeaderValue format.contentType = true := by
        cases format <;> decide
      simp only [hvisible, if_true]

/-- Fewer rows over fewer objects. -/
theorem sound_of_subset (h : state.Sound deployment)
    (hrows : ∀ row' ∈ next.store.files.rows, ∃ row ∈ state.store.files.rows, row'.id = row.id)
    (hpaths : next.paths = state.paths)
    (hobjects : ∀ key object, getObject deployment next.objects key = some object →
      getObject deployment state.objects key = some object) : next.Sound deployment := by
  intro row' hrow' object hobject
  obtain ⟨row, hrow, hid⟩ := hrows row' hrow'
  rw [hpaths, hid] at hobject
  exact h row hrow object (hobjects _ _ hobject)

theorem getObject_cons {objects : List (String × Object)} {key other : String} {object : Object} :
    getObject deployment ((key, object) :: objects) other =
      if other = key then some (asServed deployment object)
      else getObject deployment objects other := by
  unfold getObject
  rw [List.lookup_cons]
  split_ifs with h
  · rw [h, BEq.rfl]
    rfl
  · rw [beq_eq_false_iff_ne.mpr h]

theorem insertRow_cases {new : NewFile} {id key : String} (h : state.insertRow new id key = some next) :
    (∀ row ∈ state.store.files.rows, row.id ≠ id) ∧
      next.store.files.rows = new.row id state.now :: state.store.files.rows ∧
      next.paths = Function.update state.paths id key ∧ next.objects = state.objects ∧
      next.presigned = state.presigned ∧ next.completed = state.completed ∧
      next.records = state.records := by
  obtain ⟨files, hinsert, rfl⟩ := Option.map_eq_some_iff.mp h
  unfold FileTable.insert at hinsert
  split_ifs at hinsert with hfresh
  obtain rfl := Option.some.inj hinsert
  refine ⟨fun row hrow hid => hfresh ?_, rfl, rfl, rfl, rfl, rfl, rfl⟩
  exact List.mem_map.mpr ⟨row, hrow, hid⟩

/-- A record write stores no new row. -/
theorem exists_row_of_record {recordEvent : Ownership.Event} {after : Ownership.State}
    (hevent : inSchema deployment recordEvent = true)
    (hstep : Ownership.Step state.toState recordEvent after) :
    ∀ row' ∈ after.store.files.rows, ∃ row ∈ state.store.files.rows, row'.id = row.id := by
  intro row' hrow'
  rcases step_cases hstep with ⟨new, id, rfl, -⟩ | ⟨request, deletion, -, -, hstore, -⟩ |
    ⟨hsettled, -⟩
  · cases hevent
  · rw [hstore] at hrow'
    exact ⟨row', mem_rows_releaseFiles hrow', rfl⟩
  · obtain ⟨row, hrow, hid, -⟩ := hsettled.stays row' hrow'
    exact ⟨row, hrow, hid⟩

theorem lookup_filter {objects : List (String × Object)} {key other : String} :
    (objects.filter fun entry => entry.1 ≠ key).lookup other =
      if other = key then none else objects.lookup other := by
  induction objects with
  | nil => simp
  | cons entry objects ih =>
    rw [List.filter_cons, List.lookup_cons]
    by_cases hkey : entry.1 = key
    · rw [if_neg (by simpa using hkey), ih, hkey]
      split_ifs with hother
      · rfl
      · rw [beq_eq_false_iff_ne.mpr hother]
    · rw [if_pos (by simpa using hkey), List.lookup_cons, ih]
      cases hentry : other == entry.1 with
      | true =>
        have hother : other ≠ key := fun heq => hkey ((beq_iff_eq.mp hentry).symm.trans heq)
        simp only [if_neg hother]
      | false => rfl

theorem valid_of_acceptUpload {request : UploadRequest} {random key : String} {object : Object}
    {new : NewFile} (h : acceptUpload deployment state request random = .ok (key, object, new)) :
    ∃ declared format body, validate body declared deployment.limits = .ok format ∧
      object = ⟨format.contentType, body⟩ := by
  obtain ⟨_, -, h⟩ := bind_eq_ok.mp h
  obtain ⟨_, -, h⟩ := bind_eq_ok.mp h
  obtain ⟨_, -, h⟩ := bind_eq_ok.mp h
  obtain ⟨format, hvalid, h⟩ := bind_eq_ok.mp h
  obtain ⟨_, -, h⟩ := bind_eq_ok.mp h
  obtain ⟨-, hrest⟩ := Prod.mk.inj (Except.ok.inj h)
  exact ⟨_, format, _, hvalid, (Prod.mk.inj hrest).1.symm⟩

/-- **A step keeps what is served valid exactly when it is careful.** -/
theorem sound_step_iff (h : state.Sound deployment) (hstep : Step deployment state event next) :
    next.Sound deployment ↔ Careful deployment state event := by
  have hsame : ∀ row ∈ state.store.files.rows, ∃ row' ∈ state.store.files.rows, row.id = row'.id :=
    fun row hrow => ⟨row, hrow, rfl⟩
  unfold Step step at hstep
  cases event with
  | upload request id random =>
    refine iff_of_true ?_ trivial
    dsimp only at hstep
    split at hstep
    · obtain rfl := Option.some.inj hstep
      exact h
    · rename_i key object new haccept
      obtain ⟨mid, hinsert, rfl⟩ := Option.map_eq_some_iff.mp hstep
      obtain ⟨hfresh, hrows, hpaths, hobjects, -⟩ := insertRow_cases hinsert
      obtain ⟨declared, format, body, hvalid, rfl⟩ := valid_of_acceptUpload haccept
      intro row hrow served hserved
      dsimp only at hrow hserved
      rw [hobjects, getObject_cons] at hserved
      split_ifs at hserved with hkey
      · obtain rfl := Option.some.inj hserved
        exact valid_of_validate hvalid
      · rw [hpaths] at hserved hkey
        rcases List.mem_cons.mp (hrows ▸ hrow) with rfl | hrow
        · exact absurd (Function.update_self ..) hkey
        · rw [Function.update_of_ne (hfresh row hrow)] at hserved
          exact h row hrow served hserved
  | presign request id random =>
    dsimp only at hstep
    split at hstep
    · rename_i e hrefused
      obtain rfl := Option.some.inj hstep
      refine iff_of_true h fun key new haccept => ?_
      rw [hrefused] at haccept
      cases haccept
    · rename_i key new haccept
      split at hstep
      · rename_i hbackend
        obtain rfl := Option.some.inj hstep
        refine iff_of_true h fun key new _ hs3 => ?_
        rw [hbackend] at hs3
        cases hs3
      · rename_i hbackend
        obtain ⟨mid, hinsert, rfl⟩ := Option.map_eq_some_iff.mp hstep
        obtain ⟨hfresh, hrows, hpaths, hobjects, -⟩ := insertRow_cases hinsert
        constructor
        · intro hnext key' new' haccept' _ object hobject
          obtain ⟨rfl, rfl⟩ := Prod.mk.inj (Except.ok.inj (haccept'.symm.trans haccept))
          refine hnext (new'.row id state.now) (hrows ▸ List.mem_cons_self) object ?_
          dsimp only
          rw [hobjects, hpaths, NewFile.row, Function.update_self]
          exact hobject
        · intro hcareful row hrow object hobject
          dsimp only at hrow hobject
          rw [hobjects, hpaths] at hobject
          rcases List.mem_cons.mp (hrows ▸ hrow) with rfl | hrow
          · rw [NewFile.row, Function.update_self] at hobject
            exact hcareful key new haccept hbackend object hobject
          · rw [Function.update_of_ne (hfresh row hrow)] at hobject
            exact h row hrow object hobject
  | put key object =>
    dsimp only at hstep
    split_ifs at hstep with hput
    · obtain rfl := Option.some.inj hstep
      constructor
      · rintro hnext - ⟨row, hrow, hpath⟩
        exact hnext row hrow _ (getObject_cons.trans (if_pos hpath))
      · intro hcareful row hrow served hserved
        dsimp only at hserved
        rw [getObject_cons] at hserved
        split_ifs at hserved with hkey
        · obtain rfl := Option.some.inj hserved
          exact hcareful hput ⟨row, hrow, hkey⟩
        · exact h row hrow served hserved
    · obtain rfl := Option.some.inj hstep
      exact iff_of_true h fun hmay => absurd hmay hput
  | complete userId id =>
    refine iff_of_true ?_ trivial
    dsimp only at hstep
    split at hstep
    · obtain rfl := Option.some.inj hstep
      exact h
    · obtain rfl := Option.some.inj hstep
      refine sound_of_subset h (fun row' hrow' => ?_) rfl fun key object hobject => hobject
      obtain ⟨row, hrow, rfl⟩ := List.mem_map.mp hrow'
      refine ⟨row, hrow, ?_⟩
      split_ifs <;> rfl
  | record recordEvent =>
    refine iff_of_true ?_ trivial
    dsimp only at hstep
    split_ifs at hstep with hevent
    obtain ⟨after, hafter, rfl⟩ := Option.map_eq_some_iff.mp hstep
    exact sound_of_subset h (exists_row_of_record hevent hafter) rfl fun key object hobject => hobject
  | dropRow id =>
    refine iff_of_true ?_ trivial
    obtain rfl := Option.some.inj hstep
    exact sound_of_subset h (fun row hrow => ⟨row, mem_rows_delete hrow, rfl⟩) rfl
      fun key object hobject => hobject
  | dropObject key =>
    refine iff_of_true ?_ trivial
    obtain rfl := Option.some.inj hstep
    refine sound_of_subset h hsame rfl fun other object hobject => ?_
    rw [getObject, lookup_filter] at hobject
    split_ifs at hobject
    · cases hobject
    · exact hobject

/-- **In a run of careful steps only validated objects are served**, and the next step keeps it so
exactly when it is careful. -/
theorem served_of_run {now : Int} {events : List Event}
    (hrun : Run (When (Careful deployment) (Step deployment)) (State.empty now) events state) :
    state.Served deployment ∧ ∀ event next, Step deployment state event next →
      (next.Served deployment ↔ Careful deployment state event) := by
  have hsound : state.Sound deployment :=
    hrun.invariant (I := State.Sound deployment)
      (fun _ _ _ h hstep => (sound_step_iff h hstep.2).mpr hstep.1)
      fun row hrow => by simp [State.empty, Ownership.State.empty] at hrow
  exact ⟨served_iff.mpr hsound, fun event next hstep =>
    served_iff.trans (sound_step_iff hsound hstep)⟩

end Serving

section Library

/-- A server with no collections that keeps its files in a bucket. -/
def bucket : Deployment where
  backend := .s3Storage
  limits := .default
  keyPrefix := ""
  schema := ⟨[]⟩
  names := List.nodup_nil
  fieldNames := by simp

/-- Ada reserves a picture for the library. -/
def reservation : Event :=
  .presign ⟨some "ada", ⟨"", "", ""⟩, "photo.png", .library, "image/png", 33⟩ "fileOfAdaLovela"
    "randomOfAdaLove"

def photoKey : String := "library/randomOfAdaLove/photo.png"

/-- The head of a picture of 800 by 600 points. -/
def photo : Object where
  contentType := "image/png"
  body := [0x89] ++ ascii "PNG\r\n" ++ [0x1a] ++ ascii "\n" ++ [0, 0, 0, 13] ++ ascii "IHDR" ++
    [0, 0, 3, 32, 0, 0, 2, 88, 8, 6, 0, 0, 0]

def page : Object := ⟨"text/html", ascii "<script>alert(1)</script>"⟩

/-- **A page is served from the URL of a picture.** -/
theorem put_is_served :
    ¬ ∀ (deployment : Deployment) (now : Int) (events : List Event) (state : State),
      Run (Step deployment) (State.empty now) events state → state.Served deployment := by
  intro hall
  have hexec : ((exec (step bucket) (State.empty 0) [reservation, .put photoKey photo,
      .complete (some "ada") "fileOfAdaLovela", .put photoKey page]).any fun state =>
        serve bucket state (.byId "fileOfAdaLovela") = .ok page) = true := by
    decide
  obtain ⟨state, hstate, hserve⟩ := (Option.any_eq_true _ _).mp hexec
  obtain ⟨format, hvalid, -⟩ :=
    hall bucket 0 _ state (run_of_exec hstate) _ _ (of_decide_eq_true hserve)
  have hrefused : isOk (validate page.body "" bucket.limits) = false := by decide
  rw [hvalid] at hrefused
  cases hrefused

/-- A picture that Ada sends is served as one. -/
theorem photo_is_served : ∃ state : State,
    serve bucket state (.byId "fileOfAdaLovela") = .ok photo ∧ state.Served bucket ∧
      ∀ event next, Step bucket state event next →
        (next.Served bucket ↔ Careful bucket state event) := by
  have hexec : ((step bucket (State.empty 0) reservation).any fun mid =>
      (step bucket mid (.put photoKey photo)).any fun state =>
        serve bucket state (.byId "fileOfAdaLovela") = .ok photo) = true := by
    decide
  obtain ⟨mid, hmid, hexec⟩ := (Option.any_eq_true _ _).mp hexec
  obtain ⟨state, hstate, hserve⟩ := (Option.any_eq_true _ _).mp hexec
  have hreserve : Careful bucket (State.empty 0) reservation := by
    intro key new _ _ object hobject
    cases hobject
  have hput : Careful bucket mid (.put photoKey photo) := fun _ _ =>
    ⟨.png, by decide, by decide⟩
  exact ⟨state, of_decide_eq_true hserve, served_of_run
    (.cons ⟨hreserve, hmid⟩ (.cons ⟨hput, hstate⟩ (.nil state)))⟩

end Library

end LazyPock.Direct
