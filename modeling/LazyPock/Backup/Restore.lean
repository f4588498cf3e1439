import LazyPock.Backup.Import

/-!
# Restoring a snapshot

`restore_snapshot` of `crates/db/src/backup.rs`: the rollback of an import. It drops the user
collections the snapshot does not hold, brings the definitions back, and replaces the rows in one
transaction with the triggers of the tables disabled.

The triggers are disabled for the collections that hold rows, and enabled again for all collections
of the snapshot, its views included.

## Main definitions

* `Backup.prepareRestore`: the drops and the definitions.
* `Backup.restoreWork`: the transaction that replaces the rows.
* `Backup.restoreSnapshot`.
* `Backup.TouchesOnly`: the restore touches only what it may.
* `Backup.Restorable`: the snapshot holds tables only, or the restore ends before that
  matters.

## Main results

* `Backup.restoreSnapshot_kept`: the server's own collections are left alone.
* `Backup.touchesOnly_iff`: exactly when a restore touches only what it may.
-/

namespace LazyPock.Backup

open Text Machine Collections Saga List

variable (env : Environment)

/-! ### The restore -/

/-- The user collections a snapshot holds, in its order. -/
def restoredNames (archive : Archive) : List String :=
  (archive.collections.map ArchiveCollection.name).filter fun name => !isSystemCollection name

/-- The fields a restore reports as dropped from a collection, as it was before. -/
def droppedFields (archive : Archive) (current : List Collection) (name : String) :
    Result (List String) :=
  match current.find? fun collection => collection.name = name with
  | some collection => undeclaredNames archive name collection
  | none => .ok []

/-- Bring back the definition of one collection. -/
def restoreDefinition (ids : Ids) (archive : Archive) (current : List Collection)
    (existing : List String) (name : String) : Saga World Error (List (String × List String)) :=
  if name ∈ existing then do
    let dropped ← lift (droppedFields archive current name)
    applyDefinition env ids archive name true
    pure [(name, dropped)]
  else do
    createCollection env ids archive name
    pure []

/-- Bring back definitions one after another, the `index`-th with the `index`-th ids. -/
def restoreDefinitions (ids : ℕ → Ids) (archive : Archive) (current : List Collection)
    (existing : List String) : ℕ → List String → Saga World Error (List (String × List String))
  | _, [] => pure []
  | index, name :: rest => do
    let removed ← restoreDefinition env (ids index) archive current existing name
    let others ← restoreDefinitions ids archive current existing (index + 1) rest
    pure (removed ++ others)

/-- The collections of the snapshot that hold rows of their own. -/
def dataNames (archive : Archive) : List String → Result (List String)
  | [] => .ok []
  | name :: rest => do
    let definition ← definitionOf archive name
    let collectionType ← parseCollectionType definition.collectionType
    let others ← dataNames archive rest
    .ok (if collectionType = .view then others else name :: others)

/-- The type the snapshot declares for a collection. -/
def declaredType (archive : Archive) (name : String) : Result CollectionType := do
  let definition ← definitionOf archive name
  parseCollectionType definition.collectionType

/-- Whether the snapshot declares something else than a view. -/
def holdsRows (archive : Archive) (name : String) : Bool :=
  match declaredType archive name with
  | .ok .view => false
  | _ => true

/-- What a restore does before it touches a row: the drops and the definitions. -/
def prepareRestore (ids : ℕ → Ids) (archive : Archive) :
    Saga World Error (List (String × List String) × List String) := do
  let current ← Saga.read fun w => .ok (list w.db)
  dropCollections env (undeclared current (restoredNames archive))
  let existing ← Saga.read fun w => .ok ((list w.db).map Collection.name)
  let removed ← restoreDefinitions env ids archive current existing 0 (restoredNames archive)
  let data ← lift (dataNames archive (restoredNames archive))
  pure (removed, data)

/-- Send a statement for each of some tables. -/
def sendAll (statement : String → RowStatement) : List String → Saga World Error Unit
  | [] => pure ()
  | name :: rest => do
    send env (statement name) (dbError env.server)
    sendAll statement rest

/-- Replace the rows of some collections, with the triggers disabled. -/
def rewriteRows (archive : Archive) (removed : List (String × List String)) (data : List String) :
    Saga World Error (List ImportedCollection) := do
  sendAll env .disableTriggers data
  sendAll env .deleteFrom data
  importBatch env archive removed data

/-- The work of the transaction that replaces the rows. -/
def restoreWork (archive : Archive) (removed : List (String × List String)) (data : List String) :
    Saga World Error (List ImportedCollection) := do
  let imported ← rewriteRows env archive removed data
  sendAll env .enableTriggers (restoredNames archive)
  pure imported

/-- Restore the database to an archive. -/
def restoreArchive (ids : ℕ → Ids) (archive : Archive) : Saga World Error ImportReport := do
  let current ← Saga.read fun w => .ok (list w.db)
  let prepared ← prepareRestore env ids archive
  let imported ← atomically env (restoreWork env archive prepared.1 prepared.2)
  pure ⟨imported, [], [], undeclared current (restoredNames archive)⟩

/-- Restore the database to a snapshot payload, destructively. -/
def restoreSnapshot (ids : ℕ → Ids) (payload : Json) : Saga World Error ImportReport := do
  let archive ← lift (archiveFromPayload payload)
  restoreArchive env ids archive

/-! ### What it may touch -/

/-- The statements on rows and triggers a restore sends. -/
def sentBy (ids : ℕ → Ids) (payload : Json) (w : World) : List RowStatement :=
  (restoreSnapshot env ids payload w).2.sent.drop w.sent.length

/-- A collection of this name is stored, and it is no view. -/
def TableCollection (db : Db) (name : String) : Prop :=
  ∃ c ∈ db.collections, c.name = name ∧ c.collectionType ≠ .view

/-- **A restore touches only what it may.** -/
structure TouchesOnly (ids : ℕ → Ids) (payload : Json) (w : World) : Prop where
  /-- Rows and triggers: only those of user tables. -/
  statements : ∀ statement ∈ sentBy env ids payload w, isSystemCollection statement.table = false ∧
    TableCollection (restoreSnapshot env ids payload w).2.db statement.table
  /-- Once triggers are enabled again, it is those that were disabled. -/
  triggers : (∃ name, .enableTriggers name ∈ sentBy env ids payload w) →
    ∀ name, .enableTriggers name ∈ sentBy env ids payload w ↔
      .disableTriggers name ∈ sentBy env ids payload w
  /-- The server's own collections are neither dropped nor written. -/
  system : World.Kept isSystemCollection w (restoreSnapshot env ids payload w).2
  /-- A user collection the snapshot does not hold is dropped, where no drop is refused. -/
  dropped : ∀ archive, archiveFromPayload payload = .ok archive →
    ¬ Fails (dropCollections env (undeclared (list w.db) (restoredNames archive))) w →
    ∀ c ∈ (restoreSnapshot env ids payload w).2.db.collections,
      isSystemCollection c.name = false → c.name ∈ restoredNames archive

/-- The names a loop over statements gets to: up to the first one that is not the name of a table. -/
@[grind =]
def reached (db : Db) : List String → List String
  | [] => []
  | name :: rest => name :: if isTable db name then reached db rest else []

/-- Where a restore gets to the rows, no collection whose triggers it comes to was stored as a view,
and the snapshot holds no view, or the restore fails before it enables the triggers. -/
def Restorable (ids : ℕ → Ids) (payload : Json) (w : World) : Prop :=
  ∀ archive removed data mid, archiveFromPayload payload = .ok archive →
    prepareRestore env ids archive w = (.ok (removed, data), mid) →
    (∀ c ∈ w.db.collections, c.collectionType = .view → c.name ∉ reached mid.db data) ∧
      (data = restoredNames archive ∨ Fails (rewriteRows env archive removed data) mid)

/-! ### The statements that are sent -/

section Sent

variable {env} {archive : Archive} {removed : List (String × List String)} {data names : List String}
  {w : World}

theorem mem_reached_of_all {db : Db} (h : ∀ name ∈ names, isTable db name = true) {name : String} :
    name ∈ reached db names ↔ name ∈ names := by
  induction names with
  | nil => rfl
  | cons first rest ih =>
    obtain ⟨hfirst, hrest⟩ := forall_mem_cons.mp h
    simp only [reached, hfirst, ↓reduceIte, mem_cons, ih hrest]

theorem mem_of_reached {db : Db} {name : String} (h : name ∈ reached db names) : name ∈ names := by
  induction names with
  | nil => cases h
  | cons first rest ih =>
    rw [reached, mem_cons] at h
    rcases h with rfl | h
    · exact mem_cons_self
    · split_ifs at h
      · exact mem_cons_of_mem _ (ih h)
      · cases h

/-- A loop gets to every name that only names of tables stand before. -/
theorem exists_reached {db : Db} {p : String → Bool} (h : ∀ name ∈ names, p name = true →
    isTable db name = true) (hsome : ∃ name ∈ names, p name = false) :
    ∃ name ∈ reached db names, p name = false := by
  induction names with
  | nil =>
    obtain ⟨name, hname, -⟩ := hsome
    cases hname
  | cons first rest ih =>
    obtain ⟨hfirst, hrest⟩ := forall_mem_cons.mp h
    cases hp : p first with
    | false => exact ⟨first, mem_cons_self, hp⟩
    | true =>
      have hsome' : ∃ name ∈ rest, p name = false := by
        obtain ⟨name, hname, hfalse⟩ := hsome
        rcases mem_cons.mp hname with rfl | hname
        · rw [hp] at hfalse
          cases hfalse
        · exact ⟨name, hname, hfalse⟩
      obtain ⟨name, hname, hfalse⟩ := ih hrest hsome'
      exact ⟨name, by simp only [reached, hfirst hp, ↓reduceIte]; exact mem_cons_of_mem _ hname,
        hfalse⟩

/-- **A loop over statements** sends one for each name it gets to, and succeeds where all of them are
the names of tables. -/
theorem sendAll_spec (env : Environment) (statement : String → RowStatement) (names : List String)
    (w : World) (htable : ∀ name, (statement name).table = name)
    (hexecute : ∀ w name, (executeOnTable env w (statement name)).isSome = true) :
    (sendAll env statement names w).2.db = w.db ∧
      (sendAll env statement names w).2.sent = w.sent ++ (reached w.db names).map statement ∧
      (Fails (sendAll env statement names) w ↔ ∃ name ∈ names, isTable w.db name = false) := by
  induction names generalizing w with
  | nil => simp [sendAll, reached]
  | cons name rest ih =>
    let asked : World := { w with sent := w.sent ++ [statement name] }
    cases hname : isTable w.db name with
    | false =>
      have hsend : send env (statement name) (dbError env.server) w =
          (.error (dbError env.server), asked) := by
        have hnone : execute env asked (statement name) = none := by
          rw [execute, htable, if_neg]
          rw [show isTable asked.db name = false from hname]
          exact Bool.false_ne_true
        unfold send
        dsimp only
        rw [hnone]
      have hall : sendAll env statement (name :: rest) w = (.error (dbError env.server), asked) :=
        bind_of_error hsend _
      refine ⟨by rw [hall], by rw [hall]; simp [reached, hname, asked], ?_⟩
      exact iff_of_true ⟨_, by rw [hall]⟩ ⟨name, mem_cons_self, hname⟩
    | true =>
      obtain ⟨next, hnext⟩ := Option.isSome_iff_exists.mp (hexecute asked name)
      have hsome : execute env asked (statement name) = some next := by
        rw [execute, htable, if_pos (show isTable asked.db name = true from hname), hnext]
      have hsend : send env (statement name) (dbError env.server) w = (.ok (), next) := by
        unfold send
        dsimp only
        rw [hsome]
      have hall : sendAll env statement (name :: rest) w = sendAll env statement rest next :=
        bind_of_ok hsend _
      have hdb : next.db = w.db := (execute_db hsome).1
      have hsent : next.sent = w.sent ++ [statement name] := (execute_db hsome).2
      obtain ⟨hdb', hsent', hfails⟩ := ih next
      refine ⟨by rw [hall, hdb', hdb], ?_, ?_⟩
      · rw [hall, hsent', hsent, hdb]
        simp [reached, hname]
      · rw [Fails, hall, ← Fails, hfails, hdb]
        simp [hname]

/-- The collections are as they were, and only statements of a kind were sent. -/
def Sends (P : RowStatement → Prop) (before after : World) : Prop :=
  after.db = before.db ∧ ∃ extra, after.sent = before.sent ++ extra ∧ ∀ s ∈ extra, P s

/-- The records of some collections are sent as upserts of theirs. -/
theorem importBatch_sends (env : Environment) (archive : Archive)
    (removed : List (String × List String)) (names : List String) (w : World) :
    Sends (fun s => ∃ name ∈ names, ∃ columns record, s = .upsert name columns record) w
      (importBatch env archive removed names w).2 := by
  let P (s : RowStatement) : Prop := ∃ name ∈ names, ∃ columns record, s = .upsert name columns record
  have hrecords : ∀ name ∈ names,
      Preserves (Sends P w) (applyRecords env archive name) := by
    refine fun name hname => applyRecords_preserves fun columns record e v hv => ?_
    obtain ⟨hdb, extra, hsent, hextra⟩ := hv
    have hasked : ∀ s ∈ extra ++ [.upsert name columns record], P s := by
      intro s hs
      rcases mem_append.mp hs with hs | hs
      · exact hextra s hs
      · exact ⟨name, hname, columns, record, mem_singleton.mp hs⟩
    have hlist : v.sent ++ [.upsert name columns record] =
        w.sent ++ (extra ++ [.upsert name columns record]) := by rw [hsent, append_assoc]
    unfold send
    dsimp only
    split
    next after hafter =>
      obtain ⟨hdb', hsent'⟩ := execute_db hafter
      exact ⟨hdb'.trans hdb, _, hsent'.trans hlist, hasked⟩
    next => exact ⟨hdb, _, hlist, hasked⟩
  have hbatch : ∀ l : List String, (∀ name ∈ l, name ∈ names) →
      Preserves (Sends P w) (importBatch env archive removed l) := by
    intro l hl
    induction l with
    | nil => exact .pure _
    | cons name rest ih =>
      obtain ⟨hname, hrest⟩ := forall_mem_cons.mp hl
      exact (hrecords name hname).bind fun _ => (ih hrest).bind fun _ => .pure _
  exact hbatch names (fun _ h => h) w ⟨rfl, [], (append_nil _).symm, by simp⟩

/-- **What the rewriting of the rows sends**: it disables triggers as far as the loop gets, and what
it sends besides is about these tables. -/
theorem rewriteRows_sends (env : Environment) (archive : Archive)
    (removed : List (String × List String)) (data : List String) (w : World) :
    ∃ extra, (rewriteRows env archive removed data w).2.db = w.db ∧
      (rewriteRows env archive removed data w).2.sent =
        w.sent ++ ((reached w.db data).map RowStatement.disableTriggers ++ extra) ∧
      (∀ s ∈ extra, s.table ∈ reached w.db data ∧ ∀ name, s ≠ .disableTriggers name ∧
        s ≠ .enableTriggers name) ∧
      (¬ Fails (rewriteRows env archive removed data) w →
        ∀ name ∈ data, isTable w.db name = true) := by
  obtain ⟨hdb, hsent, hfails⟩ :=
    sendAll_spec env .disableTriggers data w (fun _ => rfl) fun _ _ => rfl
  by_cases hall : ∀ name ∈ data, isTable w.db name = true
  · have hdisabled : ¬ Fails (sendAll env .disableTriggers data) w := by
      rw [hfails]
      rintro ⟨name, hname, hfalse⟩
      rw [hall name hname] at hfalse
      cases hfalse
    obtain ⟨_, -, hwork⟩ := bind_snd_of_not_fails hdisabled (f := fun _ => do
      sendAll env .deleteFrom data
      importBatch env archive removed data)
    obtain ⟨hdb', hsent', hfails'⟩ := sendAll_spec env .deleteFrom data
      (sendAll env .disableTriggers data w).2 (fun _ => rfl) fun _ _ => rfl
    rw [hdb] at hdb' hsent' hfails'
    have hdeleted : ¬ Fails (sendAll env .deleteFrom data)
        (sendAll env .disableTriggers data w).2 := by
      rw [hfails']
      rintro ⟨name, hname, hfalse⟩
      rw [hall name hname] at hfalse
      cases hfalse
    obtain ⟨_, -, hwork'⟩ := bind_snd_of_not_fails hdeleted
      (f := fun _ => importBatch env archive removed data)
    obtain ⟨hdb'', extra, hsent'', hextra⟩ := importBatch_sends env archive removed data
      (sendAll env .deleteFrom data (sendAll env .disableTriggers data w).2).2
    refine ⟨(reached w.db data).map RowStatement.deleteFrom ++ extra, ?_, ?_, ?_, fun _ => hall⟩
    · rw [rewriteRows, hwork, hwork', hdb'', hdb']
    · rw [rewriteRows, hwork, hwork', hsent'', hsent', hsent]
      simp only [append_assoc]
    · intro s hs
      rcases mem_append.mp hs with hs | hs
      · obtain ⟨name, hname, rfl⟩ := mem_map.mp hs
        exact ⟨hname, by simp⟩
      · obtain ⟨name, hname, columns, record, rfl⟩ := hextra s hs
        exact ⟨(mem_reached_of_all hall).mpr hname, by simp⟩
  · have hdisabled : Fails (sendAll env .disableTriggers data) w := by
      rw [hfails]
      simpa using hall
    obtain ⟨hwork, hfailed⟩ := bind_snd_of_fails hdisabled (f := fun _ => do
      sendAll env .deleteFrom data
      importBatch env archive removed data)
    refine ⟨[], by rw [rewriteRows, hwork, hdb], ?_, by simp, fun h => absurd hfailed h⟩
    rw [rewriteRows, hwork, hsent, append_nil]

/-- **What the transaction of a restore sends**: it disables triggers as far as the first loop gets,
and enables them as far as the last one gets, which it starts where nothing has failed. -/
theorem restoreWork_sends (env : Environment) (archive : Archive)
    (removed : List (String × List String)) (data : List String) (w : World) :
    ∃ extra, (restoreWork env archive removed data w).2.db = w.db ∧
      (restoreWork env archive removed data w).2.sent = w.sent ++ extra ∧
      (∀ s ∈ extra, (∀ name, s ≠ .enableTriggers name) → s.table ∈ reached w.db data) ∧
      (∀ name, .disableTriggers name ∈ extra ↔ name ∈ reached w.db data) ∧
      ∀ name, .enableTriggers name ∈ extra ↔
        ¬ Fails (rewriteRows env archive removed data) w ∧
          name ∈ reached w.db (restoredNames archive) := by
  obtain ⟨others, hdb, hsent, hothers, -⟩ := rewriteRows_sends env archive removed data w
  have hdisabled : ∀ name : String, .disableTriggers name ∈
      (reached w.db data).map RowStatement.disableTriggers ++ others ↔ name ∈ reached w.db data := by
    intro name
    rw [mem_append, mem_map]
    constructor
    · rintro (⟨other, hother, hsame⟩ | hmem)
      · exact RowStatement.disableTriggers.inj hsame ▸ hother
      · exact absurd rfl ((hothers _ hmem).2 name).1
    · exact fun h => .inl ⟨name, h, rfl⟩
  have hnone : ∀ name : String, .enableTriggers name ∉
      (reached w.db data).map RowStatement.disableTriggers ++ others := by
    intro name hmem
    rcases mem_append.mp hmem with hmem | hmem
    · obtain ⟨other, -, hsame⟩ := mem_map.mp hmem
      cases hsame
    · exact absurd rfl ((hothers _ hmem).2 name).2
  have htable : ∀ s ∈ (reached w.db data).map RowStatement.disableTriggers ++ others,
      s.table ∈ reached w.db data := by
    intro s hs
    rcases mem_append.mp hs with hs | hs
    · obtain ⟨name, hname, rfl⟩ := mem_map.mp hs
      exact hname
    · exact (hothers s hs).1
  by_cases hfails : Fails (rewriteRows env archive removed data) w
  · obtain ⟨hwork, -⟩ := bind_snd_of_fails hfails (f := fun imported => do
      sendAll env .enableTriggers (restoredNames archive)
      pure imported)
    refine ⟨_, by rw [restoreWork, hwork, hdb], by rw [restoreWork, hwork, hsent],
      fun s hs _ => htable s hs, hdisabled, fun name => ?_⟩
    exact iff_of_false (hnone name) fun h => h.1 hfails
  · obtain ⟨imported, -, hwork⟩ := bind_snd_of_not_fails hfails (f := fun imported => do
      sendAll env .enableTriggers (restoredNames archive)
      pure imported)
    have hlast : (restoreWork env archive removed data w).2 =
        (sendAll env .enableTriggers (restoredNames archive)
          (rewriteRows env archive removed data w).2).2 := by
      rw [restoreWork, hwork]
      exact Quiet.snd_bind (fun _ _ => rfl) _
    obtain ⟨hdb', hsent', -⟩ := sendAll_spec env .enableTriggers (restoredNames archive)
      (rewriteRows env archive removed data w).2 (fun _ => rfl) fun _ _ => rfl
    rw [hdb] at hdb' hsent'
    refine ⟨(reached w.db data).map RowStatement.disableTriggers ++ others ++
      (reached w.db (restoredNames archive)).map RowStatement.enableTriggers,
      by rw [hlast, hdb'], by rw [hlast, hsent', hsent, append_assoc], ?_, ?_, ?_⟩
    · intro s hs henable
      rcases mem_append.mp hs with hs | hs
      · exact htable s hs
      · obtain ⟨name, -, rfl⟩ := mem_map.mp hs
        exact absurd rfl (henable name)
    · intro name
      rw [mem_append, hdisabled, or_iff_left]
      intro hmem
      obtain ⟨other, -, hsame⟩ := mem_map.mp hmem
      cases hsame
    · intro name
      rw [mem_append, or_iff_right (hnone name), mem_map]
      simp only [RowStatement.enableTriggers.injEq, exists_eq_right, hfails, not_false_eq_true,
        true_and]

end Sent

/-! ### The collections that are written -/

section Collections

variable {env} {ids : ℕ → Ids} {archive : Archive} {w : World}

theorem atomically_db {α : Type} (env : Environment) {work : Saga World Error α}
    (h : (work w).2.db = w.db) :
    (atomically env work w).2.db = w.db ∧ (atomically env work w).2.sent = (work w).2.sent := by
  unfold atomically
  split
  next x after hwork =>
    rw [hwork] at h ⊢
    split_ifs
    · exact ⟨h, rfl⟩
    · exact ⟨rfl, rfl⟩
  next e after hwork =>
    rw [hwork]
    exact ⟨rfl, rfl⟩

/-- What the operations on collections keep, a program of them keeps. -/
theorem createCollection_preserves {J : World → Prop} {ids : Ids} {name : String}
    (h : ∀ input : CreateCollection, input.name = name →
      Preserves J (onCollections env (create env.sha env.server env.toQuery input ids))) :
    Preserves J (createCollection env ids archive name) :=
  (Preserves.lift _).bind fun _ => (Preserves.lift _).bind fun _ =>
    (Preserves.lift _).bind fun _ => (h _ rfl).bind fun _ => .pure _

theorem applyDefinition_preserves {J : World → Prop} {ids : Ids} {name : String}
    {deleteMissing : Bool} (h : ∀ input : UpdateCollection,
      input.deleteMissingFields = deleteMissing →
      Preserves J
        (onCollections env (update env.sha env.server env.toQuery name input ids.field))) :
    Preserves J (applyDefinition env ids archive name deleteMissing) :=
  (Preserves.lift _).bind fun _ => (Preserves.lift _).bind fun _ =>
    (Preserves.lift _).bind fun _ => (h _ rfl).bind fun _ => .pure _

theorem dropCollections_preserves {J : World → Prop} {names : List String}
    (h : ∀ name ∈ names, Preserves J (onCollections env (delete env.server name true))) :
    Preserves J (dropCollections env names) := by
  induction names with
  | nil => exact .pure _
  | cons name rest ih =>
    obtain ⟨hname, hrest⟩ := forall_mem_cons.mp h
    exact hname.bind fun _ => ih hrest

theorem restoreDefinitions_preserves {J : World → Prop} {current : List Collection}
    {existing names : List String} {index : ℕ}
    (hcreate : ∀ name ∈ names, ∀ (ids : Ids) (input : CreateCollection), input.name = name →
      Preserves J (onCollections env (create env.sha env.server env.toQuery input ids)))
    (hupdate : ∀ name ∈ names, name ∈ existing → ∀ (ids : ℕ → String) (input : UpdateCollection),
      Preserves J (onCollections env (update env.sha env.server env.toQuery name input ids))) :
    Preserves J (restoreDefinitions env ids archive current existing index names) := by
  induction names generalizing index with
  | nil => exact .pure _
  | cons name rest ih =>
    obtain ⟨hcreate', hcreates⟩ := forall_mem_cons.mp hcreate
    obtain ⟨hupdate', hupdates⟩ := forall_mem_cons.mp hupdate
    refine .bind ?_ fun _ => (ih hcreates hupdates).bind fun _ => .pure _
    unfold restoreDefinition
    split_ifs with hexisting
    · exact (Preserves.lift _).bind fun _ =>
        (applyDefinition_preserves fun input _ => hupdate' hexisting _ input).bind fun _ => .pure _
    · exact (createCollection_preserves fun input hname => hcreate' _ input hname).bind fun _ =>
        .pure _

/-- The world a preparation leaves. -/
theorem prepareRestore_snd (env : Environment) (ids : ℕ → Ids) (archive : Archive) (w : World) :
    (Fails (dropCollections env (undeclared (list w.db) (restoredNames archive))) w ∧
      Fails (prepareRestore env ids archive) w ∧
      (prepareRestore env ids archive w).2 =
        (dropCollections env (undeclared (list w.db) (restoredNames archive)) w).2) ∨
    (¬ Fails (dropCollections env (undeclared (list w.db) (restoredNames archive))) w ∧
      (prepareRestore env ids archive w).2 =
        (restoreDefinitions env ids archive (list w.db)
          ((list (dropCollections env (undeclared (list w.db) (restoredNames archive)) w).2.db).map
            Collection.name) 0 (restoredNames archive)
          (dropCollections env (undeclared (list w.db) (restoredNames archive)) w).2).2) := by
  let rest (current : List Collection) (_ : Unit) :
      Saga World Error (List (String × List String) × List String) := do
    let existing ← Saga.read fun w => .ok ((list w.db).map Collection.name)
    let removed ← restoreDefinitions env ids archive current existing 0 (restoredNames archive)
    let data ← lift (dataNames archive (restoredNames archive))
    pure (removed, data)
  have hprepare : prepareRestore env ids archive w =
      (dropCollections env (undeclared (list w.db) (restoredNames archive)) >>= rest (list w.db)) w :=
    rfl
  by_cases hfails :
      Fails (dropCollections env (undeclared (list w.db) (restoredNames archive))) w
  · obtain ⟨hsnd, hfailed⟩ := bind_snd_of_fails hfails (f := rest (list w.db))
    rw [← hprepare] at hsnd
    exact .inl ⟨hfails, by rwa [Fails, hprepare], hsnd⟩
  · obtain ⟨u, -, hrest⟩ := bind_snd_of_not_fails hfails (f := rest (list w.db))
    refine .inr ⟨hfails, ?_⟩
    rw [hprepare, hrest]
    exact Quiet.snd_bind (fun removed => Quiet.bind (.lift _) fun _ _ => rfl) _

/-- A drop leaves the collections that stay under their names. -/
theorem dropCollections_labels (names : List String) :
    ∀ l ∈ (dropCollections env names w).2.db.labels, l ∈ w.db.labels := by
  have hpreserves : Preserves (fun v => ∀ l ∈ v.db.labels, l ∈ w.db.labels)
      (dropCollections env names) :=
    dropCollections_preserves fun name _ v hv l hl => hv l (delete_labels name l hl)
  exact hpreserves w fun _ hl => hl

theorem name_mem_of_labels {db after : Db} (h : ∀ l ∈ after.labels, l ∈ db.labels)
    {c : Collection} (hc : c ∈ after.collections) :
    ∃ d ∈ db.collections, d.id = c.id ∧ d.name = c.name := by
  obtain ⟨d, hd, hlabel⟩ := mem_map.mp (h _ (mem_map_of_mem hc))
  exact ⟨d, hd, congrArg Prod.fst hlabel, congrArg (fun l => l.2.1) hlabel⟩

theorem mem_names_list {db : Db} {name : String} :
    name ∈ (list db).map Collection.name ↔ ∃ c ∈ db.collections, c.name = name := by
  simp only [mem_map, mem_list]
  constructor
  · rintro ⟨_, ⟨c, hc, rfl⟩, rfl⟩
    exact ⟨c, hc, rfl⟩
  · rintro ⟨c, hc, rfl⟩
    exact ⟨_, ⟨c, hc, rfl⟩, rfl⟩

/-- The user collections a snapshot leaves out are stored under these names. -/
theorem exists_of_undeclared {db : Db} {names : List String} {name : String}
    (h : name ∈ undeclared (list db) names) :
    (∃ d ∈ db.collections, d.name = name) ∧ isSystemCollection name = false ∧ name ∉ names := by
  obtain ⟨hmem, hkeep⟩ := mem_filter.mp h
  rw [Bool.and_eq_true, Bool.not_eq_true', decide_eq_true_eq] at hkeep
  exact ⟨mem_names_list.mp hmem, hkeep⟩

/-- **The server's own collections are left alone** by the drops and the definitions. -/
theorem prepareRestore_kept (ids : ℕ → Ids) (archive : Archive)
    (hapart : Apart isSystemCollection w.db)
    (hdependants : ∀ name, isSystemCollection name = false →
      ∀ d ∈ env.server.dependants name, isSystemCollection d = false) :
    World.Kept isSystemCollection w (prepareRestore env ids archive w).2 := by
  have hids : ∀ {v : World} {name : String}, World.Kept isSystemCollection w v →
      (∃ d ∈ w.db.collections, d.name = name) →
      ∀ c ∈ v.db.collections, isSystemCollection c.name = true → c.id ≠ name := by
    rintro v _ hv ⟨d, hd, rfl⟩ c hc hsystem
    exact hapart c ((hv.db.mem_iff hsystem).mp hc) hsystem d hd
  have hdrop : World.Kept isSystemCollection w
      (dropCollections env (undeclared (list w.db) (restoredNames archive)) w).2 := by
    refine dropCollections_preserves (fun name hname v hv => ?_) w (.refl _ w)
    obtain ⟨hstored, huser, -⟩ := exists_of_undeclared hname
    exact hv.trans (.onCollections (delete_kept huser (hids hv hstored) hdependants))
  rcases prepareRestore_snd env ids archive w with
    ⟨-, -, hsnd⟩ | ⟨-, hsnd⟩
  · rwa [hsnd]
  · rw [hsnd]
    have hnames : ∀ name ∈ restoredNames archive, isSystemCollection name = false := by
      intro name hname
      simpa using (mem_filter.mp hname).2
    have hpreserves : Preserves
        (fun v => World.Kept isSystemCollection w v ∧ Apart isSystemCollection v.db)
        (restoreDefinitions env ids archive (list w.db)
          ((list (dropCollections env (undeclared (list w.db) (restoredNames archive)) w).2.db).map
            Collection.name) 0 (restoredNames archive)) := by
      refine restoreDefinitions_preserves (fun name hname ids input hinput v hv => ?_)
        fun name hname hexisting ids input v hv => ?_
      · have hinput' : isSystemCollection input.name = false := hinput ▸ hnames name hname
        exact ⟨hv.1.trans (.onCollections (create_kept hinput')),
          hv.2.create fun h => absurd h (by simp [hinput'])⟩
      · obtain ⟨c, hc, hcname⟩ := mem_names_list.mp hexisting
        obtain ⟨d, hd, -, hdname⟩ := name_mem_of_labels (dropCollections_labels _) hc
        exact ⟨hv.1.trans (.onCollections (update_kept hv.2 (hnames name hname)
          (hids hv.1 ⟨d, hd, hdname.trans hcname⟩))),
          hv.2.of_labels fun l hl => (update_labels name input ids) ▸ hl⟩
    exact (hpreserves _ ⟨hdrop, hapart.of_labels (dropCollections_labels _)⟩).1

/-- **A drop of collections** that is not refused removes the collections of these names. -/
theorem labels_of_dropCollections {names : List String}
    (h : ¬ Fails (dropCollections env names) w)
    (hid : ∀ c ∈ w.db.collections, ∀ name ∈ names, c.id ≠ name) :
    (dropCollections env names w).2.db.labels = w.db.labels.filter fun l => l.2.1 ∉ names := by
  induction names generalizing w with
  | nil => simp [dropCollections]
  | cons name rest ih =>
    cases hdelete : delete env.server name true w.db with
    | mk r db =>
      have hstep : onCollections env (delete env.server name true) w = (r, w.withDb env db) := by
        rw [onCollections, hdelete]
      cases r with
      | error e =>
        exact absurd (fails_bind.mpr (.inl ⟨e, by rw [hstep]⟩)) h
      | ok deleted =>
        have hrest : dropCollections env (name :: rest) w =
            dropCollections env rest (w.withDb env db) := bind_of_ok hstep _
        have hlabels := labels_of_delete hdelete fun c hc => hid c hc name mem_cons_self
        have hids : ∀ c ∈ db.collections, ∀ other ∈ rest, c.id ≠ other := by
          intro c hc other hother
          have hmem : (c.id, c.name, c.collectionType) ∈ db.labels := mem_map_of_mem hc
          obtain ⟨d, hd, hlabel⟩ := mem_map.mp (mem_filter.mp (hlabels ▸ hmem)).1
          have hsame : d.id = c.id := congrArg Prod.fst hlabel
          rw [← hsame]
          exact hid d hd other (mem_cons_of_mem _ hother)
        rw [Fails, hrest, ← Fails] at h
        rw [hrest, ih h hids, db_withDb, hlabels, filter_filter]
        refine filter_congr fun l _ => ?_
        simp [Bool.and_comm]

/-- **Every user collection the snapshot does not hold is dropped**, and no definition brings one
back. -/
theorem prepareRestore_dropped (ids : ℕ → Ids) (hapart : Apart (fun _ => true) w.db)
    (hdrop : ¬ Fails (dropCollections env (undeclared (list w.db) (restoredNames archive))) w) :
    ∀ l ∈ (prepareRestore env ids archive w).2.db.labels,
      isSystemCollection l.2.1 = false → l.2.1 ∈ restoredNames archive := by
  have hlabels := labels_of_dropCollections hdrop fun c hc name hname => by
    obtain ⟨⟨d, hd, rfl⟩, -⟩ := exists_of_undeclared hname
    exact hapart c hc rfl d hd
  have hdropped : ∀ l ∈ (dropCollections env (undeclared (list w.db) (restoredNames archive)) w
      ).2.db.labels, isSystemCollection l.2.1 = false → l.2.1 ∈ restoredNames archive := by
    intro l hl huser
    rw [hlabels] at hl
    obtain ⟨hmem, hkeep⟩ := mem_filter.mp hl
    obtain ⟨c, hc, rfl⟩ := mem_map.mp hmem
    by_contra hnot
    refine of_decide_eq_true hkeep (mem_filter.mpr
      ⟨mem_names_list.mpr ⟨c, hc, rfl⟩, ?_⟩)
    simpa using ⟨huser, hnot⟩
  rcases prepareRestore_snd env ids archive w with
    ⟨hfails, -⟩ | ⟨-, hsnd⟩
  · exact absurd hfails hdrop
  · rw [hsnd]
    let J (v : World) : Prop :=
      ∀ l ∈ v.db.labels, isSystemCollection l.2.1 = false → l.2.1 ∈ restoredNames archive
    have hpreserves : Preserves J (restoreDefinitions env ids archive (list w.db)
        ((list (dropCollections env (undeclared (list w.db) (restoredNames archive)) w).2.db).map
          Collection.name) 0 (restoredNames archive)) := by
      refine restoreDefinitions_preserves (fun name hname ids input hinput v hv => ?_)
        fun name _ _ ids input v hv => ?_
      · intro l hl huser
        cases hcreate : create env.sha env.server env.toQuery input ids v.db with
        | mk r after =>
          have hl' : l ∈ after.labels := by
            rw [onCollections, hcreate] at hl
            exact hl
          cases r with
          | error e => exact hv l (create_eq_error hcreate ▸ hl') huser
          | ok created =>
            rw [(create_labels hcreate).2, mem_append, mem_singleton] at hl'
            rcases hl' with hl' | rfl
            · exact hv l hl' huser
            · exact hinput ▸ hname
      · intro l hl huser
        exact hv l (update_labels name input ids ▸ hl) huser
    exact hpreserves _ hdropped

end Collections

/-! ### What a preparation leaves -/

section Prepared

variable {env} {ids : ℕ → Ids} {archive : Archive} {current : List Collection}
  {existing names data : List String} {removed : List (String × List String)} {w mid : World}

theorem dataNames_eq_ok (h : dataNames archive names = .ok data) :
    data = names.filter (holdsRows archive) := by
  induction names generalizing data with
  | nil =>
    obtain rfl := Except.ok.inj h
    rfl
  | cons name rest ih =>
    obtain ⟨definition, hdefinition, h⟩ := bind_eq_ok.mp h
    obtain ⟨collectionType, htype, h⟩ := bind_eq_ok.mp h
    obtain ⟨others, hothers, h⟩ := bind_eq_ok.mp h
    obtain rfl := Except.ok.inj h
    have hdeclared : declaredType archive name = .ok collectionType :=
      bind_eq_ok.mpr ⟨definition, hdefinition, htype⟩
    rw [ih hothers, filter_cons, holdsRows, hdeclared]
    cases collectionType <;> simp

theorem createCollection_labels {ids : Ids} {name : String} {u : Unit}
    (h : createCollection env ids archive name w = (.ok u, mid)) :
    ∃ collectionType, declaredType archive name = .ok collectionType ∧
      mid.db.labels = w.db.labels ++ [(ids.collection, name, collectionType)] := by
  obtain ⟨definition, hdefinition, h⟩ := lift_bind_eq_ok.mp h
  obtain ⟨collectionType, htype, h⟩ := lift_bind_eq_ok.mp h
  obtain ⟨fields, -, h⟩ := lift_bind_eq_ok.mp h
  obtain ⟨created, after, hcreate, h⟩ := Saga.bind_eq_ok.mp h
  obtain rfl : after = mid := congrArg Prod.snd h
  refine ⟨collectionType, bind_eq_ok.mpr ⟨definition, hdefinition, htype⟩, ?_⟩
  obtain ⟨hcreated, rfl⟩ := Prod.mk.inj hcreate
  exact (create_labels (Prod.ext hcreated rfl)).2

theorem applyDefinition_labels (env : Environment) (ids : Ids) (archive : Archive) (name : String)
    (deleteMissing : Bool) (w : World) :
    (applyDefinition env ids archive name deleteMissing w).2.db.labels = w.db.labels := by
  have hpreserves : Preserves (fun v => v.db.labels = w.db.labels)
      (applyDefinition env ids archive name deleteMissing) :=
    applyDefinition_preserves fun input _ v hv => (update_labels name input ids.field).trans hv
  exact hpreserves w rfl

/-- **The definitions that are brought back** are of collections that were there, or of new ones of
the declared type. -/
theorem restoreDefinitions_labels {index : ℕ}
    (h : restoreDefinitions env ids archive current existing index names w = (.ok removed, mid)) :
    w.db.labels <+: mid.db.labels ∧ ∀ name ∈ names, name ∈ existing ∨
      ∃ id collectionType, declaredType archive name = .ok collectionType ∧
        (id, name, collectionType) ∈ mid.db.labels := by
  induction names generalizing index removed w with
  | nil =>
    obtain rfl : w = mid := congrArg Prod.snd h
    exact ⟨prefix_rfl, by simp⟩
  | cons name rest ih =>
    obtain ⟨first, next, hfirst, h⟩ := Saga.bind_eq_ok.mp h
    obtain ⟨others, last, hothers, h⟩ := Saga.bind_eq_ok.mp h
    obtain rfl : last = mid := congrArg Prod.snd h
    obtain ⟨hstart, hrest⟩ := ih hothers
    have hstep : w.db.labels <+: next.db.labels ∧ (name ∈ existing ∨
        ∃ id collectionType, declaredType archive name = .ok collectionType ∧
          (id, name, collectionType) ∈ next.db.labels) := by
      unfold restoreDefinition at hfirst
      split_ifs at hfirst with hexisting
      · obtain ⟨dropped, -, hfirst⟩ := lift_bind_eq_ok.mp hfirst
        obtain ⟨u, after, happly, hfirst⟩ := Saga.bind_eq_ok.mp hfirst
        obtain rfl : after = next := congrArg Prod.snd hfirst
        have hlabels := applyDefinition_labels env (ids index) archive name true w
        rw [happly] at hlabels
        exact ⟨hlabels ▸ prefix_rfl, .inl hexisting⟩
      · obtain ⟨u, after, hcreate, hfirst⟩ := Saga.bind_eq_ok.mp hfirst
        obtain rfl : after = next := congrArg Prod.snd hfirst
        obtain ⟨collectionType, htype, hlabels⟩ := createCollection_labels hcreate
        exact ⟨hlabels ▸ prefix_append _ _, .inr
          ⟨(ids index).collection, collectionType, htype, by
            rw [hlabels]
            exact mem_append_right _ mem_cons_self⟩⟩
    refine ⟨hstep.1.trans hstart, forall_mem_cons.mpr ⟨?_, hrest⟩⟩
    refine hstep.2.imp_right fun ⟨id, collectionType, htype, hmem⟩ => ?_
    exact ⟨id, collectionType, htype, hstart.subset hmem⟩

/-- The steps of a preparation that succeeds. -/
theorem prepareRestore_eq_ok (h : prepareRestore env ids archive w = (.ok (removed, data), mid)) :
    ∃ cleared, dropCollections env (undeclared (list w.db) (restoredNames archive)) w =
        (.ok (), cleared) ∧
      restoreDefinitions env ids archive (list w.db) ((list cleared.db).map Collection.name) 0
        (restoredNames archive) cleared = (.ok removed, mid) ∧
      dataNames archive (restoredNames archive) = .ok data := by
  obtain ⟨current, _, hread, h⟩ := Saga.bind_eq_ok.mp h
  obtain ⟨hcurrent, rfl⟩ := Prod.mk.inj hread
  obtain rfl := Except.ok.inj hcurrent
  obtain ⟨u, cleared, hdrop, h⟩ := Saga.bind_eq_ok.mp h
  obtain ⟨existing, _, hread, h⟩ := Saga.bind_eq_ok.mp h
  obtain ⟨hexisting, rfl⟩ := Prod.mk.inj hread
  obtain rfl := Except.ok.inj hexisting
  obtain ⟨_, after, hdefinitions, h⟩ := Saga.bind_eq_ok.mp h
  obtain ⟨_, hdata, h⟩ := lift_bind_eq_ok.mp h
  obtain ⟨hsame, rfl⟩ := Prod.mk.inj h
  obtain ⟨rfl, rfl⟩ := Prod.mk.inj (Except.ok.inj hsame)
  exact ⟨cleared, hdrop, hdefinitions, hdata⟩

/-- A preparation sends nothing about rows. -/
theorem prepareRestore_sent (env : Environment) (ids : ℕ → Ids) (archive : Archive) (w : World) :
    (prepareRestore env ids archive w).2.sent = w.sent := by
  have hdrop : Preserves (fun v => v.sent = w.sent)
      (dropCollections env (undeclared (list w.db) (restoredNames archive))) :=
    dropCollections_preserves fun _ _ _ hv => hv
  rcases prepareRestore_snd env ids archive w with ⟨-, -, hsnd⟩ | ⟨-, hsnd⟩
  · rw [hsnd]
    exact hdrop w rfl
  · rw [hsnd]
    have hdefinitions : Preserves (fun v => v.sent = w.sent)
        (restoreDefinitions env ids archive (list w.db)
          ((list (dropCollections env (undeclared (list w.db) (restoredNames archive)) w).2.db).map
            Collection.name) 0 (restoredNames archive)) :=
      restoreDefinitions_preserves (fun _ _ _ _ _ _ hv => hv) fun _ _ _ _ _ _ hv => hv
    exact hdefinitions _ (hdrop w rfl)

/-- **What a restored collection is stored as**: what it was, or what the snapshot declares. -/
theorem tableCollection_iff (hapart : Apart (fun _ => true) w.db)
    (hprepare : prepareRestore env ids archive w = (.ok (removed, data), mid)) {name : String}
    (hname : name ∈ data) :
    TableCollection mid.db name ↔ ∀ c ∈ w.db.collections, c.collectionType = .view → c.name ≠ name := by
  obtain ⟨cleared, hdrop, hdefinitions, hdata⟩ := prepareRestore_eq_ok hprepare
  obtain ⟨hrestored, hholds⟩ := mem_filter.mp (dataNames_eq_ok hdata ▸ hname)
  have hcleared : cleared.db.labels = w.db.labels.filter fun l =>
      l.2.1 ∉ undeclared (list w.db) (restoredNames archive) := by
    have hlabels := labels_of_dropCollections
      (not_fails_of_eq_ok (congrArg Prod.fst hdrop)) fun c hc name hname => by
        obtain ⟨⟨d, hd, rfl⟩, -⟩ := exists_of_undeclared hname
        exact hapart c hc rfl d hd
    rwa [hdrop] at hlabels
  obtain ⟨hstart, hall⟩ := restoreDefinitions_labels hdefinitions
  constructor
  · rintro ⟨d, hd, hdname, htable⟩ c hc hview rfl
    -- A stored view of this name is not dropped, and no definition changes its type.
    have hkept : (c.id, c.name, c.collectionType) ∈ cleared.db.labels := by
      rw [hcleared]
      refine mem_filter.mpr ⟨mem_map_of_mem hc, decide_eq_true fun hdoomed => ?_⟩
      exact (exists_of_undeclared hdoomed).2.2 hrestored
    obtain ⟨e, he, hlabel⟩ := mem_map.mp (hstart.subset hkept)
    simp only [Prod.mk.injEq] at hlabel
    have hsame : e = d :=
      inj_on_of_nodup_map mid.db.keyed.names he hd (hlabel.2.1.trans hdname.symm)
    exact htable (hsame ▸ hlabel.2.2.trans hview)
  · intro hviews
    have htable : ∀ {id : String} {collectionType : CollectionType},
        (id, name, collectionType) ∈ mid.db.labels → collectionType ≠ .view →
        TableCollection mid.db name := by
      intro id collectionType hmem hview
      obtain ⟨e, he, hlabel⟩ := mem_map.mp hmem
      simp only [Prod.mk.injEq] at hlabel
      exact ⟨e, he, hlabel.2.1, hlabel.2.2 ▸ hview⟩
    rcases hall name hrestored with hexisting | ⟨id, collectionType, htype, hmem⟩
    · obtain ⟨c, hc, rfl⟩ := mem_names_list.mp hexisting
      have hlabel : (c.id, c.name, c.collectionType) ∈ cleared.db.labels := mem_map_of_mem hc
      obtain ⟨d, hd, hsame⟩ := mem_map.mp (mem_filter.mp (hcleared ▸ hlabel)).1
      simp only [Prod.mk.injEq] at hsame
      exact htable (hstart.subset hlabel) fun hview =>
        hviews d hd (hsame.2.2.trans hview) hsame.2.1
    · refine htable hmem ?_
      rintro rfl
      rw [holdsRows, htype] at hholds
      cases hholds

/-- The transaction of a restore leaves the server's own collections alone. -/
theorem restoreWork_kept (hdata : ∀ name ∈ data, name ∈ restoredNames archive) :
    World.Kept isSystemCollection w (restoreWork env archive removed data w).2 := by
  have huser : ∀ name ∈ restoredNames archive, isSystemCollection name = false := by
    intro name hname
    simpa using (mem_filter.mp hname).2
  have hsendAll : ∀ (statement : String → RowStatement) (names : List String),
      (∀ name, (statement name).table = name) → (∀ name ∈ names, name ∈ restoredNames archive) →
      Preserves (World.Kept isSystemCollection w) (sendAll env statement names) := by
    intro statement names htable hnames
    induction names with
    | nil => exact .pure _
    | cons name rest ih =>
      obtain ⟨hname, hrest⟩ := forall_mem_cons.mp hnames
      refine .bind (fun v hv => hv.trans (.send ?_)) fun _ => ih hrest
      rw [htable]
      exact huser name hname
  have hbatch : ∀ names : List String, (∀ name ∈ names, name ∈ restoredNames archive) →
      Preserves (World.Kept isSystemCollection w) (importBatch env archive removed names) := by
    intro names hnames
    induction names with
    | nil => exact .pure _
    | cons name rest ih =>
      obtain ⟨hname, hrest⟩ := forall_mem_cons.mp hnames
      exact (applyRecords_preserves fun _ _ _ v hv => hv.trans (.send (huser name hname))).bind
        fun _ => (ih hrest).bind fun _ => .pure _
  have hpreserves : Preserves (World.Kept isSystemCollection w)
      (restoreWork env archive removed data) :=
    .bind ((hsendAll _ _ (fun _ => rfl) hdata).bind fun _ =>
      (hsendAll _ _ (fun _ => rfl) hdata).bind fun _ => hbatch data hdata) fun _ =>
      (hsendAll _ _ (fun _ => rfl) fun _ h => h).bind fun _ => .pure _
  exact hpreserves w (.refl _ w)

end Prepared

/-! ### Exactly when it touches only what it may -/

section Touches

variable {env} {ids : ℕ → Ids} {archive : Archive} {payload : Json} {w mid : World}
  {removed : List (String × List String)} {data : List String}

theorem restoreSnapshot_of_error {e : Error} (harchive : archiveFromPayload payload = .error e) :
    restoreSnapshot env ids payload w = (.error e, w) := by
  have hlift : (lift (archiveFromPayload payload) : Saga World Error Archive) w =
      (.error e, w) := by rw [lift_apply, harchive]
  exact bind_of_error hlift _

/-- The world a restore leaves: the one its preparation leaves, or its transaction. -/
theorem restoreSnapshot_snd (env : Environment) (ids : ℕ → Ids) (w : World)
    (harchive : archiveFromPayload payload = .ok archive) :
    (Fails (prepareRestore env ids archive) w ∧
      (restoreSnapshot env ids payload w).2 = (prepareRestore env ids archive w).2) ∨
    ∃ removed data mid, prepareRestore env ids archive w = (.ok (removed, data), mid) ∧
      (restoreSnapshot env ids payload w).2 =
        (atomically env (restoreWork env archive removed data) mid).2 := by
  let rest (current : List Collection) (prepared : List (String × List String) × List String) :
      Saga World Error ImportReport := do
    let imported ← atomically env (restoreWork env archive prepared.1 prepared.2)
    pure ⟨imported, [], [], undeclared current (restoredNames archive)⟩
  have hrestore : restoreSnapshot env ids payload w =
      (prepareRestore env ids archive >>= rest (list w.db)) w := by
    have hlift : (lift (archiveFromPayload payload) : Saga World Error Archive) w =
        (.ok archive, w) := by rw [lift_apply, harchive]
    rw [restoreSnapshot, bind_of_ok hlift]
    rfl
  by_cases hfails : Fails (prepareRestore env ids archive) w
  · left
    rw [hrestore]
    exact ⟨hfails, (bind_snd_of_fails hfails).1⟩
  · right
    obtain ⟨⟨removed, data⟩, hprepared, hrest⟩ :=
      bind_snd_of_not_fails hfails (f := rest (list w.db))
    refine ⟨removed, data, _, Prod.ext hprepared rfl, ?_⟩
    rw [hrestore, hrest]
    exact Quiet.snd_bind (fun _ _ => rfl) _

/-- **What the transaction of a restore sends, once the restore is prepared.** -/
theorem sentBy_of_prepared (harchive : archiveFromPayload payload = .ok archive)
    (hprepare : prepareRestore env ids archive w = (.ok (removed, data), mid)) :
    (restoreSnapshot env ids payload w).2.db = mid.db ∧
      (∀ s ∈ sentBy env ids payload w, (∀ name, s ≠ .enableTriggers name) →
        s.table ∈ reached mid.db data) ∧
      (∀ name, .disableTriggers name ∈ sentBy env ids payload w ↔ name ∈ reached mid.db data) ∧
      ∀ name, .enableTriggers name ∈ sentBy env ids payload w ↔
        ¬ Fails (rewriteRows env archive removed data) mid ∧
          name ∈ reached mid.db (restoredNames archive) := by
  have hsnd : (restoreSnapshot env ids payload w).2 =
      (atomically env (restoreWork env archive removed data) mid).2 := by
    rcases restoreSnapshot_snd env ids w harchive with
      ⟨hfails, -⟩ | ⟨removed', data', mid', hprepare', hsnd⟩
    · obtain ⟨e, he⟩ := hfails
      rw [hprepare] at he
      cases he
    · rw [hprepare] at hprepare'
      obtain ⟨hsame, rfl⟩ := Prod.mk.inj hprepare'
      obtain ⟨rfl, rfl⟩ := Prod.mk.inj (Except.ok.inj hsame)
      exact hsnd
  obtain ⟨extra, hdb, hsent, htables, hdisabled, henabled⟩ :=
    restoreWork_sends env archive removed data mid
  obtain ⟨hdb', hsent'⟩ := atomically_db env hdb
  have hbefore : mid.sent = w.sent := by
    have h := prepareRestore_sent env ids archive w
    rwa [hprepare] at h
  have hextra : sentBy env ids payload w = extra := by
    rw [sentBy, hsnd, hsent', hsent, hbefore, drop_left]
  rw [hsnd, hextra]
  exact ⟨hdb', htables, hdisabled, henabled⟩

/-- The transaction of a restore leaves the collections as they were prepared. -/
theorem restoreSnapshot_db (harchive : archiveFromPayload payload = .ok archive) :
    (restoreSnapshot env ids payload w).2.db = (prepareRestore env ids archive w).2.db := by
  rcases restoreSnapshot_snd env ids w harchive with ⟨-, hsnd⟩ | ⟨removed, data, mid, hprepare, -⟩
  · rw [hsnd]
  · rw [(sentBy_of_prepared harchive hprepare).1, hprepare]

/-- The names a restore gets to are of user collections. -/
theorem isSystemCollection_of_data (hprepare : prepareRestore env ids archive w =
    (.ok (removed, data), mid)) {name : String} (hname : name ∈ data) :
    name ∈ restoredNames archive ∧ isSystemCollection name = false := by
  obtain ⟨-, -, -, hdata⟩ := prepareRestore_eq_ok hprepare
  have hrestored := (mem_filter.mp (dataNames_eq_ok hdata ▸ hname)).1
  exact ⟨hrestored, by simpa using (mem_filter.mp hrestored).2⟩

/-- **The server's own collections are left alone** by a restore. -/
theorem restoreSnapshot_kept (hapart : Apart isSystemCollection w.db)
    (hdependants : ∀ name, isSystemCollection name = false →
      ∀ d ∈ env.server.dependants name, isSystemCollection d = false) :
    World.Kept isSystemCollection w (restoreSnapshot env ids payload w).2 := by
  cases harchive : archiveFromPayload payload with
  | error e =>
    rw [restoreSnapshot_of_error harchive]
    exact .refl _ w
  | ok archive =>
    have hprepared := prepareRestore_kept ids archive hapart hdependants
    rcases restoreSnapshot_snd env ids w harchive with
      ⟨-, hsnd⟩ | ⟨removed, data, mid, hprepare, hsnd⟩
    · rwa [hsnd]
    · rw [hprepare] at hprepared
      rw [hsnd]
      exact hprepared.trans (.atomically (restoreWork_kept fun name hname =>
        (isSystemCollection_of_data hprepare hname).1))

/-- **A restore touches only what it may exactly where the snapshot holds no view** and names no
stored one, or the restore fails before that matters. -/
theorem touchesOnly_iff (hapart : Apart (fun _ => true) w.db)
    (hdependants : ∀ name, isSystemCollection name = false →
      ∀ d ∈ env.server.dependants name, isSystemCollection d = false) :
    TouchesOnly env ids payload w ↔ Restorable env ids payload w := by
  constructor
  · intro h archive removed data mid harchive hprepare
    obtain ⟨hdb, -, hdisabled, henabled⟩ := sentBy_of_prepared harchive hprepare
    have hdata : data = (restoredNames archive).filter (holdsRows archive) :=
      dataNames_eq_ok (prepareRestore_eq_ok hprepare).choose_spec.2.2
    refine ⟨fun c hc hview hreached => ?_, or_iff_not_imp_left.mpr fun hne => ?_⟩
    · have htable := (h.statements _ ((hdisabled c.name).mpr hreached)).2
      rw [hdb] at htable
      exact (tableCollection_iff hapart hprepare (mem_of_reached hreached)).mp htable c hc hview rfl
    · by_contra hfails
      obtain ⟨-, -, -, -, htables⟩ := rewriteRows_sends env archive removed data mid
      -- A view is left out of the first loop, and the last one gets to it.
      have hview : ∃ name ∈ restoredNames archive, holdsRows archive name = false := by
        by_contra hall
        push Not at hall
        refine hne (hdata.trans (filter_eq_self.mpr fun name hname => ?_))
        simpa using hall name hname
      obtain ⟨name, hname, hholds⟩ := exists_reached (fun name hname hholds =>
        htables hfails name (hdata ▸ mem_filter.mpr ⟨hname, hholds⟩)) hview
      have hsent := (henabled name).mpr ⟨hfails, hname⟩
      have hreached := (hdisabled name).mp ((h.triggers ⟨name, hsent⟩ name).mp hsent)
      have hfalse := (mem_filter.mp (hdata ▸ mem_of_reached hreached)).2
      rw [hholds] at hfalse
      cases hfalse
  · intro h
    have hkept : World.Kept isSystemCollection w (restoreSnapshot env ids payload w).2 :=
      restoreSnapshot_kept (fun c hc _ d hd => hapart c hc rfl d hd) hdependants
    cases harchive : archiveFromPayload payload with
    | error e =>
      have hlift : restoreSnapshot env ids payload w = (.error e, w) :=
        restoreSnapshot_of_error harchive
      have hsent : sentBy env ids payload w = [] := by
        rw [sentBy, hlift, drop_length]
      exact ⟨by simp [hsent], by simp [hsent], hkept, fun archive h => by cases harchive.symm.trans h⟩
    | ok archive =>
      have hdropped : ∀ archive', archiveFromPayload payload = .ok archive' →
          ¬ Fails (dropCollections env (undeclared (list w.db) (restoredNames archive'))) w →
          ∀ c ∈ (restoreSnapshot env ids payload w).2.db.collections,
            isSystemCollection c.name = false → c.name ∈ restoredNames archive' := by
        intro archive' harchive' hdrop c hc huser
        rw [restoreSnapshot_db harchive'] at hc
        exact prepareRestore_dropped ids hapart hdrop _ (mem_map_of_mem hc) huser
      rcases restoreSnapshot_snd env ids w harchive with
        ⟨-, hsnd⟩ | ⟨removed, data, mid, hprepare, -⟩
      · have hsent : sentBy env ids payload w = [] := by
          rw [sentBy, hsnd, prepareRestore_sent, drop_length]
        exact ⟨by simp [hsent], by simp [hsent], hkept, hdropped⟩
      · obtain ⟨hdb, htables, hdisabled, henabled⟩ := sentBy_of_prepared harchive hprepare
        obtain ⟨hviews, hall⟩ := h archive removed data mid harchive hprepare
        have hreached : ∀ name ∈ reached mid.db data, isSystemCollection name = false ∧
            TableCollection (restoreSnapshot env ids payload w).2.db name := by
          intro name hname
          have hmem := mem_of_reached hname
          rw [hdb]
          refine ⟨(isSystemCollection_of_data hprepare hmem).2,
            (tableCollection_iff hapart hprepare hmem).mpr fun c hc hview => ?_⟩
          rintro rfl
          exact hviews c hc hview hname
        -- Where the triggers are enabled, it is in a loop over the same names.
        have hsame : ∀ {name : String}, .enableTriggers name ∈ sentBy env ids payload w →
            data = restoredNames archive := fun hmem =>
          hall.resolve_right ((henabled _).mp hmem).1
        refine ⟨fun statement hmem => ?_, ?_, hkept, hdropped⟩
        · by_cases henable : ∃ name, statement = .enableTriggers name
          · obtain ⟨name, rfl⟩ := henable
            have hmem' := ((henabled name).mp hmem).2
            exact hreached name (hsame hmem ▸ hmem')
          · exact hreached _ (htables statement hmem (not_exists.mp henable))
        · rintro ⟨first, hfirst⟩ name
          rw [hdisabled, henabled, and_iff_right ((henabled first).mp hfirst).1, hsame hfirst]

end Touches

/-! ### A view in the snapshot -/

/-- A database that shows the column `id` of every view. -/
def showingIds : Environment :=
  { Environment.lenient with
    server := { Server.lenient with describe := fun _ _ => some [⟨"id", .text, .object []⟩] } }

/-- A table of one record. -/
def postsEntry : Json :=
  .object [("name", .string "posts"), ("records", .array [.object [("id", .string "p1")]]),
    ("type", .string "base")]

/-- A view over it. -/
def recentEntry : Json :=
  .object [("name", .string "recent"), ("type", .string "view"),
    ("viewQuery", .string "select id from posts")]

/-- A snapshot of this table only. -/
theorem touchesOnly_postsEntry : TouchesOnly .lenient importIds (.array [postsEntry]) .empty := by
  refine (touchesOnly_iff (fun _ h => by cases h) fun _ _ _ h => by cases h).mpr ?_
  intro archive removed data mid harchive hprepare
  obtain ⟨-, -, -, hdata⟩ := prepareRestore_eq_ok hprepare
  have hsame : (archiveFromPayload (.array [postsEntry])).map (fun archive =>
      (restoredNames archive).filter (holdsRows archive) == restoredNames archive) =
        .ok true := by rfl
  rw [harchive] at hsame
  rw [dataNames_eq_ok hdata]
  exact ⟨fun _ h => (not_mem_nil h).elim, .inl (beq_iff_eq.mp (Except.ok.inj hsame))⟩

/-- The view's triggers are enabled, which were never disabled, and the restore fails. -/
theorem not_touchesOnly_recentEntry :
    ¬ TouchesOnly showingIds importIds (.array [postsEntry, recentEntry]) .empty := by
  intro h
  have hsent : sentBy showingIds importIds (.array [postsEntry, recentEntry]) .empty =
      [.disableTriggers "posts", .deleteFrom "posts",
        .upsert "posts" ["id"] [("id", .string "p1")], .enableTriggers "posts",
        .enableTriggers "recent"] := by decide
  have hdisabled := (h.triggers ⟨"posts", by simp [hsent]⟩ "recent").mp (by simp [hsent])
  simp [hsent] at hdisabled

end LazyPock.Backup
