import LazyPock.Files.Store
import LazyPock.Machine.Transactions
import LazyPock.Schema.Ddl

/-!
# Deleting a collection with its files

The route `DELETE /api/collections/{name}` of `crates/api/src/collections.rs`, with `delete` of
`crates/db/src/collections.rs` and `delete_for_collection` of `crates/files/src/store.rs`. The rows of
`_files` go in a statement of their own, which is committed before the collection is dropped, whatever
becomes of that, whether its data is to be kept or not, and by the text of the URL, which may be the
id of the collection.

What the database answers to each statement is an input.

## Main definitions

* `Files.deleteForCollection`, `Files.deleteCollection`.
* `Files.Together`: the collection and its files go together.

## Main results

* `Files.dropCollection_eq_ok`: when the collection is dropped.
* `Files.together_iff`, `Files.delete_loses_files`.
-/

namespace LazyPock.Files

open Machine Ddl Text Saga

/-! ### State -/

/-- A row of `_files` with what the trigger `_files_deleted` copies. -/
structure StoredFile extends FileRow where
  storagePath : String
  variants : List (String × Json)
deriving DecidableEq

/-- An entry of `_file_deletions`. -/
structure FileDeletion where
  fileId : String
  backend : String
  storagePath : String
  variants : List (String × Json)
  attempts : ℕ
deriving DecidableEq

/-- `_files_enqueue_deletion` -/
def enqueueDeletion (row : StoredFile) : FileDeletion where
  fileId := row.id
  backend := row.storageBackend
  storagePath := row.storagePath
  variants := row.variants
  attempts := 0

/-- What a request to delete a collection reads and writes. -/
structure Library where
  /-- The rows of `_collections`, in the order of their names. -/
  collections : List Collection
  /-- The names of tables and views. -/
  relations : List String
  files : List StoredFile
  deletions : List FileDeletion
  /-- The deletions of `_audit`: the target, and whether the data was dropped. -/
  audits : List (String × Bool)

/-- The statements of the request, in their order. -/
inductive Query where
  | connect
  | listCollections
  | deleteFiles
  | getCollection
  | begin
  | dropRelation
  | deleteRow
  | notify
  | commit
  | audit
deriving DecidableEq

/-- What the database answers: the error of each statement it refuses. -/
abbrev Outcomes : Type := Query → Option Error

/-- The answer to a statement. -/
@[grind =]
def Outcomes.answer (outcomes : Outcomes) (query : Query) : Result Unit :=
  match outcomes query with
  | some e => .error e
  | none => .ok ()

/-! ### The request -/

/-- `require_superuser` -/
def requireSuperuser (superuser : Bool) : Result Unit :=
  failIf (superuser = false) (.forbidden "this action requires a superuser token")

/-- The collection of this id or name. -/
def Library.find (library : Library) (nameOrId : String) : Option Collection :=
  library.collections.find? fun c => c.id = nameOrId ∨ c.name = nameOrId

/-- The refusal of a collection that is not there. -/
def noCollection (name : String) : Error := .notFound ("no collection named " ++ debug name)

variable (outcomes : Outcomes)

/-- Delete every file a dropped collection owned. The trigger queues the objects. -/
def deleteForCollection (collection : String) : Tx Library Error Unit := do
  Tx.lift (outcomes.answer .deleteFiles)
  Tx.modify fun library => { library with
    files := library.files.filter fun row => row.collectionName ≠ collection
    deletions := library.deletions ++
      (library.files.filter fun row => row.collectionName = collection).map enqueueDeletion }

/-- Drop the table or the view of a collection. -/
def dropRelation (collection : Collection) : Tx Library Error Unit := do
  let _ ← Tx.lift (if collection.collectionType = .view then dropViewStatement collection.name
    else dropTableStatement collection.name)
  Tx.lift ((outcomes.answer .dropRelation).mapError fun e => .internal ("failed to drop the " ++
    (if collection.collectionType = .view then "view" else "table") ++ " for " ++
    debug collection.name ++ ": " ++ e.message))
  Tx.modify fun library => { library with
    relations := library.relations.filter (· ≠ collection.name) }

/-- `collections::delete` -/
def dropCollection (nameOrId : String) (dropData : Bool) : Saga Library Error Collection := do
  let collection ← read fun library => do
    outcomes.answer .getCollection
    okOr (noCollection nameOrId) (library.find nameOrId)
  commit do
    Tx.lift (outcomes.answer .begin)
    Tx.onlyIf dropData (dropRelation outcomes collection)
    Tx.lift (outcomes.answer .deleteRow)
    Tx.modify fun library => { library with
      collections := library.collections.filter fun c => c.id ≠ collection.id }
    Tx.lift (outcomes.answer .notify)
    Tx.lift (outcomes.answer .commit)
    pure collection

/-- `DELETE /api/collections/{name}`; the data is dropped unless the query says otherwise. -/
def deleteCollection (superuser : Bool) (name : String) (dropData : Option Bool) :
    Saga Library Error Collection := do
  lift (requireSuperuser superuser)
  lift (outcomes.answer .connect)
  let _ ← read fun library => do
    outcomes.answer .listCollections
    okOr (noCollection name) (library.find name)
  commit (deleteForCollection outcomes name)
  let collection ← dropCollection outcomes name (dropData.getD true)
  commit do
    Tx.lift (outcomes.answer .audit)
    Tx.modify fun library => { library with
      audits := library.audits ++ [(name, dropData.getD true)] }
  pure collection

/-! ### The law -/

/-- The collection and its files go together: a request that fails, or is to keep the data, leaves the
files and the queue of deletions alone, and one that drops the data leaves no file of the
collection. -/
structure Together (superuser : Bool) (name : String) (dropData : Option Bool) (library : Library) :
    Prop where
  kept : (isOk (deleteCollection outcomes superuser name dropData library).1 = false ∨
      dropData = some false) →
    (deleteCollection outcomes superuser name dropData library).2.files = library.files ∧
      (deleteCollection outcomes superuser name dropData library).2.deletions = library.deletions
  dropped : ∀ collection, (deleteCollection outcomes superuser name dropData library).1 =
      .ok collection → dropData ≠ some false →
    ∀ row ∈ (deleteCollection outcomes superuser name dropData library).2.files,
      row.collectionName ≠ collection.name

/-- Whether the request gets to the files. -/
def GetsToFiles (superuser : Bool) : Prop :=
  superuser = true ∧ outcomes .connect = none ∧ outcomes .listCollections = none ∧
    outcomes .deleteFiles = none

/-- Whether nothing is refused behind the files. -/
def Completes (collection : Collection) (dropData : Bool) : Prop :=
  (∀ query ∈ [Query.getCollection, .begin, .deleteRow, .notify, .commit, .audit],
    outcomes query = none) ∧
  (dropData = true → outcomes .dropRelation = none ∧
    validateIdentifier "collection name" collection.name = .ok ())

/-! ### How the request runs -/

section Runs

variable {outcomes} {collection dropped : Collection} {library after : Library} {superuser : Bool}
  {name : String}

/-- The library without the files of a name. -/
def Library.release (library : Library) (name : String) : Library :=
  { library with
    files := library.files.filter fun row => row.collectionName ≠ name
    deletions := library.deletions ++
      (library.files.filter fun row => row.collectionName = name).map enqueueDeletion }

theorem answer_eq_ok {query : Query} : outcomes.answer query = .ok () ↔ outcomes query = none := by
  unfold Outcomes.answer
  cases outcomes query <;> simp

theorem answer_bind_eq_ok {α : Type} {query : Query} {f : Unit → Tx Library Error α} {a : α} :
    (Tx.lift (outcomes.answer query) >>= f : Tx Library Error α) library = .ok (a, after) ↔
      outcomes query = none ∧ f () library = .ok (a, after) := by
  rw [Tx.lift_bind_eq_ok]
  constructor
  · rintro ⟨_, hanswer, hrest⟩
    exact ⟨answer_eq_ok.mp hanswer, hrest⟩
  · rintro ⟨hnone, hrest⟩
    exact ⟨(), answer_eq_ok.mpr hnone, hrest⟩

/-- A release changes nothing exactly when no file has the name. -/
theorem release_eq_iff : (library.release name).files = library.files ∧
    (library.release name).deletions = library.deletions ↔
      ∀ row ∈ library.files, row.collectionName ≠ name := by
  constructor
  · rintro ⟨hfiles, -⟩ row hrow
    exact of_decide_eq_true (List.filter_eq_self.mp hfiles row hrow)
  · intro h
    have hnone : library.files.filter (fun row => row.collectionName = name) = [] :=
      List.filter_eq_nil_iff.mpr fun row hrow => by simpa using h row hrow
    refine ⟨List.filter_eq_self.mpr fun row hrow => decide_eq_true (h row hrow), ?_⟩
    rw [Library.release, hnone, List.map_nil, List.append_nil]

theorem dropRelation_eq_ok {u : Unit} : dropRelation outcomes collection library = .ok (u, after) ↔
    (outcomes .dropRelation = none ∧
      validateIdentifier "collection name" collection.name = .ok ()) ∧
    { library with relations := library.relations.filter (· ≠ collection.name) } = after := by
  have hstatement : (∃ statement, (if collection.collectionType = .view then
        dropViewStatement collection.name else dropTableStatement collection.name) =
          .ok statement) ↔ validateIdentifier "collection name" collection.name = .ok () := by
    unfold dropViewStatement dropTableStatement
    cases validateIdentifier "collection name" collection.name <;>
      split_ifs <;> simp [bind, Except.bind]
  have hanswer {f : Error → Error} :
      (∃ v : Unit, (outcomes.answer .dropRelation).mapError f = .ok v) ↔
        outcomes .dropRelation = none := by
    unfold Outcomes.answer
    cases outcomes .dropRelation <;> simp [Except.mapError]
  unfold dropRelation
  rw [Tx.lift_bind_eq_ok]
  simp only [Tx.lift_bind_eq_ok, Tx.modify_apply, Except.ok.injEq, Prod.mk.injEq, true_and,
    exists_and_right, hstatement, hanswer]
  rw [← and_assoc, and_comm (a := outcomes .dropRelation = none)]

theorem onlyIf_dropRelation_eq_ok {dropData : Bool} {u : Unit} :
    Tx.onlyIf dropData (dropRelation outcomes collection) library = .ok (u, after) ↔
      (dropData = true → outcomes .dropRelation = none ∧
        validateIdentifier "collection name" collection.name = .ok ()) ∧
      { library with relations := if dropData then library.relations.filter (· ≠ collection.name)
          else library.relations } = after := by
  cases dropData with
  | false => simp [Tx.onlyIf]
  | true => simpa [Tx.onlyIf] using dropRelation_eq_ok

/-- **A collection is dropped** where it is found and nothing is refused. -/
theorem dropCollection_eq_ok {dropData : Bool} :
    dropCollection outcomes name dropData library = (.ok dropped, after) ↔
      library.find name = some dropped ∧
      (∀ query ∈ [Query.getCollection, .begin, .deleteRow, .notify, .commit],
        outcomes query = none) ∧
      (dropData = true → outcomes .dropRelation = none ∧
        validateIdentifier "collection name" dropped.name = .ok ()) ∧
      { library with
        relations := if dropData then library.relations.filter (· ≠ dropped.name)
          else library.relations
        collections := library.collections.filter fun c => c.id ≠ dropped.id } = after := by
  unfold dropCollection
  rw [Saga.bind_eq_ok]
  simp only [read_apply, commit_eq_ok, answer_bind_eq_ok, Tx.bind_eq_ok (m := Tx.onlyIf _ _),
    onlyIf_dropRelation_eq_ok, Tx.modify_bind, Tx.pure_apply, Except.ok.injEq, Prod.mk.injEq,
    bind_eq_ok, okOr_eq_ok, List.forall_mem_cons]
  constructor
  · rintro ⟨found, _, ⟨⟨_, hget, hfind⟩, rfl⟩, hbegin, _, _, ⟨hdrop, rfl⟩, hrow, hnotify, hcommit,
      rfl, rfl⟩
    exact ⟨hfind, ⟨answer_eq_ok.mp hget, hbegin, hrow, hnotify, hcommit, by simp⟩, hdrop, rfl⟩
  · rintro ⟨hfind, ⟨hget, hbegin, hrow, hnotify, hcommit, -⟩, hdrop, rfl⟩
    exact ⟨dropped, library, ⟨⟨(), answer_eq_ok.mpr hget, hfind⟩, rfl⟩, hbegin, (), _, ⟨hdrop, rfl⟩,
      hrow, hnotify, hcommit, rfl, rfl⟩

/-- What is refused on the way leaves everything as it was. -/
theorem dropCollection_error {dropData : Bool} {e : Error}
    (h : dropCollection outcomes name dropData library = (.error e, after)) : after = library := by
  unfold dropCollection at h
  rcases bind_eq_error.mp h with hread | ⟨found, mid, hread, hcommit⟩
  · exact (Prod.mk.inj hread).2.symm
  · obtain ⟨-, rfl⟩ := Prod.mk.inj hread
    exact (commit_eq_error.mp hcommit).2

theorem lift_answer {query : Query} (h : outcomes query = none) :
    (lift (outcomes.answer query) : Saga Library Error Unit) library = (.ok (), library) := by
  rw [lift_apply, answer_eq_ok.mpr h]

theorem lift_answer_error {query : Query} {e : Error} (h : outcomes query = some e) :
    (lift (outcomes.answer query) : Saga Library Error Unit) library =
      (.error e, library) := by
  rw [lift_apply, Outcomes.answer, h]

/-- A request that does not get to the files changes nothing. -/
theorem deleteCollection_of_refused (dropData : Option Bool)
    (h : ¬ (GetsToFiles outcomes superuser ∧ ∃ c, library.find name = some c)) :
    ∃ e, deleteCollection outcomes superuser name dropData library = (.error e, library) := by
  unfold deleteCollection
  cases superuser with
  | false => exact ⟨_, bind_of_error rfl _⟩
  | true =>
    rw [bind_of_ok (show lift (requireSuperuser true) library = (.ok (), library) from rfl)]
    cases hconnect : outcomes .connect with
    | some e => exact ⟨e, bind_of_error (lift_answer_error hconnect) _⟩
    | none =>
      rw [bind_of_ok (lift_answer hconnect)]
      cases hread : (do
          outcomes.answer .listCollections
          okOr (noCollection name) (library.find name) : Result Collection) with
      | error e => exact ⟨e, bind_of_error (by rw [read_apply, hread]) _⟩
      | ok found =>
        rw [bind_of_ok (a := found) (t := library) (by rw [read_apply, hread])]
        obtain ⟨_, hlist, hfind⟩ := bind_eq_ok.mp hread
        cases hdelete : outcomes .deleteFiles with
        | none =>
          exact absurd ⟨⟨rfl, hconnect, answer_eq_ok.mp hlist, hdelete⟩, found, okOr_eq_ok.mp hfind⟩ h
        | some e =>
          refine ⟨e, bind_of_error (commit_eq_error.mpr ⟨?_, rfl⟩) _⟩
          rw [deleteForCollection, Outcomes.answer, hdelete]
          rfl

/-- **A request that gets to the files releases those of the text in its URL**, and succeeds when
nothing is refused behind them. -/
theorem deleteCollection_of_gets (dropData : Option Bool) (dropped : Collection)
    (hgets : GetsToFiles outcomes superuser) (hfind : library.find name = some collection) :
    (deleteCollection outcomes superuser name dropData library).2.files =
        (library.release name).files ∧
      (deleteCollection outcomes superuser name dropData library).2.deletions =
        (library.release name).deletions ∧
      ((deleteCollection outcomes superuser name dropData library).1 = .ok dropped ↔
        dropped = collection ∧ Completes outcomes collection (dropData.getD true)) := by
  obtain ⟨rfl, hconnect, hlist, hdelete⟩ := hgets
  have hread : (do
      outcomes.answer .listCollections
      okOr (noCollection name) (library.find name) : Result Collection) = .ok collection :=
    bind_eq_ok.mpr ⟨(), answer_eq_ok.mpr hlist, okOr_eq_ok.mpr hfind⟩
  have hrelease : commit (deleteForCollection outcomes name) library =
      (.ok (), library.release name) :=
    commit_eq_ok.mpr (answer_bind_eq_ok.mpr ⟨hdelete, rfl⟩)
  unfold deleteCollection
  rw [bind_of_ok (show lift (requireSuperuser true) library = (.ok (), library) from rfl),
    bind_of_ok (lift_answer hconnect),
    bind_of_ok (a := collection) (t := library) (by rw [read_apply, hread]),
    bind_of_ok hrelease]
  cases hdrop : dropCollection outcomes name (dropData.getD true) (library.release name) with
  | mk result after =>
    cases result with
    | error e =>
      obtain rfl := dropCollection_error hdrop
      rw [bind_of_error hdrop]
      refine ⟨rfl, rfl, iff_of_false (by simp) ?_⟩
      rintro ⟨-, hcompletes, hrelation⟩
      have hrefused := hdrop.symm.trans (dropCollection_eq_ok.mpr ⟨hfind, fun query hquery => ?_,
        hrelation, rfl⟩)
      · cases hrefused
      · exact hcompletes query (List.mem_append_left [Query.audit] hquery)
    | ok found =>
      obtain ⟨hfound, hnone, hrelation, rfl⟩ := dropCollection_eq_ok.mp hdrop
      obtain rfl : found = collection := Option.some.inj (hfound.symm.trans hfind)
      rw [bind_of_ok hdrop]
      cases haudit : outcomes .audit with
      | some e =>
        rw [bind_of_error (commit_eq_error.mpr ⟨?_, rfl⟩)]
        · refine ⟨rfl, rfl, iff_of_false (by simp) ?_⟩
          rintro ⟨-, hcompletes, -⟩
          rw [hcompletes .audit (by simp)] at haudit
          cases haudit
        · exact e
        · rw [Outcomes.answer, haudit]
          rfl
      | none =>
        rw [bind_of_ok (commit_eq_ok.mpr (answer_bind_eq_ok.mpr ⟨haudit, rfl⟩))]
        have hcompletes : Completes outcomes found (dropData.getD true) := by
          refine ⟨fun query hquery => ?_, hrelation⟩
          rcases List.mem_append.mp (show query ∈ [Query.getCollection, .begin, .deleteRow, .notify,
            .commit] ++ [.audit] from hquery) with hbefore | hlast
          · exact hnone query hbefore
          · rwa [List.mem_singleton.mp hlast]
        refine ⟨rfl, rfl, ?_⟩
        simp only [pure_apply, Except.ok.injEq]
        exact ⟨fun heq => ⟨heq.symm, hcompletes⟩, fun h => h.1.symm⟩

end Runs

/-! ### When they go together -/

/-- **The collection and its files go together exactly when** the text of the URL is the name that its
files carry and nothing is refused behind them, or there is no such file. -/
theorem together_iff (superuser : Bool) (name : String) (dropData : Option Bool)
    (library : Library) :
    Together outcomes superuser name dropData library ↔
      (GetsToFiles outcomes superuser → ∀ collection, library.find name = some collection →
        ((∃ row ∈ library.files, row.collectionName = name) →
          dropData ≠ some false ∧ Completes outcomes collection (dropData.getD true)) ∧
        (dropData ≠ some false → Completes outcomes collection (dropData.getD true) →
          name = collection.name ∨ ∀ row ∈ library.files, row.collectionName ≠ collection.name)) := by
  by_cases hreached : GetsToFiles outcomes superuser ∧ ∃ c, library.find name = some c
  swap
  · obtain ⟨e, hrefused⟩ := deleteCollection_of_refused dropData hreached
    refine iff_of_true ⟨fun _ => by rw [hrefused]; exact ⟨rfl, rfl⟩, fun c hok => ?_⟩ ?_
    · rw [hrefused] at hok
      cases hok
    · exact fun hgets collection hfind => absurd ⟨hgets, collection, hfind⟩ hreached
  obtain ⟨hgets, found, hfind⟩ := hreached
  have hrun (dropped : Collection) := deleteCollection_of_gets dropData dropped hgets hfind
  obtain ⟨hfiles, hdeletions, -⟩ := hrun found
  have hresult (dropped : Collection) := (hrun dropped).2.2
  have hok : isOk (deleteCollection outcomes superuser name dropData library).1 = true ↔
      Completes outcomes found (dropData.getD true) := by
    rw [isOk_iff]
    exact ⟨fun ⟨dropped, h⟩ => ((hresult dropped).mp h).2,
      fun hcompletes => ⟨found, (hresult found).mpr ⟨rfl, hcompletes⟩⟩⟩
  constructor
  · rintro h - collection hcollection
    obtain rfl : found = collection := Option.some.inj (hfind.symm.trans hcollection)
    refine ⟨fun ⟨row, hrow, hname⟩ => ?_, fun hdata hcompletes => ?_⟩
    · by_contra hnot
      have hkept := h.kept <| by
        rw [← Bool.not_eq_true, hok]
        exact or_iff_not_imp_right.mpr fun hdata hcompletes => hnot ⟨hdata, hcompletes⟩
      rw [hfiles, hdeletions] at hkept
      exact release_eq_iff.mp hkept row hrow hname
    · have hnone := h.dropped found ((hresult found).mpr ⟨rfl, hcompletes⟩) hdata
      rw [hfiles] at hnone
      refine or_iff_not_imp_left.mpr fun hne row hrow hname => hnone row ?_ hname
      exact List.mem_filter.mpr ⟨hrow, decide_eq_true fun heq => hne (heq.symm.trans hname)⟩
  · intro h
    obtain ⟨hall, hothers⟩ := h hgets found hfind
    refine ⟨fun hprevented => ?_, fun dropped hdropped hdata row hrow => ?_⟩
    · rw [hfiles, hdeletions]
      refine release_eq_iff.mpr fun row hrow hname => ?_
      obtain ⟨hdata, hcompletes⟩ := hall ⟨row, hrow, hname⟩
      rw [hok.mpr hcompletes] at hprevented
      exact hprevented.elim (fun hfalse => Bool.noConfusion hfalse) hdata
    · obtain ⟨rfl, hcompletes⟩ := (hresult dropped).mp hdropped
      rw [hfiles] at hrow
      obtain ⟨hstored, hother⟩ := List.mem_filter.mp hrow
      rcases hothers hdata hcompletes with rfl | hnone
      · exact of_decide_eq_true hother
      · exact hnone row hstored

/-- **A collection that is to keep its data loses its files.** -/
theorem delete_loses_files :
    ¬ ∀ (outcomes : Outcomes) (superuser : Bool) (name : String) (dropData : Option Bool)
      (library : Library), Together outcomes superuser name dropData library := by
  intro hall
  let photo : StoredFile := ⟨⟨"photo0123456789", "image/png", 10, "local", "posts", "post01234567890",
    "cover", .field, .ready, "ada", some 0, 0⟩, "posts/post01234567890/photo.png", []⟩
  let library : Library :=
    ⟨[⟨"posts0123456789", "posts", .base, .null, .null, []⟩], ["posts"], [photo], [], []⟩
  have hkept := (hall (fun _ => none) true "posts" (some false) library).kept (.inr rfl)
  revert hkept
  decide


end LazyPock.Files
