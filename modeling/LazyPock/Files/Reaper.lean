import LazyPock.Files.Store
import LazyPock.Machine.Runs

/-!
# The reaper

`crates/files/src/reaper.rs`: a pass collects the uploads from the editor or the library that were
never attached and are older than some time, and deletes their rows one by one, each in a statement
of its own. Uploads, record writes and other passes happen between any two of these.

A pass is meant to reclaim uploads that nobody uses. It looks at the row of a file only, never at
`_file_refs`, so an upload that is embedded in a record's text is reclaimed; and what it collected is
not looked at again, so an upload that a record takes over meanwhile is reclaimed too.
`Files.reclaims_unreferenced` says that nothing else is.

The other phases of a pass remove stored objects of rows that are gone already; they touch none of
the tables here.

## Main definitions

* `Files.unattachedOlderThan`: what a pass collects.
* `Files.World`, `Files.Event`, `Files.step`.
* `Files.Careful`: the steps that keep the reaper from a file in use.

## Main results

* `Files.reclaims_unreferenced`, `Files.reaper_reclaims_embedded_upload`.
* `Files.refs_of_run`: `_file_refs` says what the records embed.
-/

namespace LazyPock.Files

open Text Machine List

/-! ### The system -/

/-- A stored record, with the collection it was written under. The document that a write reads back
carries the id. -/
structure StoredRecord where
  collection : Collection
  id : String
  document : Json
  id_eq : document.get "id" = some (.string id)

/-- What identifies a record. -/
def StoredRecord.key (record : StoredRecord) : String × String := (record.collection.name, record.id)

def StoredRecord.links (record : StoredRecord) : List FoundFile :=
  fileLinksIn record.collection record.document

/-- The record names the file in a file field or embeds it in an editor field. -/
def StoredRecord.Uses (record : StoredRecord) (id : String) : Prop :=
  ∃ found ∈ record.links, found.id = id

/-- The record embeds the file. -/
def StoredRecord.Embeds (record : StoredRecord) (id : String) : Prop :=
  ∃ found ∈ record.links, found.id = id ∧ found.link = .reference

/-- The media library, the records, the clock, and what each pass of a reaper has still to delete. -/
structure World where
  store : Store
  records : List StoredRecord
  now : Int
  passes : ℕ → List FileRow

/-- A server without records or files. -/
def World.empty (now : Int) : World := ⟨⟨⟨[], nodup_nil⟩, []⟩, [], now, fun _ => []⟩

/-- A live record uses the file. -/
def World.Used (world : World) (id : String) : Prop := ∃ record ∈ world.records, record.Uses id

/-- A new upload. -/
structure NewFile where
  mimeType : String
  size : Int
  storageBackend : String
  collectionName : String
  recordId : String
  fieldName : String
  origin : Origin
  uploadedBy : String

/-- Whether an upload arrives attached to a record. -/
def NewFile.isAttached (new : NewFile) : Bool := new.collectionName ≠ "" && new.recordId ≠ ""

/-- The row `insert` stores for an upload; `id` is its `new_id`. -/
def NewFile.row (new : NewFile) (id : String) (now : Int) : FileRow where
  id := id
  mimeType := new.mimeType
  size := new.size
  storageBackend := new.storageBackend
  collectionName := new.collectionName
  recordId := new.recordId
  fieldName := new.fieldName
  origin := new.origin
  status := if new.isAttached then .ready else .pending
  uploadedBy := new.uploadedBy
  attachedAt := if new.recordId = "" then none else some now
  createdAt := now

/-- What `unattached_older_than` selects. -/
def FileRow.isUnattached (row : FileRow) (ttlSeconds now : Int) : Bool :=
  row.status = .pending && row.attachedAt = none && row.origin ≠ .field &&
    row.createdAt < now - ttlSeconds * 1000000

/-- Uploads that were never attached and are older than some time, oldest first. The rows are those
of the table, in the order in which the database finds them. -/
def unattachedOlderThan (rows : List FileRow) (ttlSeconds : Int) (limit : ℕ) (now : Int) :
    List FileRow :=
  ((rows.filter fun row => row.isUnattached ttlSeconds now).insertionSort
    fun a b => a.createdAt ≤ b.createdAt).take limit

/-- What can happen. -/
inductive Event where
  | upload (new : NewFile) (id : String)
  /-- A create or an update of a record. -/
  | save (caller : Caller) (record : StoredRecord)
  | delete (key : String × String)
  | wait (duration : ℕ)
  /-- A pass collects its candidates. -/
  | collect (pass : ℕ) (found : List FileRow) (ttlSeconds : Int) (limit : ℕ)
  /-- A pass deletes the next of them. -/
  | reclaim (pass : ℕ) (backend : String)
  /-- A pass drops the references to files that are gone. -/
  | prune
  /-- A pass fails. -/
  | abort (pass : ℕ)

/-- Set what a pass has still to delete. -/
def World.setPass (world : World) (pass : ℕ) (rows : List FileRow) : World :=
  { world with passes := fun p => if p = pass then rows else world.passes p }

/-- The file that the next deletion of a pass removes; candidates of another backend are skipped. -/
def World.reclaimed (world : World) (pass : ℕ) (backend : String) : Option FileRow :=
  match world.passes pass with
  | [] => none
  | row :: _ => if row.storageBackend ≠ backend then none else world.store.files.get row.id

/-- One step. A write that is refused is rolled back. -/
@[grind =]
def step (world : World) : Event → Option World
  | .upload new id =>
    (world.store.files.insert (new.row id world.now)).map fun files =>
      { world with store.files := files }
  | .save caller record =>
    match syncFiles world.store record.collection record.document caller world.now with
    | .error _ => some world
    | .ok store => some { world with
        store
        records := record :: world.records.filter fun other => other.key ≠ record.key }
  | .delete key =>
    match world.records.find? fun record => record.key = key with
    | none => some world
    | some record => some { world with
        store := releaseFiles world.store record.collection record.id (some record.document)
        records := world.records.filter fun other => other.key ≠ key }
  | .wait duration => some { world with now := world.now + duration }
  | .collect pass found ttlSeconds limit =>
    if found.isPerm world.store.files.rows then
      some (world.setPass pass (unattachedOlderThan found ttlSeconds limit world.now))
    else none
  | .reclaim pass backend =>
    match world.passes pass with
    | [] => none
    | row :: rest =>
      if row.storageBackend ≠ backend then some (world.setPass pass rest)
      else some { world.setPass pass rest with
        store.files := world.store.files.delete fun other => other.id = row.id }
  | .prune => some { world with
      store.refs := world.store.refs.filter fun ref => (world.store.files.get ref.fileId).isSome }
  | .abort pass => some (world.setPass pass [])

/-- The steps as a relation. -/
def Step (world : World) (event : Event) (next : World) : Prop := step world event = some next

/-! ### Careful steps -/

/-- The steps that keep the reaper from a file in use. -/
def Careful (world : World) : Event → Prop
  -- A new id is random; no record names it before the upload exists.
  | .upload _ id => ¬ world.Used id
  -- What a pass collects is embedded in no text.
  | .collect _ found ttlSeconds limit =>
    ∀ row ∈ unattachedOlderThan found ttlSeconds limit world.now, ∀ record ∈ world.records,
      ¬ record.Embeds row.id
  -- While a pass is under way, no record takes over what it collected.
  | .save _ record => ∀ pass, ∀ row ∈ world.passes pass, ¬ record.Uses row.id
  | _ => True

/-- Every file that a live record owns is attached. -/
def World.OwnedReady (world : World) : Prop :=
  ∀ record ∈ world.records, ∀ found ∈ record.links, found.link = .owner →
    world.store.files.Ready found.id

/-- No live record uses what a pass has still to delete. -/
def World.PassesUnused (world : World) : Prop :=
  ∀ pass, ∀ row ∈ world.passes pass, ¬ world.Used row.id

structure World.Sound (world : World) : Prop where
  owned : world.OwnedReady
  passes : world.PassesUnused

section Steps

variable {world next : World}

theorem mem_unattachedOlderThan {rows : List FileRow} {ttlSeconds : Int} {limit : ℕ} {now : Int}
    {row : FileRow} (h : row ∈ unattachedOlderThan rows ttlSeconds limit now) :
    row ∈ rows ∧ row.status = .pending := by
  have hmem := mem_of_mem_take h
  rw [mem_insertionSort, mem_filter] at hmem
  obtain ⟨hrow, hunattached⟩ := hmem
  simp only [FileRow.isUnattached, Bool.and_eq_true, decide_eq_true_eq] at hunattached
  exact ⟨hrow, hunattached.1.1.1⟩

theorem World.Sound.of_same (h : world.Sound) (hrecords : ∀ r ∈ next.records, r ∈ world.records)
    (hrows : ∀ row ∈ next.store.files.rows, row ∈ world.store.files.rows)
    (hpasses : ∀ pass, ∀ row ∈ next.passes pass, row ∈ world.passes pass) : next.Sound := by
  refine ⟨fun record hrecord found hfound howner row hrow hid => ?_, fun pass row hrow => ?_⟩
  · exact h.owned record (hrecords record hrecord) found hfound howner row (hrows row hrow) hid
  · rintro ⟨record, hrecord, huses⟩
    exact h.passes pass row (hpasses pass row hrow) ⟨record, hrecords record hrecord, huses⟩

theorem World.mem_setPass {pass p : ℕ} {rows : List FileRow} {row : FileRow}
    (h : row ∈ (world.setPass pass rows).passes p) :
    (p = pass ∧ row ∈ rows) ∨ row ∈ world.passes p := by
  by_cases hp : p = pass
  · simp only [World.setPass, hp, if_true] at h
    exact .inl ⟨hp, h⟩
  · simp only [World.setPass, hp, if_false] at h
    exact .inr h

theorem World.mem_setPass_tail {pass p : ℕ} {first row : FileRow} {rest : List FileRow}
    (hpass : world.passes pass = first :: rest) (h : row ∈ (world.setPass pass rest).passes p) :
    row ∈ world.passes p := by
  rcases World.mem_setPass h with ⟨rfl, hrow⟩ | hrow
  · rw [hpass]
    exact mem_cons_of_mem _ hrow
  · exact hrow

theorem mem_rows_delete {files : FileTable} {p : FileRow → Bool} {row : FileRow}
    (h : row ∈ (files.delete p).rows) : row ∈ files.rows :=
  mem_of_mem_filter h

theorem mem_rows_releaseFiles {store : Store} {collection : Collection} {recordId : String}
    {record : Option Json} {row : FileRow}
    (h : row ∈ (releaseFiles store collection recordId record).files.rows) :
    row ∈ store.files.rows := by
  unfold releaseFiles at h
  cases record with
  | none => exact mem_rows_delete h
  | some record => exact mem_rows_delete (mem_rows_delete h)

/-- **A careful step keeps what a pass has still to delete out of use.** -/
theorem World.Sound.step {event : Event} (h : world.Sound) (hcareful : Careful world event)
    (hstep : Step world event next) : next.Sound := by
  unfold Step Files.step at hstep
  cases event with
  | upload new id =>
    obtain ⟨files, hinsert, rfl⟩ := Option.map_eq_some_iff.mp hstep
    unfold FileTable.insert at hinsert
    split_ifs at hinsert with hfresh
    obtain rfl := Option.some.inj hinsert
    refine ⟨fun record hrecord found hfound howner row hrow hid => ?_, h.passes⟩
    rcases mem_cons.mp hrow with rfl | hrow
    · exact absurd ⟨record, hrecord, found, hfound, hid.symm⟩ hcareful
    · exact h.owned record hrecord found hfound howner row hrow hid
  | save caller record =>
    dsimp only at hstep
    split at hstep
    · obtain rfl := Option.some.inj hstep
      exact h
    · rename_i store hsync
      obtain rfl := Option.some.inj hstep
      obtain ⟨hattaches, hready, -⟩ := syncFiles_spec record.id_eq hsync
      refine ⟨fun other hother found hfound howner => ?_, fun pass row hrow => ?_⟩
      · rcases mem_cons.mp hother with rfl | hother
        · exact hready found hfound howner
        · exact hattaches.ready
            (h.owned other (mem_of_mem_filter hother) found hfound howner)
      · rintro ⟨other, hother, huses⟩
        rcases mem_cons.mp hother with rfl | hother
        · exact hcareful pass row hrow huses
        · exact h.passes pass row hrow ⟨other, mem_of_mem_filter hother, huses⟩
  | delete key =>
    dsimp only at hstep
    split at hstep
    · obtain rfl := Option.some.inj hstep
      exact h
    · obtain rfl := Option.some.inj hstep
      exact h.of_same (fun r hr => mem_of_mem_filter hr)
        (fun row hrow => mem_rows_releaseFiles hrow) fun pass row hrow => hrow
  | wait duration =>
    obtain rfl := Option.some.inj hstep
    exact h.of_same (fun r hr => hr) (fun row hrow => hrow) fun pass row hrow => hrow
  | collect pass found ttlSeconds limit =>
    dsimp only at hstep
    split_ifs at hstep with hperm
    obtain rfl := Option.some.inj hstep
    refine ⟨h.owned, fun p row hrow => ?_⟩
    rcases World.mem_setPass hrow with ⟨-, hrow⟩ | hrow
    · -- A candidate is not attached, so no file field names it.
      obtain ⟨hfound, hpending⟩ := mem_unattachedOlderThan hrow
      have hmem : row ∈ world.store.files.rows := (isPerm_iff.mp hperm).subset hfound
      rintro ⟨record, hrecord, link, hlink, hid⟩
      cases howner : link.link with
      | owner =>
        have hready := h.owned record hrecord link hlink howner row hmem hid.symm
        rw [hpending] at hready
        cases hready
      | reference => exact hcareful row hrow record hrecord ⟨link, hlink, hid, howner⟩
    · exact h.passes p row hrow
  | reclaim pass backend =>
    dsimp only at hstep
    split at hstep
    · cases hstep
    · rename_i first rest hpass
      split_ifs at hstep
      · obtain rfl := Option.some.inj hstep
        exact h.of_same (fun r hr => hr) (fun row hrow => hrow)
          fun p row hrow => World.mem_setPass_tail hpass hrow
      · obtain rfl := Option.some.inj hstep
        exact h.of_same (fun r hr => hr) (fun row hrow => mem_rows_delete hrow)
          fun p row hrow => World.mem_setPass_tail hpass hrow
  | prune =>
    obtain rfl := Option.some.inj hstep
    exact h.of_same (fun r hr => hr) (fun row hrow => hrow) fun pass row hrow => hrow
  | abort pass =>
    obtain rfl := Option.some.inj hstep
    refine h.of_same (fun r hr => hr) (fun row hrow => hrow) fun p row hrow => ?_
    rcases World.mem_setPass hrow with ⟨-, hrow⟩ | hrow
    · cases hrow
    · exact hrow

/-- Every row of `_file_refs` is a reference that a live record holds. -/
def World.RefsAgree (world : World) : Prop :=
  ∀ ref ∈ world.store.refs, ∃ record ∈ world.records,
    record.key = (ref.collection, ref.recordId) ∧
      (ref.fileId, ref.field) ∈ referencesIn record.collection record.document

theorem World.RefsAgree.of_same (h : world.RefsAgree) (hrecords : next.records = world.records)
    (hrefs : ∀ ref ∈ next.store.refs, ref ∈ world.store.refs) : next.RefsAgree := by
  intro ref href
  rw [hrecords]
  exact h ref (hrefs ref href)

theorem World.RefsAgree.step {event : Event} (h : world.RefsAgree) (hstep : Step world event next) :
    next.RefsAgree := by
  unfold Step Files.step at hstep
  cases event with
  | upload new id =>
    obtain ⟨files, -, rfl⟩ := Option.map_eq_some_iff.mp hstep
    exact h.of_same rfl fun ref href => href
  | save caller record =>
    dsimp only at hstep
    split at hstep
    · obtain rfl := Option.some.inj hstep
      exact h
    · rename_i store hsync
      obtain rfl := Option.some.inj hstep
      obtain ⟨-, -, hrefs⟩ := syncFiles_spec record.id_eq hsync
      intro ref href
      have hmem := (hrefs ref).mp href
      split_ifs at hmem with hsame
      · refine ⟨record, mem_cons_self, ?_, hmem⟩
        rw [hsame.1, hsame.2]
        rfl
      · obtain ⟨other, hother, hkey, hreference⟩ := h ref hmem
        refine ⟨other, mem_cons_of_mem _ (mem_filter.mpr ⟨hother, ?_⟩), hkey, hreference⟩
        refine decide_eq_true fun heq => hsame ?_
        rw [hkey] at heq
        exact ⟨(Prod.mk.inj heq).1, (Prod.mk.inj heq).2⟩
  | delete key =>
    dsimp only at hstep
    split at hstep
    · obtain rfl := Option.some.inj hstep
      exact h
    · rename_i record hfind
      obtain rfl := Option.some.inj hstep
      have hrecord : record.key = key := by simpa using List.find?_some hfind
      intro ref href
      obtain ⟨hmem, hother⟩ := mem_filter.mp href
      obtain ⟨other, hotherMem, hkey, hreference⟩ := h ref hmem
      refine ⟨other, mem_filter.mpr ⟨hotherMem, decide_eq_true fun heq => ?_⟩, hkey, hreference⟩
      rw [hkey, ← hrecord] at heq
      obtain ⟨hc, hr⟩ := Prod.mk.inj heq
      simp [hc, hr] at hother
  | wait duration =>
    obtain rfl := Option.some.inj hstep
    exact h.of_same rfl fun ref href => href
  | collect pass found ttlSeconds limit =>
    dsimp only at hstep
    split_ifs at hstep
    obtain rfl := Option.some.inj hstep
    exact h.of_same rfl fun ref href => href
  | reclaim pass backend =>
    dsimp only at hstep
    split at hstep
    · cases hstep
    · split_ifs at hstep
      · obtain rfl := Option.some.inj hstep
        exact h.of_same rfl fun ref href => href
      · obtain rfl := Option.some.inj hstep
        exact h.of_same rfl fun ref href => href
  | prune =>
    obtain rfl := Option.some.inj hstep
    exact h.of_same rfl fun ref href => mem_of_mem_filter href
  | abort pass =>
    obtain rfl := Option.some.inj hstep
    exact h.of_same rfl fun ref href => href

end Steps

/-! ### What a pass reclaims -/

theorem sound_empty (now : Int) : (World.empty now).Sound :=
  ⟨fun _ h => by simp [World.empty] at h, fun _ _ h => by simp [World.empty] at h⟩

/-- `_file_refs` says what the records embed, in every run. -/
theorem refs_of_run {now : Int} {events : List Event} {world : World}
    (hrun : Run Step (World.empty now) events world) : world.RefsAgree :=
  hrun.invariant (fun _ _ _ h hstep => h.step hstep) fun _ h => by simp [World.empty] at h

/-- **In a run of careful steps the reaper deletes no file in use**: when a pass deletes a row, no
live record names the file in a file field or embeds it in an editor field, and `_file_refs` has no
row for it. -/
theorem reclaims_unreferenced {now : Int} {events : List Event} {world : World} {pass : ℕ}
    {backend : String} {row : FileRow}
    (hrun : Run (When Careful Step) (World.empty now) events world)
    (hrow : world.reclaimed pass backend = some row) :
    ¬ world.Used row.id ∧ ∀ ref ∈ world.store.refs, ref.fileId ≠ row.id := by
  have hsound : world.Sound :=
    hrun.invariant (fun _ _ _ h hstep => h.step hstep.1 hstep.2) (sound_empty now)
  have hunused : ¬ world.Used row.id := by
    unfold World.reclaimed at hrow
    split at hrow
    · cases hrow
    · rename_i first rest hpass
      split_ifs at hrow
      have hid : row.id = first.id := by simpa using List.find?_some hrow
      rw [hid]
      exact hsound.passes pass first (hpass ▸ mem_cons_self)
  refine ⟨hunused, fun ref href hfile => hunused ?_⟩
  obtain ⟨record, hrecord, -, hreference⟩ := refs_of_run hrun.of_when ref href
  obtain ⟨found, hfound, heq⟩ := mem_map.mp hreference
  exact ⟨record, hrecord, found, mem_of_mem_filter hfound,
    (Prod.mk.inj heq).1.trans hfile⟩

section Embedded

/-- A collection with an editor field. -/
def posts : Collection where
  id := "posts"
  name := "posts"
  collectionType := .base
  options := .object []
  rules := .object []
  fields := [⟨"f1", "posts", "body", .editor, false, false, .object [], 0⟩]

/-- A record that embeds an upload. -/
def post : StoredRecord where
  collection := posts
  id := "p1"
  document := .object [("body", .string "![](/api/files/abcDEF123456789)"), ("id", .string "p1")]
  id_eq := by decide

/-- An upload from the editor. -/
def editorUpload : NewFile := ⟨"image/png", 10, "local", "", "", "", .editor, "ada"⟩

/-- The row of the upload. -/
def uploadRow : FileRow := editorUpload.row "abcDEF123456789" 0

/-- The upload is embedded in a record, and a pass looks for old uploads a day later. -/
def embeddedRun : List Event :=
  [.upload editorUpload "abcDEF123456789", .save (.user "ada") post, .wait 90000000000,
    .collect 0 [uploadRow] 86400 100]

/-- **The reaper deletes an upload that a record embeds.** -/
theorem reaper_reclaims_embedded_upload :
    ¬ ∀ (now : Int) (events : List Event) (world : World) (pass : ℕ) (backend : String)
      (row : FileRow), Run Step (World.empty now) events world →
        world.reclaimed pass backend = some row → ¬ world.Used row.id := by
  intro hall
  have hexec : ((exec step (World.empty 0) embeddedRun).any fun world =>
      (world.reclaimed 0 "local").any fun row => world.records.any fun record =>
        record.links.any fun found => found.id = row.id) = true := by decide
  obtain ⟨world, hworld, hreclaimed⟩ := (Option.any_eq_true _ _).mp hexec
  obtain ⟨row, hrow, hused⟩ := (Option.any_eq_true _ _).mp hreclaimed
  obtain ⟨record, hrecord, hlinks⟩ := any_eq_true.mp hused
  obtain ⟨found, hfound, hid⟩ := any_eq_true.mp hlinks
  exact hall 0 embeddedRun world 0 "local" row (run_of_exec hworld) hrow
    ⟨record, hrecord, found, hfound, of_decide_eq_true hid⟩

/-- An upload that no record embeds is reclaimed. -/
theorem reclaims_abandoned_upload :
    ∃ world : World, world.reclaimed 0 "local" = some uploadRow ∧ ¬ world.Used uploadRow.id ∧
      ∀ ref ∈ world.store.refs, ref.fileId ≠ uploadRow.id := by
  have hrun : ∃ world, Run (When Careful Step) (World.empty 0)
      [.upload editorUpload "abcDEF123456789", .wait 90000000000,
        .collect 0 [uploadRow] 86400 100] world ∧ world.reclaimed 0 "local" = some uploadRow := by
    refine ⟨_, .cons ⟨?_, rfl⟩ (.cons ⟨trivial, rfl⟩ (.cons ⟨?_, rfl⟩ (.nil _))), rfl⟩
    · rintro ⟨record, hrecord, -⟩
      cases hrecord
    · intro row hrow record hrecord
      cases hrecord
  obtain ⟨world, hrun, hrow⟩ := hrun
  exact ⟨world, hrow, reclaims_unreferenced hrun hrow⟩

end Embedded

end LazyPock.Files
