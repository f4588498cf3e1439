import LazyPock.Schema.Adoption
import LazyPock.Schema.Updates

/-!
# The options of the collections

The options of a collection are written when it is registered and at the end of an update, in the last
transaction; nothing else writes them.

## Main definitions

* `Db.declared`: the ids, names, types and options of the collections.
* `Db.redeclare`: other options for one of them.

## Main results

* `Collections.create_declared`, `Collections.update_declared`,
  `Collections.delete_declared`: what the operations make of them.
* `Reflect.reflect_declared`: what an adoption adds, also one that ends early.
-/

namespace LazyPock

open Machine Collections Saga

namespace Db

variable {server : Server} {db after : Db}

/-- What the row of a collection declares, but for its rules. -/
structure Declaration where
  id : String
  name : String
  collectionType : CollectionType
  options : Json

def declarationOf (c : Collection) : Declaration := ⟨c.id, c.name, c.collectionType, c.options⟩

/-- What the collections declare. -/
def declared (db : Db) : List Declaration := db.collections.map declarationOf

/-- Other options for one of the collections. -/
def redeclare (id : String) (options : Json) (d : Declaration) : Declaration :=
  if d.id = id then { d with options } else d

theorem declared_congr (h : after.collections = db.collections) : after.declared = db.declared := by
  rw [declared, h, declared]

theorem declared_mapCollections {f : Collection → Collection} (hf : KeepsKeys f)
    (hoptions : ∀ c, (f c).options = c.options) :
    (db.mapCollections f hf).declared = db.declared := by
  simp only [declared, mapCollections, List.map_map]
  exact List.map_congr_left fun c _ => by
    simp [declarationOf, hf.id, hf.name, hf.collectionType, hoptions]

theorem declared_insertField {field : Field} (h : db.insertField field = some after) :
    after.declared = db.declared := by
  obtain ⟨_, rfl⟩ := insertField_eq_some.mp h
  simp only [declared, touch, List.map_map]
  refine List.map_congr_left fun c _ => ?_
  simp only [Function.comp_apply, appendField]
  split_ifs <;> rfl

theorem declared_updateCollectionRow (db : Db) (id : String) (rules options : Json) :
    (db.updateCollectionRow id rules options).declared =
      db.declared.map (redeclare id options) := by
  simp only [declared, updateCollectionRow, mapCollections, List.map_map]
  refine List.map_congr_left fun c _ => ?_
  by_cases hid : c.id = id <;> simp [redeclare, declarationOf, hid]

/-- **The operations on fields write no options.** -/
theorem FieldStep.declared {scope : Scope} {names : String → Prop}
    (h : FieldStep server scope names db after) : after.declared = db.declared := by
  cases h with
  | tick | dropIndex => rfl
  | builds _ _ _ hexec => exact declared_congr (exec_metadata hexec).1
  | dropColumn _ _ _ hexec => exact declared_congr (exec_metadata hexec).1
  | insertField _ _ hinsert => exact declared_insertField hinsert
  | updateField => exact declared_mapCollections (keepsKeys_writeField _ _ _ _) fun _ => rfl
  | deleteField => exact declared_mapCollections (.filterFields _) fun _ => rfl

/-- What another collection declares stays. -/
theorem mem_of_redeclare {id : String} {options : Json} {declared : List Declaration}
    {d : Declaration} (h : d ∈ declared.map (redeclare id options)) (hne : d.id ≠ id) :
    d ∈ declared := by
  obtain ⟨other, hother, rfl⟩ := List.mem_map.mp h
  unfold redeclare at hne ⊢
  split_ifs at hne ⊢ with hid
  · exact absurd hid hne
  · exact hother

end Db

namespace Collections

variable {sha : String → String} {server : Server} {toQuery : Json → List Collection → Result String}
  {db after : Db} {key : String}

section Writes

/-- Writes that leave the options alone. -/
abbrev KeepsOptions (declared : List Db.Declaration) (db after : Db) : Prop :=
  db.declared = declared → after.declared = declared

variable {declared : List Db.Declaration} {scope : Scope} {names : String → Prop}

theorem keepsOptions_of_field (a b : Db) (h : Db.FieldStep server scope names a b) :
    KeepsOptions declared a b := fun ha => h.declared.trans ha

theorem declared_of_keepsOptions (a b : Db) (ha : a.declared = declared)
    (h : KeepsOptions declared a b) : b.declared = declared := h ha

theorem applyPolicies_keepsOptions (collection : Collection) (context : FilterContext) :
    Tx.Steps (fun db => db.declared = declared) (KeepsOptions declared)
      (applyPolicies server collection context) := by
  intro a u b ha h
  have hb : b.declared = declared :=
    (Db.declared_congr (applyPolicies_collections h)).trans ha
  exact ⟨.single fun _ => hb, hb⟩

end Writes

/-! ### Creations -/

/-- After the row of a collection is there, the operations of its creation write no options. -/
theorem completeCreation_declared {ids : Ids} {collection : Collection} {all : List Collection}
    {newTable : Bool} {u : Unit}
    (h : completeCreation sha server ids collection all newTable db = .ok (u, after)) :
    after.declared = db.declared := by
  have hF : ∀ a b, Db.FieldStep server (.unlimited True True) (fun _ => True) a b →
      KeepsOptions db.declared a b := keepsOptions_of_field
  have hJ := @declared_of_keepsOptions db.declared
  have hsteps : Tx.Steps (fun a => a.declared = db.declared) (KeepsOptions db.declared)
      (completeCreation sha server ids collection all newTable) := by
    refine .bind (.forM fun f _ => ?_) fun _ => .bind (.onlyIf fun _ => .forM fun f _ => ?_) fun _ =>
      (Tx.Steps.onlyIf fun _ => runIndex_scoped hF hJ (by trivial) rfl _).bind fun _ =>
      (Tx.Steps.lift _).bind fun context => (applyDeclaredIndexes_scoped hF hJ _ _ _).bind fun _ =>
      (applyPolicies_keepsOptions _ _).bind fun _ => .onlyIf fun _ => .lift _
    · exact (insertField_scoped hF hJ trivial trivial).bind fun _ =>
        .onlyIf fun _ => createOwnIndex_scoped hF hJ _ _ _
    · exact insertBuiltinField_scoped hF hJ trivial trivial
  exact (hsteps _ _ _ rfl h).2

/-- **A creation adds what it declares.** -/
theorem create_declared {input : CreateCollection} {ids : Ids} {created : Collection}
    (h : create sha server toQuery input ids db = (.ok created, after)) :
    after.declared = db.declared ++ [Db.declarationOf created] ∧ created.name = input.name ∧
      created.collectionType = input.collectionType ∧
      (input.collectionType ≠ .view → created.options = input.options ∧
        (db.nameTaken input.name = true → input.adoptExistingTable = true)) := by
  have hinsert : ∀ {a b : Db} {collection : Collection}, a.collections = db.collections →
      a.insertCollection collection = some b →
      b.declared = db.declared ++ [Db.declarationOf collection] := by
    intro a b collection hcollections hinserted
    obtain ⟨_, rfl⟩ := Db.insertCollection_eq_some.mp hinserted
    simp only [Db.declared, hcollections, List.map_append, List.map_cons, List.map_nil]
    rfl
  by_cases htype : input.collectionType = .view
  · unfold create at h
    obtain ⟨_, mid, hlift, h⟩ := Saga.bind_eq_ok.mp h
    obtain rfl : db = mid := congrArg Prod.snd hlift
    rw [if_pos htype] at h
    obtain ⟨collection, statement, built, inserted, hprepared, hbuilt, hinserted, ⟨fields, rfl⟩, rfl⟩ :=
      createView_eq_ok h
    obtain ⟨-, hname, hview, -, -⟩ := prepareView_eq_ok hprepared
    exact ⟨hinsert (Db.exec_metadata hbuilt).1 hinserted, hname, hview.trans htype.symm,
      fun hne => absurd htype hne⟩
  · obtain ⟨-, table, hprepared, htx⟩ := (create_eq_ok htype).mp h
    obtain ⟨-, hname, hsame, -, -⟩ := prepareTable_name hprepared
    obtain ⟨built, inserted, hbuilt, hinserted, hrest⟩ := createTransaction_eq_ok htx
    refine ⟨?_, hname, hsame, fun _ => declaration_of_prepareTable hprepared⟩
    rw [completeCreation_declared hrest, hinsert hbuilt hinserted]

/-! ### Updates -/

variable {input : UpdateCollection} {ids : ℕ → String}

/-- The fields are reconciled without writing options, also where that fails. -/
theorem reconcileFields_declared {existing : Collection} :
    (reconcileFields sha server ids existing input db).2.declared = db.declared := by
  have hF : ∀ a b, Db.FieldStep server (.unlimited True True) (fun _ => True) a b →
      KeepsOptions db.declared a b := keepsOptions_of_field
  exact (reconcileFields_scoped hF (@declared_of_keepsOptions db.declared)
    (addresses_unlimited existing.name).reaches trivial (fun _ _ _ => trivial)
    (fun _ => ⟨trivial, fun _ _ => trivial⟩) (fun _ _ => trivial) db rfl).2

/-- The last transaction of an update writes the options of its collection. -/
theorem updateTransaction_declared {id : String} {updated : Collection} {all : List Collection}
    {previous : Json} {fields : List CreateField} {u : Unit}
    (h : updateTransaction sha server id updated all previous fields db = .ok (u, after)) :
    after.declared = db.declared.map (Db.redeclare id updated.options) := by
  unfold updateTransaction at h
  rw [Tx.modify_bind] at h
  obtain ⟨_, start, hpositions, h⟩ := Tx.bind_eq_ok.mp h
  obtain ⟨context, -, h⟩ := Tx.lift_bind_eq_ok.mp h
  obtain ⟨_, mid, hindexes, h⟩ := Tx.bind_eq_ok.mp h
  obtain ⟨_, last, hpolicies, h⟩ := Tx.bind_eq_ok.mp h
  obtain ⟨-, rfl⟩ := Tx.lift_eq_ok.mp h
  have hstart : start.declared = (db.updateCollectionRow id updated.rules updated.options).declared := by
    refine Tx.Ensures.forM (I := fun s : Db => s.declared =
        (db.updateCollectionRow id updated.rules updated.options).declared)
      (fun a _ s x t hs h => ?_) _ _ _ rfl hpositions
    obtain rfl : s.setPosition id a.1.name a.2 = t := by simpa using h
    refine (Db.declared_mapCollections _ fun c => ?_).trans hs
    split_ifs <;> rfl
  rw [Db.declared_congr (applyPolicies_collections hpolicies),
    Db.declared_congr (applyDeclaredIndexes_collections hindexes), hstart,
    Db.declared_updateCollectionRow]

/-- **An update that succeeds** writes the options of its collection. -/
theorem update_declared {existing updated : Collection}
    (hget : get db key = .ok existing) (htype : existing.collectionType ≠ .view)
    (h : update sha server toQuery key input ids db = (.ok updated, after)) :
    after.declared =
      db.declared.map (Db.redeclare existing.id (input.options.getD existing.options)) := by
  obtain ⟨mid, read, hfields, -, hcommit, -⟩ := (update_eq_ok hget htype).mp h
  have hmid : mid.declared = db.declared := by
    simpa only [hfields] using @reconcileFields_declared sha server db input ids existing
  have htick : mid.tick.declared = mid.declared := rfl
  rw [updateTransaction_declared hcommit, htick, hmid]
  rfl

/-- An update of what is not there leaves the database. -/
theorem update_of_get_error {e : Error}
    (hget : get db key = .error e) :
    update sha server toQuery key input ids db = (.error e, db) := by
  have hread : read (fun db => get db key) db = (.error e, db) := by
    rw [read_apply, hget]
  rw [update, bind_of_error hread]

/-- **An update that fails** leaves the options. -/
theorem update_error_declared {existing : Collection}
    {e : Error} (hget : get db key = .ok existing) (htype : existing.collectionType ≠ .view)
    (h : update sha server toQuery key input ids db = (.error e, after)) :
    after.declared = db.declared := by
  have hfields := @reconcileFields_declared sha server db input ids existing
  have hlabels : after.labels = db.labels := by
    simpa only [h] using @update_labels sha server toQuery db key input ids
  have hread : read (fun db => get db key) db = (.ok existing, db) := by
    rw [read_apply, hget]
  rw [update, bind_of_ok hread, if_neg htype] at h
  rcases bind_eq_error.mp h with hfailed | ⟨_, mid, hreconciled, h⟩
  · rwa [hfailed] at hfields
  rw [hreconciled] at hfields
  rcases bind_eq_error.mp h with hfailed | ⟨_, _, hmid, h⟩
  · obtain rfl : mid = after := congrArg Prod.snd hfailed
    exact hfields
  obtain rfl := congrArg Prod.snd hmid
  rcases bind_eq_error.mp h with hfailed | ⟨_, last, hcommit, h⟩
  · exact (transaction_eq_error.mp hfailed).2 ▸ hfields
  -- The collection is still there after the last transaction, so it can be read.
  obtain ⟨hnone, rfl⟩ := Prod.mk.inj h
  obtain ⟨stored, hstored, rfl, -⟩ := exists_of_get hget
  have hlabel : (stored.id, stored.name, stored.collectionType) ∈ last.labels :=
    hlabels ▸ List.mem_map_of_mem hstored
  obtain ⟨c, hc, hsame⟩ := List.mem_map.mp hlabel
  obtain ⟨found, hfound⟩ := exists_get ⟨c, hc, .inl (congrArg Prod.fst hsame)⟩
  cases hfound.symm.trans hnone

/-- **An update of a view** leaves what the tables declare. -/
theorem update_view_declared {existing : Collection}
    (hget : get db key = .ok existing) (htype : existing.collectionType = .view) {c : Collection}
    (hc : c ∈ (update sha server toQuery key input ids db).2.collections)
    (htable : c.collectionType ≠ .view) : c ∈ db.collections := by
  obtain ⟨stored, hstored, rfl, -⟩ := exists_of_get hget
  let p : String → Bool := fun name => name ≠ stored.name
  have hJ : ∀ a b, Db.Kept p db a → Db.Step server (Collections.keepingScope p db) a b →
      Db.Kept p db b := Db.Kept.step (outside_keepingScope p db)
  have hscope : (keepingScope p db).collection (loadFields db stored).id := by
    intro d hd hp hid
    obtain rfl := List.inj_on_of_nodup_map db.keyed.ids hd hstored hid
    exact of_decide_eq_true hp rfl
  have hrelation : (keepingScope p db).relation (loadFields db stored).name :=
    decide_eq_false (not_not.mpr rfl)
  have hkept : Db.Kept p db (updateView server toQuery (loadFields db stored) input db).2 :=
    (updateView_scoped (fun _ _ h _ => h) hJ hscope hrelation input db (.refl p db)).2
  have hread : read (fun db => get db key) db = (.ok (loadFields db stored), db) := by
    rw [read_apply, hget]
  have hview : update sha server toQuery key input ids db =
      updateView server toQuery (loadFields db stored) input db := by
    rw [update, bind_of_ok hread, if_pos htype]
  have hlabels := @update_labels sha server toQuery db key input ids
  have hlabel : (c.id, c.name, c.collectionType) ∈ db.labels := hlabels ▸ List.mem_map_of_mem hc
  obtain ⟨d, hd, hsame⟩ := List.mem_map.mp hlabel
  have hname : p c.name = true := by
    refine decide_eq_true fun hsameName => htable ?_
    obtain rfl := List.inj_on_of_nodup_map db.keyed.names hd hstored
      ((congrArg (fun l => l.2.1) hsame).trans hsameName)
    exact (congrArg (fun l => l.2.2) hsame).symm.trans htype
  exact (hkept.mem_iff hname).mp (hview ▸ hc)

/-! ### Deletions -/

/-- **A deletion** removes the row of its collection. -/
theorem delete_collections {dropData : Bool} {deleted : Collection}
    (h : delete server key dropData db = (.ok deleted, after)) :
    get db key = .ok deleted ∧
      after.collections = db.collections.filter fun c => c.id ≠ deleted.id := by
  obtain ⟨collection, mid, hread, h⟩ := Saga.bind_eq_ok.mp h
  obtain ⟨hget, rfl⟩ := Prod.mk.inj hread
  obtain ⟨_, dropped, hdrop, hwork⟩ := Tx.bind_eq_ok.mp (transaction_eq_ok.mp h)
  rw [Tx.modify_bind] at hwork
  obtain ⟨rfl, rfl⟩ := Prod.mk.inj (Except.ok.inj hwork)
  have hcollections : dropped.collections = db.collections := by
    cases dropData with
    | true =>
      obtain ⟨statement, -, hrun⟩ := Tx.lift_bind_eq_ok.mp hdrop
      rw [run, Tx.run_eq_ok] at hrun
      exact (Db.exec_metadata hrun).1
    | false =>
      obtain ⟨-, rfl⟩ := Prod.mk.inj (Except.ok.inj hdrop)
      rfl
  exact ⟨hget, by simp only [Db.deleteCollectionRow, hcollections]⟩

/-- A deletion that fails leaves the database. -/
theorem delete_error {dropData : Bool} {e : Error}
    (h : delete server key dropData db = (.error e, after)) : after = db := by
  rcases bind_eq_error.mp h with h | ⟨collection, mid, hread, h⟩
  · exact (congrArg Prod.snd h).symm
  · obtain rfl : db = mid := congrArg Prod.snd hread
    exact (transaction_eq_error.mp h).2

end Collections

namespace Reflect

open Db

variable {server : Server} {catalog : Catalog} {db after : Db}

/-! ### Adoptions -/

/-- What an adoption registers declares nothing of realtime. -/
theorem declaration_of_registered {ids : Ids} {c : Collection}
    (h : .collection c ∈ registrations catalog db ids) :
    c.name ∈ (adoptable catalog db).map Prod.fst ∧ c.options.get "realtime" = none := by
  obtain ⟨⟨⟨table, columns⟩, index⟩, hentry, hmem⟩ := List.mem_flatMap.mp h
  rcases List.mem_cons.mp hmem with hsame | hmem
  · obtain rfl := Registration.collection.inj hsame
    exact ⟨List.mem_map_of_mem (List.fst_mem_of_mem_zipIdx hentry), rfl⟩
  · obtain ⟨column, -, hfield⟩ := List.mem_map.mp hmem
    cases hfield

/-- What some collections declare, or what adopted tables do. -/
def Adopted (catalog : Catalog) (before db : Db) : Prop :=
  ∀ d ∈ db.declared, d ∈ before.declared ∨
    (d.name ∈ (adoptable catalog before).map Prod.fst ∧ d.options.get "realtime" = none)

/-- **An adoption adds the tables it registers**, also one that ends early. -/
theorem reflect_declared (ids : Ids) :
    Adopted catalog db (reflect server catalog ids db).2 := by
  have hregister : Preserves (Adopted catalog db) (register server (registrations catalog db ids)) := by
    refine .forM fun r hr => .commit fun a u b ha h => ?_
    rw [Tx.modify_bind] at h
    cases r with
    | collection c =>
      rw [Registration.run, Tx.run_eq_ok] at h
      obtain ⟨_, rfl⟩ := Db.insertCollection_eq_some.mp h
      intro d hd
      rw [declared, List.map_append, List.mem_append] at hd
      rcases hd with hd | hd
      · exact ha d hd
      · obtain rfl := List.mem_singleton.mp hd
        exact .inr (declaration_of_registered hr)
    | field f =>
      rw [Registration.run, Collections.insertField, Tx.run_eq_ok] at h
      rw [Adopted, declared_insertField h]
      exact ha
  have hsecure : ∀ collections name,
      Preserves (Adopted catalog db) (secure server collections name) := by
    intro collections name
    unfold secure
    split
    · exact .pure _
    · refine (Preserves.lift _).bind fun context => .commit fun a u b ha h => ?_
      rw [Tx.modify_bind] at h
      rw [Adopted, declared_congr (Collections.applyPolicies_collections h)]
      exact ha
  have hsecureAll : Preserves (Adopted catalog db)
      (onlyIf ((adoptable catalog db).map Prod.fst ≠ [])
        (secureAll server ((adoptable catalog db).map Prod.fst))) := by
    unfold onlyIf
    split_ifs
    · exact (Preserves.read _).bind fun collections => .forM fun name _ => hsecure collections name
    · exact .pure _
  have hstart : Adopted catalog db db := fun d hd => .inl hd
  exact (hregister.bind fun _ => hsecureAll.bind fun _ => .pure _) db hstart

end Reflect

end LazyPock
