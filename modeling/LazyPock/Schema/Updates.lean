import LazyPock.Schema.Steps

/-!
# What an update leaves of a collection

An update that succeeds, taken apart: the declared fields are reconciled, the collection is read once
more, and its row is written. What is neither the row of the collection nor a declared field is as it
was.

## Main definitions

* `Db.spared`: the collections without the fields of some names.

## Main results

* `Collections.update_eq_ok`: the course of an update that succeeds.
* `Collections.update_spared`: an update that drops nothing writes the row of its collection
  and the fields it declares, and no other.
-/

namespace LazyPock

open Ddl Machine

namespace Db

/-! ### The fields that are not declared -/

/-- A collection without the fields of some names. -/
def sparedFields (names : List String) (collection : Collection) : Collection :=
  { collection with fields := collection.fields.filter fun f => f.name ∉ names }

/-- The collections without the fields of some names. -/
def spared (names : List String) (db : Db) : List Collection :=
  db.collections.map (sparedFields names)

variable {server : Server} {names : List String} {db after : Db}

theorem spared_of_eq (h : after.collections = db.collections) : after.spared names = db.spared names := by
  rw [spared, spared, h]

/-- Fields of the names may be rewritten, as long as they keep these. -/
theorem filter_map_of_named {g : Field → Field} (hname : ∀ f, (g f).name = f.name)
    {fields : List Field} (h : ∀ f ∈ fields, f.name ∉ names → g f = f) :
    (fields.map g).filter (fun f => f.name ∉ names) = fields.filter fun f => f.name ∉ names := by
  rw [List.filter_map, show ((fun f : Field => decide (f.name ∉ names)) ∘ g) =
    fun f => decide (f.name ∉ names) from funext fun f => by simp only [Function.comp, hname]]
  conv_rhs => rw [← List.map_id (fields.filter fun f => f.name ∉ names)]
  refine List.map_congr_left fun f hf => ?_
  obtain ⟨hmem, hspared⟩ := List.mem_filter.mp hf
  exact h f hmem (of_decide_eq_true hspared)

theorem writeField_of_ne {id : String} {required isUnique : Bool} {options : Json} {f : Field}
    (h : f.id ≠ id) : writeField id required isUnique options f = f := if_neg h

theorem name_writeField (id : String) (required isUnique : Bool) (options : Json) (f : Field) :
    (writeField id required isUnique options f).name = f.name := by
  unfold writeField
  split_ifs <;> rfl

theorem name_placeField (name : String) (position : ℕ) (f : Field) :
    (placeField name position f).name = f.name := by
  unfold placeField
  split_ifs <;> rfl

theorem spared_updateFieldRow {id : String} (h : ∀ c ∈ db.collections, ∀ f ∈ c.fields, f.id = id →
    f.name ∈ names) (required isUnique : Bool) (options : Json) :
    (db.updateFieldRow id required isUnique options).spared names = db.spared names := by
  simp only [spared, updateFieldRow, touch, mapCollections, List.map_map]
  refine List.map_congr_left fun c hc => ?_
  have hfields := @filter_map_of_named names _ (name_writeField id required isUnique options)
    c.fields fun f hf hspared => writeField_of_ne fun hid => hspared (h c hc f hf hid)
  simp only [Function.comp, sparedFields, hfields]

theorem spared_setPosition {name : String} (hname : name ∈ names) (id : String) (position : ℕ) :
    (db.setPosition id name position).spared names = db.spared names := by
  simp only [spared, setPosition, mapCollections, List.map_map]
  refine List.map_congr_left fun c _ => ?_
  have hfields := @filter_map_of_named names _ (name_placeField name position)
    c.fields fun f _ hspared => if_neg fun (heq : f.name = name) => hspared (heq ▸ hname)
  simp only [Function.comp]
  split_ifs
  · simp only [sparedFields, hfields]
  · rfl

theorem spared_insertField {field : Field} (hname : field.name ∈ names)
    (h : db.insertField field = some after) : after.spared names = db.spared names := by
  obtain ⟨-, rfl⟩ := insertField_eq_some.mp h
  simp only [spared, touch, List.map_map]
  refine List.map_congr_left fun c _ => ?_
  simp only [Function.comp, appendField]
  split_ifs
  · simp [sparedFields, List.filter_append, hname]
  · rfl

/-- The row of a collection is written where its fields are not looked at. -/
theorem spared_updateCollectionRow (id : String) (rules options : Json) :
    (db.updateCollectionRow id rules options).spared names =
      (db.spared names).map fun c => if c.id = id then { c with rules, options } else c := by
  simp only [spared, updateCollectionRow, mapCollections, List.map_map]
  refine List.map_congr_left fun c _ => ?_
  simp only [Function.comp, sparedFields]
  split_ifs with hid <;> simp [hid]

/-- A write to the fields of some names leaves the others. -/
theorem FieldStep.spared {scope : Scope} (h : FieldStep server scope (· ∈ names) db after)
    (hdrops : ¬ scope.drops)
    (hfield : ∀ c ∈ db.collections, ∀ f ∈ c.fields, scope.field f.id → f.name ∈ names) :
    after.spared names = db.spared names := by
  cases h with
  | tick | dropIndex => rfl
  | builds _ _ _ hexec => exact spared_of_eq (exec_metadata hexec).1
  | dropColumn hdropped | deleteField hdropped => exact absurd hdropped hdrops
  | insertField _ hname hinsert => exact spared_insertField hname hinsert
  | updateField hid required isUnique options =>
    exact spared_updateFieldRow (fun c hc f hf heq => hfield c hc f hf (heq ▸ hid)) _ _ _

/-- The fields that are spared are in the database. -/
theorem mem_of_spared {other : Db} (h : other.spared names = db.spared names) {c : Collection}
    (hc : c ∈ other.collections) {f : Field} (hf : f ∈ c.fields) (hname : f.name ∉ names) :
    ∃ d ∈ db.collections, d.id = c.id ∧ f ∈ d.fields := by
  have hmem : sparedFields names c ∈ db.spared names := h ▸ List.mem_map_of_mem hc
  obtain ⟨d, hd, heq⟩ := List.mem_map.mp hmem
  have hid : (sparedFields names d).id = (sparedFields names c).id := congrArg Collection.id heq
  refine ⟨d, hd, hid, ?_⟩
  have hf' : f ∈ (sparedFields names d).fields :=
    heq ▸ List.mem_filter.mpr ⟨hf, decide_eq_true hname⟩
  exact List.mem_of_mem_filter hf'

end Db

namespace Collections

variable {sha : String → String} {server : Server} {toQuery : Json → List Collection → Result String}
  {ids : ℕ → String} {db after : Db} {key : String} {input : UpdateCollection}
  {existing updated : Collection}

/-! ### The course of an update -/

/-- What an update makes of the collection it reads once more. -/
def redefined (existing read : Collection) (input : UpdateCollection) : Collection :=
  { read with
    rules := input.rules.getD existing.rules
    options := input.options.getD existing.options }

/-- **An update that succeeds** reconciles the fields, reads the collection once more and commits its
definition. -/
theorem update_eq_ok (hget : get db key = .ok existing) (htype : existing.collectionType ≠ .view) :
    update sha server toQuery key input ids db = (.ok updated, after) ↔
      ∃ mid read, reconcileFields sha server ids existing input db = (.ok (), mid) ∧
        get mid existing.id = .ok read ∧
        updateTransaction sha server existing.id (redefined existing read input) (list mid)
          existing.options (input.fields.getD []) mid.tick = .ok ((), after) ∧
        get after existing.id = .ok updated := by
  have hread : Saga.read (fun db => get db key) db = (.ok existing, db) := by
    rw [Saga.read_apply, hget]
  rw [update, Saga.bind_of_ok hread, if_neg htype, Saga.bind_eq_ok]
  constructor
  · rintro ⟨_, mid, hfields, h⟩
    obtain ⟨⟨read, all⟩, _, hmid, h⟩ := Saga.bind_eq_ok.mp h
    rw [Saga.read_apply, Prod.mk.injEq] at hmid
    obtain ⟨hmid, rfl⟩ := hmid
    obtain ⟨found, hfound, hmid⟩ := bind_eq_ok.mp hmid
    obtain ⟨rfl, rfl⟩ := Prod.mk.inj (Except.ok.inj hmid)
    obtain ⟨_, last, hcommit, h⟩ := Saga.bind_eq_ok.mp h
    obtain ⟨hupdated, rfl⟩ := Prod.mk.inj h
    exact ⟨mid, found, hfields, hfound, transaction_eq_ok.mp hcommit, hupdated⟩
  · rintro ⟨mid, read, hfields, hfound, hcommit, hupdated⟩
    refine ⟨(), mid, hfields, Saga.bind_eq_ok.mpr ⟨(read, list mid), mid, ?_, ?_⟩⟩
    · rw [Saga.read_apply, hfound]
      rfl
    · exact Saga.bind_eq_ok.mpr ⟨(), after, transaction_eq_ok.mpr hcommit, by
        rw [Saga.read_apply, hupdated]⟩

/-! ### What is left alone -/

variable {names : List String}

theorem applyPolicies_collections {collection : Collection} {context : FilterContext} {u : Unit}
    (h : applyPolicies server collection context db = .ok (u, after)) :
    after.collections = db.collections := by
  obtain ⟨statements, -, h⟩ := Tx.lift_bind_eq_ok.mp h
  rw [Tx.run_eq_ok] at h
  split at h
  · split_ifs at h
    obtain ⟨policies, -, rfl⟩ := Option.map_eq_some_iff.mp h
    rfl
  · cases h

/-- The indexes of a declaration are no metadata. -/
theorem applyDeclaredIndexes_collections {collection : Collection} {context : FilterContext}
    {previous : Option Json} {u : Unit}
    (h : applyDeclaredIndexes sha server collection context previous db = .ok (u, after)) :
    after.collections = db.collections := by
  let scope : Scope := ⟨fun _ => True, fun _ => False, fun _ => False, fun _ => False, False⟩
  have hF : ∀ a b, Db.FieldStep server scope (fun _ => False) a b →
      a.collections = db.collections → b.collections = db.collections := by
    intro a b hstep ha
    cases hstep with
    | tick | dropIndex => exact ha
    | builds _ _ _ hexec => exact (Db.exec_metadata hexec).1.trans ha
    | dropColumn hdrops | deleteField hdrops => exact hdrops.elim
    | insertField _ hname => exact hname.elim
    | updateField hfield => exact hfield.elim
  exact (applyDeclaredIndexes_scoped hF (J := fun s => s.collections = db.collections)
    (fun _ _ ha hab => hab ha) collection context previous db u after rfl h).2

/-- The last transaction of an update writes the row and the positions of the declared fields. -/
theorem updateTransaction_spared {id : String} {updated : Collection} {all : List Collection}
    {previous : Json} {declared : List CreateField} {u : Unit}
    (hnames : ∀ f ∈ declared, f.name ∈ names)
    (h : updateTransaction sha server id updated all previous declared db = .ok (u, after)) :
    after.spared names = (db.spared names).map fun c =>
      if c.id = id then { c with rules := updated.rules, options := updated.options } else c := by
  unfold updateTransaction at h
  rw [Tx.modify_bind] at h
  obtain ⟨_, start, hpositions, h⟩ := Tx.bind_eq_ok.mp h
  obtain ⟨context, -, h⟩ := Tx.lift_bind_eq_ok.mp h
  obtain ⟨_, mid, hindexes, h⟩ := Tx.bind_eq_ok.mp h
  obtain ⟨_, last, hpolicies, h⟩ := Tx.bind_eq_ok.mp h
  obtain ⟨-, rfl⟩ := Tx.lift_eq_ok.mp h
  have hrow := @Db.spared_updateCollectionRow names db id updated.rules updated.options
  have hstart : start.spared names = (db.updateCollectionRow id updated.rules updated.options).spared
      names := by
    refine Tx.Ensures.forM (I := fun s : Db => s.spared names =
        (db.updateCollectionRow id updated.rules updated.options).spared names)
      (fun a ha s x t hs h => ?_) _ _ _ rfl hpositions
    obtain rfl : s.setPosition id a.1.name a.2 = t := by simpa using h
    have hdeclared : a.1 ∈ declared := (List.mem_zipIdx' ha).2 ▸ List.getElem_mem _
    exact (Db.spared_setPosition (hnames _ hdeclared) id a.2).trans hs
  rw [Db.spared_of_eq (applyPolicies_collections hpolicies),
    Db.spared_of_eq (applyDeclaredIndexes_collections hindexes), hstart, hrow]

/-- Reconciling the declared fields leaves the others, also where it fails. -/
theorem reconcileFields_spared (hget : get db key = .ok existing)
    (htype : existing.collectionType ≠ .view) (hdelete : input.deleteMissingFields = false)
    (hnames : ∀ f ∈ input.fields.getD [], f.name ∈ names) :
    (reconcileFields sha server ids existing input db).2.spared names = db.spared names := by
  obtain ⟨stored, hstored, rfl, -⟩ := exists_of_get hget
  let scope : Scope := ⟨fun _ => True, fun _ => True,
    fun id => ∃ f ∈ (loadFields db stored).fields, f.id = id ∧ f.name ∈ names, fun _ => False, False⟩
  have hF : ∀ a b, Db.FieldStep server scope (· ∈ names) a b →
      a.spared names = db.spared names → b.spared names = db.spared names := by
    intro a b hstep ha
    refine (hstep.spared id fun c hc f hf hid => ?_).trans ha
    obtain ⟨g, hg, hsame, hname⟩ := hid
    -- A field with the id of a declared one is that field, as it was stored before.
    by_contra hspared
    obtain ⟨d, hd, -, hfd⟩ := Db.mem_of_spared ha hc hf hspared
    have hg' : g ∈ stored.fields := (mem_fields_loadFields (c := stored) htype).mp hg
    obtain rfl := db.keyed.eq_of_field hd hstored hfd hg' hsame.symm
    have hnodup := (List.nodup_flatMap.mp db.keyed.fieldIds).1 d hd
    exact hspared (List.inj_on_of_nodup_map hnodup hfd hg' hsame.symm ▸ hname)
  exact (reconcileFields_scoped hF (J := fun s => s.spared names = db.spared names)
    (fun _ _ ha hab => hab ha) (fun _ _ _ _ => ⟨trivial, trivial⟩) trivial
    (fun f hf hname => ⟨f, hf, rfl, hname⟩) (fun h => absurd h (by simp [hdelete])) hnames db rfl).2

/-- **An update writes the row of its collection and the fields it declares**, and no other. -/
theorem update_spared (hget : get db key = .ok existing) (htype : existing.collectionType ≠ .view)
    (hdelete : input.deleteMissingFields = false)
    (h : update sha server toQuery key input ids db = (.ok updated, after)) :
    let names := (input.fields.getD []).map CreateField.name
    after.spared names = (db.spared names).map fun c =>
      if c.id = existing.id then
        { c with
          rules := input.rules.getD existing.rules
          options := input.options.getD existing.options }
      else c := by
  intro names
  have hnames : ∀ f ∈ input.fields.getD [], f.name ∈ names := fun f hf => List.mem_map_of_mem hf
  obtain ⟨mid, read, hfields, -, hcommit, -⟩ := (update_eq_ok hget htype).mp h
  have hmid : mid.spared names = db.spared names := by
    simpa only [hfields] using
      @reconcileFields_spared sha server ids _ _ _ _ _ hget htype hdelete hnames
  have htick : mid.tick.spared names = mid.spared names := rfl
  rw [updateTransaction_spared hnames hcommit, htick, hmid]
  rfl

end Collections

end LazyPock
