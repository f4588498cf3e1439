import LazyPock.Schema.Steps

/-!
# Row-level security of the tables of collections

The restricted roles may read and write every table of the schema, so a collection without row-level
security is open to everyone. A creation applies the rules of a collection in the transaction that
registers it, an update applies them again, and what a deletion leaves is registered no more: none of
them opens a table.

## Main definitions

* `Db.Registered`, `Db.Secured`: the tables of collections are under row-level
  security.
* `Collections.updateUntil`: an update that is stopped between two transactions.

## Main results

* `Collections.create_secured`, `Collections.update_secured`,
  `Collections.updateUntil_secured`, `Collections.delete_secured`.
-/

namespace LazyPock

open Ddl Machine

namespace Db

/-- A relation is the one of a base or an auth collection. -/
def Registered (db : Db) (name : String) : Prop :=
  ∃ c ∈ db.collections, c.collectionType ≠ .view ∧ c.name = name

/-- **Every table that is registered as base or auth has row-level security on.** -/
def Secured (db : Db) : Prop :=
  ∀ c ∈ db.collections, c.collectionType ≠ .view → db.IsTable c.name → db.Secure c.name

variable {db after : Db} {name : String}

theorem secured_iff : db.Secured ↔ ∀ name, db.Registered name → db.IsTable name → db.Secure name := by
  constructor
  · rintro h _ ⟨c, hc, htype, rfl⟩
    exact h c hc htype
  · exact fun h c hc htype => h c.name ⟨c, hc, htype, rfl⟩

theorem registered_iff :
    db.Registered name ↔ ∃ id collectionType, (id, name, collectionType) ∈ db.labels ∧
      collectionType ≠ .view := by
  constructor
  · rintro ⟨c, hc, htype, rfl⟩
    exact ⟨c.id, c.collectionType, List.mem_map_of_mem hc, htype⟩
  · rintro ⟨id, collectionType, hlabel, htype⟩
    obtain ⟨c, hc, hsame⟩ := List.mem_map.mp hlabel
    simp only [Prod.mk.injEq] at hsame
    exact ⟨c, hc, hsame.2.2 ▸ htype, hsame.2.1⟩

/-- A write that adds neither a table nor a collection, and turns row-level security off nowhere. -/
structure OpensNone (db after : Db) : Prop where
  guarded : Guarded (fun _ => False) db after
  labels : after.labels ⊆ db.labels

/-- The collections that are there stay secured; a new table and a new collection have to be. -/
theorem Guarded.secured {adds : String → Prop} (hguarded : Guarded adds db after) (h : db.Secured)
    (hlabels : ∀ name, after.Registered name → db.Registered name ∨ after.Secure name)
    (hadds : ∀ name, adds name → after.Registered name → after.Secure name) : after.Secured := by
  rw [secured_iff] at h ⊢
  intro name hregistered htable
  obtain hnew | ⟨hbefore, hkeeps⟩ := hguarded name htable
  · exact hadds name hnew hregistered
  · exact (hlabels name hregistered).elim (fun hold => hkeeps (h name hold hbefore)) id

theorem OpensNone.secured (hnone : OpensNone db after) (h : db.Secured) : after.Secured := by
  refine hnone.guarded.secured h (fun name hregistered => ?_) fun _ hnew => hnew.elim
  obtain ⟨id, collectionType, hmem, htype⟩ := registered_iff.mp hregistered
  exact .inl (registered_iff.mpr ⟨id, collectionType, hnone.labels hmem, htype⟩)

/-- Where the rules of some relations are applied, row-level security is on, and it stays on where it
was. -/
structure Secures (p : String → Prop) (db after : Db) : Prop where
  labels : after.labels = db.labels
  tables : after.tables = db.tables
  keeps : ∀ name, db.Secure name → after.Secure name
  secure : ∀ name, p name → after.Secure name

theorem Secures.refl (db : Db) : Secures (fun _ => False) db db := ⟨rfl, rfl, fun _ => id, fun _ => False.elim⟩

theorem Secures.trans {p q : String → Prop} {mid : Db} (hfirst : Secures p db mid)
    (hlast : Secures q mid after) : Secures (fun name => p name ∨ q name) db after where
  labels := hlast.labels.trans hfirst.labels
  tables := hlast.tables.trans hfirst.tables
  keeps name := hlast.keeps name ∘ hfirst.keeps name
  secure name := fun h => h.elim (hlast.keeps name ∘ hfirst.secure name) (hlast.secure name)

theorem Secures.mono {p q : String → Prop} (h : Secures p db after) (hqp : ∀ name, q name → p name) :
    Secures q db after :=
  ⟨h.labels, h.tables, h.keeps, fun name hname => h.secure name (hqp name hname)⟩

end Db

namespace Collections

variable {sha : String → String} {server : Server} {toQuery : Json → List Collection → Result String}
  {db after : Db}

/-! ### Creations -/

theorem create_guarded (input : CreateCollection) (ids : Ids) :
    Db.Guarded (fun name => name = input.name) db (create sha server toQuery input ids db).2 := by
  have hsteps : Saga.Steps (fun _ => True) (Db.Guarded fun name => name = input.name)
      (create sha server toQuery input ids) :=
    create_scoped (fun _ _ (_ : Db.Step server (creationScope input.name ids.collection) _ _) h => h)
      (fun _ _ _ _ => trivial) rfl rfl rfl
  exact .of_reflTransGen (hsteps db trivial).1

theorem applyPolicies_secures {collection : Collection} {context : FilterContext} {u : Unit}
    (h : applyPolicies server collection context db = .ok (u, after)) :
    Db.Secures (fun name => name = collection.name) db after := by
  obtain ⟨statements, hstatements, h⟩ := Tx.lift_bind_eq_ok.mp h
  rw [Tx.run_eq_ok] at h
  split at h
  next columns htable =>
    split_ifs at h
    obtain ⟨policies, hpolicies, rfl⟩ := Option.map_eq_some_iff.mp h
    have hsecure := Db.policies_secure hstatements hpolicies
    exact ⟨rfl, rfl, fun name hname => hsecure name (.inr hname),
      fun name hname => hsecure name (.inl hname)⟩
  next => cases h

/-- The rules of a new collection are applied last. -/
theorem createTransaction_secure (ids : Ids) (collection : Collection) (all : List Collection)
    (table : Option Statement) :
    Tx.Ensures (fun _ => True) (createTransaction sha server ids collection all table)
      fun _ s => s.Secure collection.name := by
  refine .bind .trivial fun _ => .bind .trivial fun _ => .bind .trivial fun _ => .bind .trivial fun _ =>
    .bind .trivial fun _ => .bind .trivial fun context => .bind .trivial fun _ =>
    .bind (Q := fun _ s => s.Secure collection.name) ?_ fun _ => ?_
  · exact fun s u t _ h => (applyPolicies_secures h).secure _ rfl
  intro s u t hs h
  cases table with
  | none =>
    obtain ⟨-, rfl⟩ : () = u ∧ s = t := by simpa [Tx.onlyIf] using h
    exact hs
  | some statement =>
    obtain ⟨-, rfl⟩ := Tx.lift_eq_ok.mp h
    exact hs

/-- **A creation opens no table**, also where it fails. -/
theorem create_secured (h : db.Secured) (input : CreateCollection) (ids : Ids) :
    (create sha server toQuery input ids db).2.Secured := by
  have hguarded : Db.Guarded (fun name => name = input.name) db
      (create sha server toQuery input ids db).2 := create_guarded input ids
  cases hcreate : create sha server toQuery input ids db with
  | mk r after =>
    rw [hcreate] at hguarded
    cases r with
    | error e => exact create_eq_error hcreate ▸ h
    | ok created =>
      obtain ⟨hnew, hlabels⟩ := create_labels hcreate
      have hlabel : ∀ {name}, after.Registered name →
          db.Registered name ∨ name = input.name ∧ input.collectionType ≠ .view := by
        intro name hregistered
        obtain ⟨id, collectionType, hmem, htype⟩ := Db.registered_iff.mp hregistered
        rw [hlabels, List.mem_append, List.mem_singleton, Prod.mk.injEq, Prod.mk.injEq] at hmem
        rcases hmem with hold | ⟨-, rfl, rfl⟩
        · exact .inl (Db.registered_iff.mpr ⟨id, collectionType, hold, htype⟩)
        · exact .inr ⟨rfl, htype⟩
      have hown : input.collectionType ≠ .view → after.Secure input.name := by
        intro htype
        obtain ⟨-, table, hprepared, htx⟩ := (create_eq_ok htype).mp hcreate
        rw [← (prepareTable_name hprepared).2.1]
        exact createTransaction_secure _ _ _ _ _ _ _ trivial htx
      refine hguarded.secured h (fun name hregistered => ?_) fun name hname hregistered => ?_
      · exact (hlabel hregistered).imp_right fun ⟨hname, htype⟩ => hname ▸ hown htype
      · subst hname
        rcases hlabel hregistered with ⟨c, hc, -, hsame⟩ | ⟨-, htype⟩
        · exact absurd hsame (hnew c hc).2.1
        · exact hown htype

/-! ### Updates -/

section Updates

variable (sha server) in
/-- An update that is stopped after some of its transactions, and before its last one: each declared
field has one of its own, and so has what the declaration leaves out. -/
def updateUntil (key : String) (input : UpdateCollection) (ids : ℕ → String) (commits : ℕ) :
    Saga Db Error Unit := do
  let existing ← Saga.read fun db => get db key
  if existing.collectionType = .view then pure ()
  else do
    let fields := input.fields.getD []
    applyFields sha server ids existing 0 (fields.take commits)
    Saga.onlyIf (fields.length < commits) (dropMissing server existing input)

variable (key : String) (input : UpdateCollection) (ids : ℕ → String)

/-- What an update writes adds no collection. -/
theorem opensNone_of_step {a b : Db} (hstep : Db.Step server (.unlimited False True) a b)
    (hguarded : Db.Guarded (fun _ => False) a b) : Db.OpensNone a b :=
  ⟨hguarded, (hstep.labels fun _ h => h) ▸ List.Subset.refl _⟩

/-- **An update opens no table**, also where it fails. -/
theorem update_secured (h : db.Secured) :
    (update sha server toQuery key input ids db).2.Secured := by
  have hsteps : Saga.Steps Db.Secured Db.OpensNone (update sha server toQuery key input ids) :=
    update_scoped (fun _ _ => opensNone_of_step) (fun _ _ h hnone => hnone.secured h)
      (addresses_unlimited key) (fun _ c _ _ => addresses_unlimited c.name) fun _ => trivial
  exact (hsteps db h).2

/-- An update opens no table wherever it is stopped. -/
theorem updateUntil_secured (h : db.Secured) (commits : ℕ) :
    (updateUntil sha server key input ids commits db).2.Secured := by
  have hR : ∀ a b, Db.Step server (.unlimited False True) a b →
      Db.Guarded (fun _ => False) a b → Db.OpensNone a b := fun _ _ => opensNone_of_step
  have hJ : ∀ a b, Db.Secured a → Db.OpensNone a b → Db.Secured b := fun _ _ h hnone => hnone.secured h
  have hsteps : Saga.Steps Db.Secured Db.OpensNone (updateUntil sha server key input ids commits) := by
    refine (Saga.Steps.read _).bind fun existing => ?_
    split_ifs
    · exact .pure _
    · have hF := fieldStep_of hR
      refine (applyFields_scoped hF hJ (addresses_unlimited _).reaches trivial (fun _ _ _ => trivial) 0
        fun _ _ => trivial).bind fun _ => .onlyIf fun _ => ?_
      exact dropMissing_scoped hF hJ trivial fun _ => ⟨trivial, fun _ _ => trivial⟩
  exact (hsteps db h).2

/-! ### Deletions -/

/-- **A deletion opens no table**, whether it drops the data or keeps it. -/
theorem delete_secured (h : db.Secured) (dropData : Bool) :
    (delete server key dropData db).2.Secured := by
  have hJ : ∀ a b, Db.Secured a → Db.OpensNone a b → Db.Secured b := fun _ _ h hnone => hnone.secured h
  have hsteps : Saga.Steps Db.Secured Db.OpensNone (delete server key dropData) := by
    refine (Saga.Steps.read _).bind fun collection => .commit ?_
    refine (Tx.Steps.modify (f := Db.tick) hJ fun s _ => ⟨.of_eq rfl rfl, List.Subset.refl _⟩).bind fun _ =>
      .bind (.onlyIf fun _ => .lift_bind fun statement hstatement => .run hJ fun s t _ hexec => ?_)
      fun _ => (Tx.Steps.modify hJ fun s _ => ?_).bind fun _ => .pure _
    · have hnew : statement.newTable = none := by
        obtain rfl | rfl := dropStatement_eq_ok hstatement <;> rfl
      refine ⟨Db.exec_guarded hexec fun name h => absurd (hnew.symm.trans h) (by simp), ?_⟩
      rw [Db.labels, Db.labels, (Db.exec_metadata hexec).1]
      exact List.Subset.refl _
    · exact ⟨.of_eq rfl rfl, List.map_subset _ fun _ hc => List.mem_of_mem_filter hc⟩
  exact (hsteps db h).2

end Updates

end Collections

end LazyPock
