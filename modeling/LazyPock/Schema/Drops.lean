import LazyPock.Schema.Steps

/-!
# What an update drops

An update adds and changes the fields it declares. It drops a column only where the caller asked for
it, and then only a column that is not declared and not built in.

## Main definitions

* `Collections.HasColumn`: a table has a column.

## Main results

* `Collections.update_keeps_column`: a column that is declared or built in stays.
-/

namespace LazyPock.Collections

open Ddl Machine Db

variable {sha : String → String} {server : Server} {toQuery : Json → List Collection → Result String}
  {table column : String} {α : Type}

/-! ### Columns -/

/-- A table has a column. -/
def HasColumn (table column : String) (db : Db) : Prop := column ∈ db.columnsOf table

/-- A write that keeps a column. -/
def KeepsColumn (table column : String) (db after : Db) : Prop :=
  HasColumn table column db → HasColumn table column after

theorem hasColumn_of_keeps (db after : Db) (h : HasColumn table column db)
    (hkeeps : KeepsColumn table column db after) : HasColumn table column after := hkeeps h

/-- Writes that drop nothing keep every column. -/
theorem keepsColumn_of_steps {m : Saga Db Error α}
    (h : Saga.Steps (fun _ => True) (Db.Step server (.unlimited False False)) m) :
    Saga.Preserves (HasColumn table column) m := fun db hmem =>
  (Grown.of_steps (h db trivial).1 fun h => h).columns table hmem

theorem transaction_keeps_column {work : Tx Db Error α}
    (h : Tx.Steps (HasColumn table column) (KeepsColumn table column) work) :
    Saga.Preserves (HasColumn table column) (transaction work) := by
  intro db hmem
  have htick : Tx.Steps (HasColumn table column) (KeepsColumn table column)
      (Tx.modify Db.tick : Tx Db Error Unit) := .modify hasColumn_of_keeps fun _ _ h => h
  exact (Saga.Steps.commit (htick.bind fun _ => h) db hmem).2

/-- **A column that is dropped is gone, and no other one is.** -/
theorem mem_columnsOf_dropColumn {db after : Db} {other dropped : String}
    (h : db.exec server (.dropColumn other dropped) = some after)
    (hne : other = table → dropped ≠ column) : KeepsColumn table column db after := by
  intro hmem
  by_cases htable : other = table
  · subst htable
    obtain ⟨columns, hcolumns, -, -, rfl⟩ := exec_dropColumn.mp h
    simp only [HasColumn, columnsOf, hcolumns, Option.map_some, Option.getD_some,
      Relation.columnNames] at hmem
    obtain ⟨kept, hkept, rfl⟩ := List.mem_map.mp hmem
    have hname : kept.name ≠ dropped := (hne rfl).symm
    simp only [HasColumn, columnsOf, dropIndexes, setTable, Function.update_self, Option.map_some,
      Option.getD_some, Relation.columnNames]
    exact List.mem_map_of_mem (List.mem_filter.mpr ⟨hkept, decide_eq_true hname⟩)
  · have hsame : after.columnsOf table = db.columnsOf table :=
      exec_columnsOf_of_ne h (fun _ => by simp) fun hsome => htable (Option.some.inj hsome)
    rwa [HasColumn, hsame]

theorem dropField_keeps_column {other : String} {field : Field}
    (hne : other = table → field.name ≠ column) :
    Tx.Steps (HasColumn table column) (KeepsColumn table column) (dropField server other field) := by
  refine .lift_bind fun statement hstatement => .bind ?_ fun _ =>
    .modify hasColumn_of_keeps fun _ _ h => h
  obtain ⟨_, -, hstatement⟩ := bind_eq_ok.mp hstatement
  obtain ⟨_, -, hstatement⟩ := bind_eq_ok.mp hstatement
  obtain ⟨_, -, hstatement⟩ := bind_eq_ok.mp hstatement
  obtain rfl := Except.ok.inj hstatement
  exact .run hasColumn_of_keeps fun _ _ _ hexec => mem_columnsOf_dropColumn hexec hne

/-! ### Updates -/

section Update

variable {existing : Collection} {input : UpdateCollection} {ids : ℕ → String}

/-- A column that is not dropped: it is declared or built in, where drops are asked for. -/
def Spared (existing : Collection) (input : UpdateCollection) (column : String) : Prop :=
  ∀ fields, input.fields = some fields → input.deleteMissingFields = true →
    column ∈ fields.map CreateField.name ∨ isBuiltinColumn existing.collectionType column = true

/-- The drops of an update keep the columns that are spared. -/
theorem dropMissing_keeps_column (hspared : existing.name = table → Spared existing input column) :
    Saga.Preserves (HasColumn table column) (dropMissing server existing input) := by
  unfold dropMissing
  split
  next fields hfields =>
    split_ifs with hdelete
    · refine .bind ?_ fun _ => .pure _
      unfold dropUndeclaredFields
      dsimp only
      split_ifs
      · exact .pure _
      · refine transaction_keeps_column (.bind (.forM fun field hfield => ?_) fun _ => .pure _)
        refine dropField_keeps_column fun hname heq => ?_
        obtain ⟨hundeclared, hown⟩ := List.mem_filter.mp hfield
        have hnot := (List.mem_filter.mp hundeclared).2
        rcases hspared hname fields hfields hdelete with hdeclared | hbuiltin
        · exact of_decide_eq_true hnot (heq ▸ hdeclared)
        · rw [heq, hbuiltin] at hown
          cases hown
    · exact .pure _
  next => exact .pure _

/-- **An update keeps the columns that are spared**, also where it fails. -/
theorem update_keeps_column {key : String} {db : Db}
    (hspared : ∀ existing, get db key = .ok existing → existing.name = table →
      Spared existing input column) (hmem : HasColumn table column db) :
    HasColumn table column (update sha server toQuery key input ids db).2 := by
  have hunlimited : ∀ a b : Db, True → Db.Step server (.unlimited False False) a b → True :=
    fun _ _ _ _ => trivial
  have hfieldStep : ∀ a b : Db, Db.FieldStep server (.unlimited False False) (fun _ => True) a b →
      Db.Step server (.unlimited False False) a b := fun _ _ h => h.step
  unfold update
  rw [(Saga.Quiet.read _).bind_apply, Saga.read_apply]
  cases hget : get db key with
  | error e => exact hmem
  | ok existing =>
    dsimp only
    split_ifs with htype
    · exact keepsColumn_of_steps
        (updateView_scoped (fun _ _ h _ => h) hunlimited trivial trivial input) db hmem
    · have hfields : Saga.Preserves (HasColumn table column)
          (applyFields sha server ids existing 0 (input.fields.getD [])) :=
        keepsColumn_of_steps (applyFields_scoped hfieldStep hunlimited
          (addresses_unlimited existing.name).reaches trivial (fun _ _ _ => trivial) 0
          fun _ _ => trivial)
      have hdrops : Saga.Preserves (HasColumn table column) (dropMissing server existing input) :=
        dropMissing_keeps_column (hspared existing hget)
      refine Saga.Preserves.bind (hfields.bind fun _ => hdrops)
        (fun _ => .bind (.read _) fun _ => .bind ?_ fun _ => .read _) db hmem
      exact keepsColumn_of_steps (transaction_scoped hfieldStep hunlimited
        (updateTransaction_scoped (fun _ _ h _ => h) hunlimited trivial _ _ _ _))

end Update

end LazyPock.Collections
