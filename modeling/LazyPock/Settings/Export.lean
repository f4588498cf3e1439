import LazyPock.Core.Error
import LazyPock.Core.Json

/-!
# The settings as a document

`crates/api/src/settings.rs`: the export of the application settings, which replaces every credential
by `null`, and the import, which merges a document over the stored settings and keeps what is `null`
in it. The redaction goes through objects and arrays, the merge through objects only: an array that
holds a credential comes back without it. Whether a value is a credential is told from the last part
of its path, so that a container under a secret name is exported with what it holds
(`Settings.Secrecy`).

## Main definitions

* `Settings.Table`: the stored settings.
* `Settings.redact`, `Settings.exportSettings`.
* `Settings.mergeKeep`, `Settings.importSettings`.
* `Settings.ArraysClear`: no array holds a credential.

## Main results

* `Settings.mergeKeep_mergeKeep`: a merge made twice is the merge made once.
* `Settings.import_export_iff`: exactly when an import of the export changes nothing.
-/

namespace LazyPock.Settings

open Text Assoc

/-! ### The stored settings -/

/-- The rows of `_settings`, by key: none of them holds `null`. -/
structure Table where
  rows : List (String × Json)
  sorted : Sorted rows
  ordered : ∀ e ∈ rows, e.2.ordered = true
  nonNull : ∀ e ∈ rows, e.2 ≠ .null

/-- Whether a key belongs to lazypock rather than to the application. -/
def isInternal (key : String) : Bool := startsWith "auth." key

/-! ### Export -/

/-- Whether a key name marks its value as a credential. -/
def isSecretName (key : String) : Bool :=
  let key := toAsciiLowercase key
  contains "password" key || contains "secret" key || endsWith "token" key ||
    endsWith "api_key" key || endsWith "signing_key" key || key = "private_key"

/-- Whether a string is the envelope of an encrypted value. -/
def isEncryptedEnvelope (value : String) : Bool := startsWith "v1:" value

/-- The last part of a dotted path. -/
def leaf (path : String) : String := (splitOn '.' path).getLast?.getD path

/-- Replace a value other than a container, an envelope apart. -/
def redactLeaf (path : String) (value : Json) : Json × List String :=
  if isSecretName (leaf path) then (.null, [path]) else (value, [])

def redactText (path text : String) : Json × List String :=
  if isEncryptedEnvelope text then (.null, [path]) else redactLeaf path (.string text)

mutual

/-- Replace credential values with `null`, recording the path of each. -/
@[grind =]
def redact : String → Json → Json × List String
  | path, .object entries =>
    (.object (redactEntries path entries).1, (redactEntries path entries).2)
  | path, .array items => (.array (redactItems path items).1, (redactItems path items).2)
  | path, .string text => redactText path text
  | path, .null => redactLeaf path .null
  | path, .bool b => redactLeaf path (.bool b)
  | path, .number n => redactLeaf path (.number n)

@[grind =]
def redactItems : String → List Json → List Json × List String
  | _, [] => ([], [])
  | path, item :: rest =>
    ((redact path item).1 :: (redactItems path rest).1,
      (redact path item).2 ++ (redactItems path rest).2)

@[grind =]
def redactEntries : String → List (String × Json) → List (String × Json) × List String
  | _, [] => ([], [])
  | path, (key, value) :: rest =>
    let child := path ++ "." ++ key
    ((key, (redact child value).1) :: (redactEntries path rest).1,
      (redact child value).2 ++ (redactEntries path rest).2)

end

/-- The version of the settings export document. -/
def exportVersion : ℕ := 1

/-- The settings as a portable document. -/
structure Document where
  version : ℕ
  settings : List (String × Json)
  /-- The paths that were redacted. -/
  secrets : List String
deriving DecidableEq

/-- The rows an export is of. -/
def application (rows : List (String × Json)) : List (String × Json) :=
  rows.filter fun row => !isInternal row.1

/-- The application settings with every credential redacted. -/
def exportSettings (rows : List (String × Json)) : Document :=
  { version := exportVersion
    settings := (application rows).map fun row => (row.1, (redact row.1 row.2).1)
    secrets := (application rows).flatMap fun row => (redact row.1 row.2).2 }

/-! ### Import -/

mutual

/-- Merge an imported setting over the stored one, treating `null` as "keep". -/
@[grind =]
def mergeKeep : Json → Json → Json
  | .object stored, .object imported => .object (mergeEntries stored imported)
  | stored, .null => stored
  | _, imported => imported

@[grind =]
def mergeEntries : List (String × Json) → List (String × Json) → List (String × Json)
  | merged, [] => merged
  | merged, (key, value) :: rest =>
    let next := match lookup key merged with
      | some existing => mergeKeep existing value
      | none => value
    mergeEntries (insert key next merged) rest

end

/-- What an import leaves, and what it reports. -/
structure Imported where
  rows : List (String × Json)
  imported : List String
  skipped : List String
deriving DecidableEq

/-- What an import makes of a setting: nothing where there is nothing to write. -/
def mergedRow (stored : Option Json) (value : Json) : Option Json :=
  let merged := mergeKeep (stored.getD .null) value
  if merged = .null then none else some merged

/-- Import settings one after another. -/
@[grind =]
def importRows : List (String × Json) → List (String × Json) → Result Imported
  | rows, [] => .ok ⟨rows, [], []⟩
  | rows, (key, value) :: rest => do
    failIf (isInternal key) (.invalid (debug key ++
      " is lazypock's own setting and cannot be written through the settings API"))
    match mergedRow (lookup key rows) value with
    | none => do
      let others ← importRows rows rest
      .ok { others with skipped := key :: others.skipped }
    | some merged => do
      let others ← importRows (insert key merged rows) rest
      .ok { others with imported := key :: others.imported }

/-- Apply a settings document over the stored settings. -/
def importSettings (rows : List (String × Json)) (body : Document) : Result Imported := do
  failIf (body.version ≠ exportVersion) (.invalid ("this settings file is version " ++
    toString body.version ++ ", but this server reads version " ++ toString exportVersion))
  importRows rows body.settings

/-! ### Where a round trip loses something -/

/-- Whether a value other than a container is exported as `null`, under a name. -/
@[grind =]
def hidden (name : String) : Json → Bool
  | .string text => isEncryptedEnvelope text || isSecretName name
  | .null => true
  | .bool _ | .number _ | .array _ | .object _ => isSecretName name

mutual

/-- Whether a redaction leaves a value as it is. -/
@[grind =]
def plain : String → Json → Bool
  | path, .object entries => plainEntries path entries
  | path, .array items => plainItems path items
  | _, .null => true
  | path, .bool b => !hidden (leaf path) (.bool b)
  | path, .number n => !hidden (leaf path) (.number n)
  | path, .string text => !hidden (leaf path) (.string text)

@[grind =]
def plainItems : String → List Json → Bool
  | _, [] => true
  | path, item :: rest => plain path item && plainItems path rest

@[grind =]
def plainEntries : String → List (String × Json) → Bool
  | _, [] => true
  | path, (key, value) :: rest => plain (path ++ "." ++ key) value && plainEntries path rest

end

mutual

/-- Whether no array in a value holds a credential. -/
@[grind =]
def arraysClear : String → Json → Bool
  | path, .object entries => arraysClearEntries path entries
  | path, .array items => plainItems path items
  | _, .null | _, .bool _ | _, .number _ | _, .string _ => true

@[grind =]
def arraysClearEntries : String → List (String × Json) → Bool
  | _, [] => true
  | path, (key, value) :: rest =>
    arraysClear (path ++ "." ++ key) value && arraysClearEntries path rest

end

/-- No array of the application settings holds a credential. -/
def ArraysClear (rows : List (String × Json)) : Prop :=
  ∀ row ∈ application rows, arraysClear row.1 row.2 = true

/-! ### What a redaction leaves -/

section Redaction

variable {path : String} {items : List Json} {entries : List (String × Json)}

/-- A value that is neither an array nor an object. -/
@[grind =]
def isScalar : Json → Bool
  | .array _ | .object _ => false
  | _ => true

theorem redact_scalar {v : Json} (h : isScalar v = true) (path : String) :
    (redact path v).1 = if hidden (leaf path) v then .null else v := by
  cases v with
  | array items => cases h
  | object entries => cases h
  | null =>
    rw [redact, redactLeaf]
    split_ifs <;> rfl
  | string text =>
    rw [redact, redactText, redactLeaf, hidden]
    by_cases henvelope : isEncryptedEnvelope text = true
    · simp [henvelope]
    · simp only [henvelope, Bool.false_or]
      split_ifs <;> first | rfl | contradiction
  | bool b | number n =>
    rw [redact, redactLeaf, hidden]
    split_ifs <;> rfl

theorem redact_array (path : String) (items : List Json) :
    (redact path (.array items)).1 = .array (items.map fun v => (redact path v).1) := by
  have hitems : (redactItems path items).1 = items.map fun v => (redact path v).1 := by
    induction items with
    | nil => rfl
    | cons v rest ih => rw [redactItems, List.map_cons, ih]
  rw [redact, hitems]

theorem redact_object (path : String) (entries : List (String × Json)) :
    (redact path (.object entries)).1 =
      .object (entries.map fun e => (e.1, (redact (path ++ "." ++ e.1) e.2).1)) := by
  have hentries : (redactEntries path entries).1 =
      entries.map fun e => (e.1, (redact (path ++ "." ++ e.1) e.2).1) := by
    induction entries with
    | nil => rfl
    | cons e rest ih => rw [redactEntries, List.map_cons, ih]
  rw [redact, hentries]

theorem plain_array : plain path (.array items) = true ↔ ∀ v ∈ items, plain path v = true := by
  rw [plain]
  induction items with
  | nil => simp [plainItems]
  | cons v rest ih => rw [plainItems, Bool.and_eq_true, ih, List.forall_mem_cons]

theorem plain_object :
    plain path (.object entries) = true ↔
      ∀ e ∈ entries, plain (path ++ "." ++ e.1) e.2 = true := by
  rw [plain]
  induction entries with
  | nil => simp [plainEntries]
  | cons e rest ih => rw [plainEntries, Bool.and_eq_true, ih, List.forall_mem_cons]

theorem arraysClear_object :
    arraysClear path (.object entries) = true ↔
      ∀ e ∈ entries, arraysClear (path ++ "." ++ e.1) e.2 = true := by
  rw [arraysClear]
  induction entries with
  | nil => simp [arraysClearEntries]
  | cons e rest ih => rw [arraysClearEntries, Bool.and_eq_true, ih, List.forall_mem_cons]

theorem map_eq_self {α : Type} {f : α → α} {l : List α} : l.map f = l ↔ ∀ a ∈ l, f a = a := by
  have h := List.map_inj_left (f := f) (g := id) (l := l)
  rwa [List.map_id] at h

/-- **A redaction leaves a value as it is where nothing in it is hidden.** -/
theorem redact_eq_self (path : String) (v : Json) :
    (redact path v).1 = v ↔ plain path v = true := by
  induction v using Json.induction generalizing path with
  | array items ih =>
    rw [redact_array, Json.array.injEq, plain_array, map_eq_self]
    exact forall₂_congr fun v hv => ih v hv path
  | object entries ih =>
    rw [redact_object, Json.object.injEq, plain_object, map_eq_self]
    refine forall₂_congr fun e he => ?_
    rw [← ih e he, Prod.ext_iff]
    exact and_iff_right rfl
  | null =>
    rw [redact_scalar rfl, plain]
    split_ifs <;> simp
  | bool b | number n | string text =>
    rw [redact_scalar rfl, plain]
    split_ifs with h <;> simp [h]

end Redaction

/-! ### What a merge leaves -/

section Merge

/-- What a merge makes of one entry. -/
@[grind =]
def mergedEntry (stored : Option Json) (value : Json) : Option Json :=
  some (match stored with
    | some existing => mergeKeep existing value
    | none => value)

theorem mergeEntries_eq (merged imported : List (String × Json)) :
    mergeEntries merged imported = updateAll mergedEntry merged imported := by
  induction imported generalizing merged with
  | nil => rfl
  | cons e rest ih =>
    rw [mergeEntries, ih]
    rfl

theorem mergeKeep_null (v : Json) : mergeKeep v .null = v := by
  cases v <;> rfl

theorem mergeKeep_scalar {v : Json} (h : isScalar v = true) : mergeKeep v v = v := by
  cases v <;> first | rfl | cases h

theorem mergeKeep_array (v : Json) (items : List Json) :
    mergeKeep v (.array items) = .array items := by
  cases v <;> rfl

theorem mergeKeep_ne_null {stored imported : Json} (h : imported ≠ .null) :
    mergeKeep stored imported ≠ .null := by
  cases imported with
  | null => exact absurd rfl h
  | bool _ | number _ | string _ | array _ => cases stored <;> simp [mergeKeep]
  | object entries => cases stored <;> simp [mergeKeep]

/-- A value merged with itself. -/
theorem mergeKeep_self {v : Json} (h : v.ordered = true) : mergeKeep v v = v := by
  induction v using Json.induction with
  | array items _ => exact mergeKeep_array _ items
  | object entries ih =>
    obtain ⟨hsorted, hentries⟩ := Json.ordered_object.mp h
    rw [mergeKeep, Json.object.injEq, mergeEntries_eq, hsorted.updateAll_eq_self hsorted]
    intro e he
    rw [hsorted.lookup_eq_some.mpr he, mergedEntry, Option.some_or, ih e he (hentries e he)]
  | null | bool b | number n | string text => exact mergeKeep_scalar rfl

/-- **A merge made twice is the merge made once.** -/
theorem mergeKeep_mergeKeep {stored imported : Json} (hstored : stored.ordered = true)
    (himported : imported.ordered = true) :
    mergeKeep (mergeKeep stored imported) imported = mergeKeep stored imported := by
  induction imported using Json.induction generalizing stored with
  | null => rw [mergeKeep_null]
  | bool _ | number _ | string _ => cases stored <;> rfl
  | array items _ => rw [mergeKeep_array, mergeKeep_array]
  | object entries ih =>
    have hself := mergeKeep_self himported
    obtain ⟨hsorted, hentries⟩ := Json.ordered_object.mp himported
    cases stored with
    | object old =>
      obtain ⟨hold, holds⟩ := Json.ordered_object.mp hstored
      simp only [mergeKeep, mergeEntries_eq]
      rw [hold.updateAll_updateAll hsorted]
      intro e he
      dsimp only
      cases hlookup : lookup e.1 old with
      | none => simp only [mergedEntry, Option.some_or, mergeKeep_self (hentries e he)]
      | some existing =>
        have hexisting := holds _ (mem_of_lookup hlookup)
        simp only [mergedEntry, Option.some_or, ih e he hexisting (hentries e he)]
    | null | bool _ | number _ | string _ | array _ => exact hself

/-- **A redaction merged over a value gives it back where no array in it holds a credential.** -/
theorem mergeKeep_redact {v : Json} (h : v.ordered = true) (path : String) :
    mergeKeep v (redact path v).1 = v ↔ arraysClear path v = true := by
  induction v using Json.induction generalizing path with
  | array items _ =>
    rw [redact_array, mergeKeep_array, ← redact_array, redact_eq_self, plain, arraysClear]
  | object entries ih =>
    obtain ⟨hsorted, hentries⟩ := Json.ordered_object.mp h
    have hredacted := hsorted.map fun key value => (redact (path ++ "." ++ key) value).1
    rw [redact_object, mergeKeep, Json.object.injEq, mergeEntries_eq,
      hsorted.updateAll_eq_self hredacted, List.forall_mem_map, arraysClear_object]
    refine forall₂_congr fun e he => ?_
    rw [hsorted.lookup_eq_some.mpr he, mergedEntry, Option.some_or, Option.some.injEq,
      ih e he (hentries e he)]
  | null | bool b | number n | string text =>
    rw [redact_scalar rfl, arraysClear]
    split_ifs
    · simp [mergeKeep_null]
    · exact iff_of_true (mergeKeep_scalar rfl) rfl

end Merge

/-! ### The round trip -/

section RoundTrip

variable {doc : List (String × Json)}

/-- An import of application settings updates the rows one by one. -/
theorem importRows_eq (rows : List (String × Json)) (hdoc : ∀ e ∈ doc, isInternal e.1 = false) :
    ∃ result, importRows rows doc = .ok result ∧
      result.rows = updateAll mergedRow rows doc := by
  induction doc generalizing rows with
  | nil => exact ⟨_, rfl, rfl⟩
  | cons e rest ih =>
    obtain ⟨he, hrest⟩ := List.forall_mem_cons.mp hdoc
    have hfree : ¬ isInternal e.1 = true := by simp [he]
    cases hmerged : mergedRow (lookup e.1 rows) e.2 with
    | none =>
      obtain ⟨result, hresult, hrows⟩ := ih rows hrest
      refine ⟨{ result with skipped := e.1 :: result.skipped }, ?_, ?_⟩
      · rw [importRows, failIf, if_neg hfree]
        simp only [hmerged, hresult]
        rfl
      · rw [hrows]
        simp only [updateAll, List.foldl_cons, hmerged]
    | some merged =>
      obtain ⟨result, hresult, hrows⟩ := ih (insert e.1 merged rows) hrest
      refine ⟨{ result with imported := e.1 :: result.imported }, ?_, ?_⟩
      · rw [importRows, failIf, if_neg hfree]
        simp only [hmerged, hresult]
        rfl
      · rw [hrows]
        simp only [updateAll, List.foldl_cons, hmerged]

/-- What an import makes of a row it has made before. -/
theorem mergedRow_mergedRow {stored : Option Json} {value : Json}
    (hstored : ∀ v, stored = some v → v.ordered = true) (hvalue : value.ordered = true) :
    (mergedRow ((mergedRow stored value).or stored) value).or ((mergedRow stored value).or stored) =
      (mergedRow stored value).or stored := by
  have hordered : (stored.getD .null).ordered = true := by
    cases stored with
    | none => rfl
    | some v => exact hstored v rfl
  by_cases hnull : mergeKeep (stored.getD .null) value = .null
  · have hnone : mergedRow stored value = none := by simp [mergedRow, hnull]
    simp only [hnone, Option.none_or]
  · have hsome : mergedRow stored value = some (mergeKeep (stored.getD .null) value) := by
      simp [mergedRow, hnull]
    have htwice := mergeKeep_mergeKeep hordered hvalue
    simp only [hsome, Option.some_or]
    simp [mergedRow, htwice, hnull]

/-- A redacted value is well-formed. -/
theorem ordered_redact {v : Json} (h : v.ordered = true) (path : String) :
    (redact path v).1.ordered = true := by
  induction v using Json.induction generalizing path with
  | array items ih =>
    rw [redact_array, Json.ordered_array, List.forall_mem_map]
    exact fun v hv => ih v hv (Json.ordered_array.mp h v hv) path
  | object entries ih =>
    obtain ⟨hsorted, hentries⟩ := Json.ordered_object.mp h
    rw [redact_object, Json.ordered_object, List.forall_mem_map]
    exact ⟨hsorted.map fun key value => (redact (path ++ "." ++ key) value).1,
      fun e he => ih e he (hentries e he) _⟩
  | null | bool b | number n | string text =>
    rw [redact_scalar rfl]
    split_ifs <;> rfl

/-- **An import of the export changes nothing exactly where no array holds a credential**, and
the import made twice is the import made once. -/
theorem import_export_iff (s : Table) :
    ∃ once twice, importSettings s.rows (exportSettings s.rows) = .ok once ∧
      importSettings once.rows (exportSettings s.rows) = .ok twice ∧ twice.rows = once.rows ∧
      (once.rows = s.rows ↔ ArraysClear s.rows) := by
  let doc := (exportSettings s.rows).settings
  have happlication : Sorted (application s.rows) := s.sorted.filter _
  have hdoc : Sorted doc := happlication.map fun key value => (redact key value).1
  have hpublic : ∀ e ∈ doc, isInternal e.1 = false := by
    intro e he
    obtain ⟨row, hrow, rfl⟩ := List.mem_map.mp he
    simpa using (List.mem_filter.mp hrow).2
  have himport : ∀ rows, importSettings rows (exportSettings s.rows) = importRows rows doc := by
    intro rows
    rfl
  obtain ⟨once, honce, hrows⟩ := importRows_eq s.rows hpublic
  obtain ⟨twice, htwice, hrows'⟩ := importRows_eq once.rows hpublic
  refine ⟨once, twice, (himport _).trans honce, (himport _).trans htwice, ?_, ?_⟩
  · rw [hrows', hrows]
    refine s.sorted.updateAll_updateAll hdoc fun e he => ?_
    obtain ⟨row, hrow, rfl⟩ := List.mem_map.mp he
    have hmem : row ∈ s.rows := List.mem_of_mem_filter hrow
    refine mergedRow_mergedRow (fun v hv => ?_) (ordered_redact (s.ordered row hmem) _)
    exact s.ordered _ (mem_of_lookup hv)
  · rw [hrows, s.sorted.updateAll_eq_self hdoc, ArraysClear]
    have hrow : ∀ row ∈ application s.rows,
        ((mergedRow (lookup row.1 s.rows) (redact row.1 row.2).1).or
          (lookup row.1 s.rows) = lookup row.1 s.rows ↔
            arraysClear row.1 row.2 = true) := by
      intro row hrow
      have hmem : row ∈ s.rows := List.mem_of_mem_filter hrow
      have hmerged : mergeKeep row.2 (redact row.1 row.2).1 ≠ .null := by
        by_cases hnull : (redact row.1 row.2).1 = .null
        · rw [hnull, mergeKeep_null]
          exact s.nonNull row hmem
        · exact mergeKeep_ne_null hnull
      rw [s.sorted.lookup_eq_some.mpr hmem, ← mergeKeep_redact (s.ordered row hmem)]
      simp [mergedRow, hmerged]
    constructor
    · exact fun h row hmem => (hrow row hmem).mp (h _ (List.mem_map_of_mem hmem))
    · intro h e he
      obtain ⟨row, hmem, rfl⟩ := List.mem_map.mp he
      exact (hrow row hmem).mpr (h row hmem)

/-- A list of services, each with its token. -/
def webhooks : Table where
  rows := [("webhooks", .array [.object [("token", .string "t0ken"), ("url", .string "https://a.b")]])]
  sorted := by decide
  ordered := by decide
  nonNull := by decide

/-- The tokens of a list are lost: the import stores the redacted list. -/
theorem import_export_webhooks_ne :
    (importSettings webhooks.rows (exportSettings webhooks.rows)).map Imported.rows ≠
      .ok webhooks.rows := by
  decide

end RoundTrip

end LazyPock.Settings
