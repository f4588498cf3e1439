import LazyPock.Settings.Export

/-!
# What a settings export tells

Two stored tables that agree in everything but the values under secret names and the text of
encrypted envelopes, and what their exports tell apart. The redaction decides by the last part of a
dotted path, and it goes into a container under a secret name instead of dropping it: the shape of
such a container is exported, and so is every value in it whose own key is no secret name.

## Main definitions

* `Settings.publicView`: what two tables agree in that differ in credentials only.
* `Settings.masked`: two values under a secret name that are exported alike.
* `Settings.covered`: everything under the secret names of two values is.

## Main results

* `Settings.redact_eq_iff`: which values are redacted to the same.
* `Settings.export_eq_iff`: exactly which pairs of tables are exported alike.
-/

namespace LazyPock.Settings

open Text

/-! ### Agreement up to credentials -/

/-- The text of an envelope is not part of what two tables agree in. -/
def publicText (text : String) : Json := .string (if isEncryptedEnvelope text then "v1:" else text)

/-- Nor is the value under a secret name. -/
def publicEntry (key : String) (view : Json) : String × Json :=
  (key, if isSecretName key then .null else view)

mutual

/-- A value without the credentials in it. -/
@[grind =]
def publicView : Json → Json
  | .object entries => .object (publicEntries entries)
  | .array items => .array (publicItems items)
  | .string text => publicText text
  | .null => .null
  | .bool b => .bool b
  | .number n => .number n

def publicItems : List Json → List Json
  | [] => []
  | item :: rest => publicView item :: publicItems rest

def publicEntries : List (String × Json) → List (String × Json)
  | [] => []
  | (key, value) :: rest => publicEntry key (publicView value) :: publicEntries rest

end

/-- **The application settings differ in credentials only.** -/
def Agree (s t : Table) : Prop :=
  publicView (.object (application s.rows)) = publicView (.object (application t.rows))

instance (s t : Table) : Decidable (Agree s t) := inferInstanceAs (Decidable (_ = _))

/-! ### Where they are exported alike -/

/-- Two values are the same, or both are scalars that the redaction replaces. -/
def maskedScalar (name : String) (v w : Json) : Bool :=
  decide (v = w) || (isScalar v && isScalar w && hidden name v && hidden name w)

mutual

/-- Two values have the same containers, keys and lengths, and where their scalars differ both are
replaced: by an envelope, or by the last part of the nearest key. -/
@[grind =]
def masked : String → Json → Json → Bool
  | _, .object entries, other =>
    match other with
    | .object others => maskedEntries entries others
    | .null | .bool _ | .number _ | .string _ | .array _ => false
  | name, .array items, other =>
    match other with
    | .array others => maskedItems name items others
    | .null | .bool _ | .number _ | .string _ | .object _ => false
  | name, .null, other => maskedScalar name .null other
  | name, .bool b, other => maskedScalar name (.bool b) other
  | name, .number n, other => maskedScalar name (.number n) other
  | name, .string text, other => maskedScalar name (.string text) other

@[grind =]
def maskedItems : String → List Json → List Json → Bool
  | _, [], others => others.isEmpty
  | name, item :: rest, others =>
    match others with
    | [] => false
    | other :: others => masked name item other && maskedItems name rest others

@[grind =]
def maskedEntries : List (String × Json) → List (String × Json) → Bool
  | [], others => others.isEmpty
  | (key, value) :: rest, others =>
    match others with
    | [] => false
    | (key', value') :: others =>
      key == key' && masked (leaf key) value value' && maskedEntries rest others

end

mutual

/-- Wherever a key of two values is a secret name, the values under it are masked. -/
@[grind =]
def covered : Json → Json → Bool
  | .object entries, other =>
    match other with
    | .object others => coveredEntries entries others
    | .null | .bool _ | .number _ | .string _ | .array _ => true
  | .array items, other =>
    match other with
    | .array others => coveredItems items others
    | .null | .bool _ | .number _ | .string _ | .object _ => true
  | .null, _ => true
  | .bool _, _ => true
  | .number _, _ => true
  | .string _, _ => true

def coveredItems : List Json → List Json → Bool
  | [], _ => true
  | item :: rest, others =>
    match others with
    | [] => true
    | other :: others => covered item other && coveredItems rest others

def coveredEntries : List (String × Json) → List (String × Json) → Bool
  | [], _ => true
  | (key, value) :: rest, others =>
    match others with
    | [] => true
    | (_, value') :: others =>
      cond (isSecretName key) (masked (leaf key) value value') (covered value value') &&
        coveredEntries rest others

end

/-- Everything the application settings hold under secret names is exported alike. -/
def Covered (s t : Table) : Prop :=
  covered (.object (application s.rows)) (.object (application t.rows)) = true

instance (s t : Table) : Decidable (Covered s t) := inferInstanceAs (Decidable (_ = _))

/-! ### Paths -/

theorem leaf_child (path key : String) : leaf (path ++ "." ++ key) = leaf key := by
  have hlist : (path ++ "." ++ key).toList = path.toList ++ '.' :: key.toList := by simp
  obtain ⟨piece, rest, hpieces⟩ := List.exists_cons_of_ne_nil (splitChars_ne_nil '.' key.toList)
  simp only [leaf, splitOn, hlist, splitChars_append_cons, List.map_append]
  rw [hpieces, List.map_cons, List.getLast?_append_cons, List.getLast?_cons]
  simp

/-- A redaction depends on the last part of the path only. -/
theorem redact_congr {p q : String} (h : leaf p = leaf q) (v : Json) :
    (redact p v).1 = (redact q v).1 := by
  induction v using Json.induction generalizing p q with
  | array items ih =>
    rw [redact_array, redact_array, Json.array.injEq]
    exact List.map_congr_left fun v hv => ih v hv h
  | object entries ih =>
    rw [redact_object, redact_object, Json.object.injEq]
    refine List.map_congr_left fun e he => ?_
    have hchild : leaf (p ++ "." ++ e.1) = leaf (q ++ "." ++ e.1) := by rw [leaf_child, leaf_child]
    rw [ih e he hchild]
  | null | bool b | number n | string text =>
    rw [redact_scalar rfl, redact_scalar rfl, h]

/-- A scalar is never redacted to a container. -/
theorem isScalar_redact (path : String) (v : Json) : isScalar (redact path v).1 = isScalar v := by
  cases v with
  | array items => rw [redact_array]; rfl
  | object entries => rw [redact_object]; rfl
  | null | bool b | number n | string text =>
    rw [redact_scalar rfl]
    split_ifs <;> rfl

/-! ### What is redacted to the same -/

section Redaction

variable {path : String}

theorem redact_scalar_eq_iff {v : Json} (h : isScalar v = true) (w : Json) :
    (redact path v).1 = (redact path w).1 ↔ maskedScalar (leaf path) v w = true := by
  by_cases hw : isScalar w = true
  · rw [redact_scalar h, redact_scalar hw, maskedScalar, h, hw]
    by_cases hv' : hidden (leaf path) v = true <;> by_cases hw' : hidden (leaf path) w = true
    · simp [hv', hw']
    · have hne : v ≠ w := by
        rintro rfl
        exact hw' hv'
      have hnull : w ≠ .null := by
        rintro rfl
        exact hw' rfl
      simp [hv', hw', hne, hnull.symm]
    · have hne : v ≠ w := by
        rintro rfl
        exact hv' hw'
      have hnull : v ≠ .null := by
        rintro rfl
        exact hv' rfl
      simp [hv', hw', hne, hnull]
    · simp [hv', hw']
  · have hne : v ≠ w := by
      rintro rfl
      exact hw h
    refine iff_of_false (fun heq => hw ?_) (by simp [maskedScalar, hne, hw])
    rw [← isScalar_redact path w, ← heq, isScalar_redact path v, h]

theorem maskedItems_iff {items : List Json}
    (ih : ∀ v ∈ items, ∀ w,
      (redact path v).1 = (redact path w).1 ↔ masked (leaf path) v w = true) (others : List Json) :
    items.map (fun v => (redact path v).1) = others.map (fun v => (redact path v).1) ↔
      maskedItems (leaf path) items others = true := by
  induction items generalizing others with
  | nil => cases others <;> simp [maskedItems]
  | cons v rest ihrest =>
    cases others with
    | nil => simp [maskedItems]
    | cons w others =>
      obtain ⟨hv, hrest⟩ := List.forall_mem_cons.mp ih
      rw [maskedItems, List.map_cons, List.map_cons, List.cons.injEq, Bool.and_eq_true, hv,
        ihrest hrest]

theorem maskedEntries_iff {entries : List (String × Json)}
    (ih : ∀ e ∈ entries, ∀ (path : String) (w : Json),
      (redact path e.2).1 = (redact path w).1 ↔ masked (leaf path) e.2 w = true)
    (others : List (String × Json)) :
    entries.map (fun e => (e.1, (redact (path ++ "." ++ e.1) e.2).1)) =
        others.map (fun e => (e.1, (redact (path ++ "." ++ e.1) e.2).1)) ↔
      maskedEntries entries others = true := by
  induction entries generalizing others with
  | nil => cases others <;> simp [maskedEntries]
  | cons e rest ihrest =>
    cases others with
    | nil => simp [maskedEntries]
    | cons f others =>
      obtain ⟨he, hrest⟩ := List.forall_mem_cons.mp ih
      rw [maskedEntries, List.map_cons, List.map_cons, List.cons.injEq, Bool.and_eq_true,
        ihrest hrest, Prod.mk.injEq, Bool.and_eq_true, beq_iff_eq]
      refine and_congr_left fun _ => and_congr_right fun hkey => ?_
      rw [← hkey, he, leaf_child]

/-- **Two values are redacted to the same where they are masked.** -/
theorem redact_eq_iff (path : String) (v w : Json) :
    (redact path v).1 = (redact path w).1 ↔ masked (leaf path) v w = true := by
  induction v using Json.induction generalizing path w with
  | array items ih =>
    rw [redact_array]
    cases w with
    | array others =>
      rw [redact_array, Json.array.injEq, maskedItems_iff fun v hv w => ih v hv path w, masked]
    | object others => simp [redact_object, masked]
    | null | bool b | number n | string text =>
      rw [redact_scalar rfl, masked]
      split_ifs <;> simp
  | object entries ih =>
    rw [redact_object]
    cases w with
    | object others => rw [redact_object, Json.object.injEq, maskedEntries_iff ih, masked]
    | array others => simp [redact_array, masked]
    | null | bool b | number n | string text =>
      rw [redact_scalar rfl, masked]
      split_ifs <;> simp
  | null | bool b | number n | string text =>
    rw [redact_scalar_eq_iff rfl, masked]

/-! ### What agreement leaves -/

theorem publicItems_eq (items : List Json) : publicItems items = items.map publicView := by
  induction items with
  | nil => rfl
  | cons v rest ih => rw [publicItems, List.map_cons, ih]

theorem publicEntries_eq (entries : List (String × Json)) :
    publicEntries entries = entries.map fun e => publicEntry e.1 (publicView e.2) := by
  induction entries with
  | nil => rfl
  | cons e rest ih => rw [publicEntries, List.map_cons, ih]

theorem publicView_array (items : List Json) :
    publicView (.array items) = .array (items.map publicView) := by
  rw [publicView, publicItems_eq]

theorem publicView_object (entries : List (String × Json)) :
    publicView (.object entries) =
      .object (entries.map fun e => publicEntry e.1 (publicView e.2)) := by
  rw [publicView, publicEntries_eq]

/-- Two texts that agree are the same, or both are envelopes. -/
theorem of_publicText {a b : String} (h : publicText a = publicText b) :
    a = b ∨ isEncryptedEnvelope a = true ∧ isEncryptedEnvelope b = true := by
  have hmark : isEncryptedEnvelope "v1:" = true := by decide
  rw [publicText, publicText, Json.string.injEq] at h
  split_ifs at h with ha hb hb
  · exact .inr ⟨ha, hb⟩
  · exact absurd (h ▸ hmark) hb
  · exact absurd (h ▸ hmark) ha
  · exact .inl h

/-- Two scalars that agree are exported alike. -/
theorem redact_of_publicView {v w : Json} (hv : isScalar v = true)
    (h : publicView v = publicView w) : (redact path v).1 = (redact path w).1 := by
  cases v with
  | array items => cases hv
  | object entries => cases hv
  | null | bool b | number n =>
    cases w <;> cases h
    rfl
  | string text =>
    cases w with
    | string other =>
      rw [publicView, publicView] at h
      rcases of_publicText h with rfl | ⟨htext, hother⟩
      · rfl
      · rw [redact_scalar rfl, redact_scalar rfl, hidden, hidden, htext, hother]
        rfl
    | null | bool b | number n | array items | object entries =>
      cases h

theorem coveredItems_iff {items : List Json}
    (ih : ∀ v ∈ items, ∀ w, publicView v = publicView w →
      ((redact path v).1 = (redact path w).1 ↔ covered v w = true)) {others : List Json}
    (h : items.map publicView = others.map publicView) :
    items.map (fun v => (redact path v).1) = others.map (fun v => (redact path v).1) ↔
      coveredItems items others = true := by
  induction items generalizing others with
  | nil =>
    have hothers : others = [] := List.map_eq_nil_iff.mp h.symm
    simp [coveredItems, hothers]
  | cons v rest ihrest =>
    cases others with
    | nil => cases h
    | cons w others =>
      obtain ⟨hv, hrest⟩ := List.forall_mem_cons.mp ih
      obtain ⟨hview, hviews⟩ := List.cons.inj h
      rw [coveredItems, List.map_cons, List.map_cons, List.cons.injEq, Bool.and_eq_true,
        hv w hview, ihrest hrest hviews]

theorem coveredEntries_iff {entries : List (String × Json)}
    (ih : ∀ e ∈ entries, ∀ (path : String) (w : Json), publicView e.2 = publicView w →
      ((redact path e.2).1 = (redact path w).1 ↔ covered e.2 w = true))
    {others : List (String × Json)}
    (h : entries.map (fun e => publicEntry e.1 (publicView e.2)) =
      others.map (fun e => publicEntry e.1 (publicView e.2))) :
    entries.map (fun e => (e.1, (redact (path ++ "." ++ e.1) e.2).1)) =
        others.map (fun e => (e.1, (redact (path ++ "." ++ e.1) e.2).1)) ↔
      coveredEntries entries others = true := by
  induction entries generalizing others with
  | nil =>
    have hothers : others = [] := List.map_eq_nil_iff.mp h.symm
    simp [coveredEntries, hothers]
  | cons e rest ihrest =>
    cases others with
    | nil => cases h
    | cons f others =>
      obtain ⟨he, hrest⟩ := List.forall_mem_cons.mp ih
      obtain ⟨hentry, hentries⟩ := List.cons.inj h
      simp only [publicEntry, Prod.mk.injEq] at hentry
      obtain ⟨hkey, hview⟩ := hentry
      rw [coveredEntries, List.map_cons, List.map_cons, List.cons.injEq, Bool.and_eq_true,
        ihrest hrest hentries, Prod.mk.injEq, and_iff_right hkey, ← hkey]
      refine and_congr_left fun _ => ?_
      -- under a secret name the two values may differ in anything
      cases hsecret : isSecretName e.1 with
      | true => rw [cond_true, redact_eq_iff, leaf_child]
      | false =>
        simp only [← hkey, hsecret] at hview
        rw [cond_false, he _ _ hview]

/-- **Two values that agree are exported alike where they are covered.** -/
theorem redact_eq_iff_covered (path : String) {v w : Json} (h : publicView v = publicView w) :
    (redact path v).1 = (redact path w).1 ↔ covered v w = true := by
  induction v using Json.induction generalizing path w with
  | array items ih =>
    cases w with
    | array others =>
      rw [publicView_array, publicView_array, Json.array.injEq] at h
      rw [redact_array, redact_array, Json.array.injEq, covered,
        coveredItems_iff (fun v hv _ hview => ih v hv path hview) h]
    | null | bool b | number n | string text | object others => cases h
  | object entries ih =>
    cases w with
    | object others =>
      rw [publicView_object, publicView_object, Json.object.injEq] at h
      rw [redact_object, redact_object, Json.object.injEq, covered,
        coveredEntries_iff (fun e he path _ hview => ih e he path hview) h]
    | null | bool b | number n | string text | array others => cases h
  | null | bool b | number n | string text =>
    exact iff_of_true (redact_of_publicView rfl h) (by rw [covered])

end Redaction

/-! ### Two exports -/

section Exports

variable (s t : Table)

/-- The exported settings are those of one redacted object. -/
theorem settings_eq_iff :
    (exportSettings s.rows).settings = (exportSettings t.rows).settings ↔
      (redact "" (.object (application s.rows))).1 =
        (redact "" (.object (application t.rows))).1 := by
  have hrow (rows : List (String × Json)) : (exportSettings rows).settings =
      (application rows).map fun e => (e.1, (redact ("" ++ "." ++ e.1) e.2).1) :=
    List.map_congr_left fun e _ => by rw [redact_congr (leaf_child "" e.1)]
  rw [redact_object, redact_object, Json.object.injEq, hrow, hrow]

/-- **The export of two tables that differ in credentials only is the same exactly where everything
under a secret name is covered**; the internal keys never come in. -/
theorem export_eq_iff :
    (application s.rows = application t.rows → exportSettings s.rows = exportSettings t.rows) ∧
    (Agree s t → ((exportSettings s.rows).settings = (exportSettings t.rows).settings ↔
      Covered s t)) := by
  constructor
  · intro h
    rw [exportSettings, exportSettings, h]
  · intro h
    rw [settings_eq_iff, redact_eq_iff_covered "" h, Covered]

/-- The mail settings with a password. -/
def mailWith (password : String) : Table where
  rows := [("auth.signing_key", .string password),
    ("mail", .object [("host", .string "smtp.example.com"), ("password", .string password)])]
  sorted := by
    have hkeys : "auth.signing_key" < "mail" := by decide
    simpa [Assoc.Sorted] using hkeys
  ordered := by
    have hkeys : "host" < "password" := by decide
    simpa [Json.ordered, Json.orderedEntries, Assoc.Sorted] using hkeys
  nonNull := by simp

theorem export_mailWith :
    (exportSettings (mailWith "one").rows).settings =
      (exportSettings (mailWith "two").rows).settings :=
  ((export_eq_iff (mailWith "one") (mailWith "two")).2 (by decide)).mpr (by decide)

/-- A deploy key among the secrets of the storage. -/
def storageWith (deploy : String) : Table where
  rows := [("storage", .object [("secrets", .object [("deploy", .string deploy)])])]
  sorted := by simp [Assoc.Sorted]
  ordered := by simp [Json.ordered, Json.orderedEntries, Assoc.Sorted]
  nonNull := by simp

/-- What an object under a secret name holds is exported: its own keys are no secret names. -/
theorem export_storageWith_ne : Agree (storageWith "abc") (storageWith "xyz") ∧
    (exportSettings (storageWith "abc").rows).settings ≠
      (exportSettings (storageWith "xyz").rows).settings := by
  decide

end Exports

end LazyPock.Settings
