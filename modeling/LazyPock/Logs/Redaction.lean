import LazyPock.Core.JsonAlike
import LazyPock.Settings.Export

/-!
# Request bodies in the log

A small JSON body is stored with the log entry of its request, after the values under some keys are replaced
(`crates/api/src/logs.rs`). The keys are those of a list, in any case; what the settings of the same server
take for the name of a credential (`is_secret_name`) is a wider rule. Two bodies leave the same text exactly
when they differ under the keys of the list only.

How a body is parsed is a parameter.

## Main definitions

* `Logs.redact`, `Logs.redactedJson`.

## Main results

* `Logs.render_redact_eq_iff`: which values leave the same text.
* `Logs.redactedJson_eq_iff`.
-/

namespace LazyPock.Logs

open Text Json

/-- `SENSITIVE_KEYS` -/
def sensitiveKeys : List String :=
  ["password", "passwordconfirm", "password_confirm", "oldpassword", "newpassword", "token",
    "verificationtoken", "resettoken", "secret", "apikey", "api_key"]

/-- Whether the value under a key is replaced. -/
def isSensitive (key : String) : Bool := toAsciiLowercase key ∈ sensitiveKeys

mutual

/-- Replace the values of sensitive keys, recursively. -/
@[grind =]
def redact : Json → Json
  | .object entries => .object (redactEntries entries)
  | .array items => .array (redactItems items)
  | other => other

def redactItems : List Json → List Json
  | [] => []
  | v :: rest => redact v :: redactItems rest

def redactEntries : List (String × Json) → List (String × Json)
  | [] => []
  | (key, v) :: rest =>
    (key, if isSensitive key then .string "[REDACTED]" else redact v) :: redactEntries rest

end

/-- A parsed body. -/
structure Body where
  value : Json
  ordered : value.ordered = true
  inRange : value.inRange = true

/-- Parse a JSON body and redact the values of credential-looking keys. -/
def redactedJson (fromStr : String → Option Body) (text : String) : Option String :=
  (fromStr text).map fun body => (redact body.value).render

/-! ### What is kept of a value -/

theorem keys_redactEntries (entries : List (String × Json)) :
    (redactEntries entries).map Prod.fst = entries.map Prod.fst := by
  induction entries with
  | nil => rfl
  | cons e rest ih => rw [redactEntries, List.map_cons, List.map_cons, ih]

theorem mem_redactItems {items : List Json} {w : Json} (h : w ∈ redactItems items) :
    ∃ v ∈ items, w = redact v := by
  induction items with
  | nil => cases h
  | cons v rest ih =>
    rcases List.mem_cons.mp h with rfl | hrest
    · exact ⟨v, List.mem_cons_self, rfl⟩
    · obtain ⟨u, hu, rfl⟩ := ih hrest
      exact ⟨u, List.mem_cons_of_mem v hu, rfl⟩

theorem mem_redactEntries {entries : List (String × Json)} {e : String × Json}
    (h : e ∈ redactEntries entries) :
    e.2 = .string "[REDACTED]" ∨ ∃ f ∈ entries, e.2 = redact f.2 := by
  induction entries with
  | nil => cases h
  | cons f rest ih =>
    rcases List.mem_cons.mp h with rfl | hrest
    · simp only
      split_ifs
      · exact .inl rfl
      · exact .inr ⟨f, List.mem_cons_self, rfl⟩
    · exact (ih hrest).imp id fun hrest => hrest.imp fun g hg => ⟨List.mem_cons_of_mem f hg.1, hg.2⟩

theorem inRange_redact {v : Json} (h : v.inRange = true) : (redact v).inRange = true := by
  induction v using Json.induction with
  | null | bool | number | string => exact h
  | array items ih =>
    rw [inRange_array] at h
    rw [redact, inRange_array]
    intro w hw
    obtain ⟨v, hv, rfl⟩ := mem_redactItems hw
    exact ih v hv (h v hv)
  | object entries ih =>
    rw [inRange_object] at h
    rw [redact, inRange_object]
    intro e he
    rcases mem_redactEntries he with hhidden | ⟨f, hf, hvalue⟩
    · rw [hhidden]
      rfl
    · rw [hvalue]
      exact ih f hf (h f hf)

theorem ordered_redact {v : Json} (h : v.ordered = true) : (redact v).ordered = true := by
  induction v using Json.induction with
  | null | bool | number | string => exact h
  | array items ih =>
    rw [ordered_array] at h
    rw [redact, ordered_array]
    intro w hw
    obtain ⟨v, hv, rfl⟩ := mem_redactItems hw
    exact ih v hv (h v hv)
  | object entries ih =>
    obtain ⟨hsorted, hvalues⟩ := ordered_object.mp h
    refine ordered_object.mpr ⟨?_, fun e he => ?_⟩
    · rw [Assoc.Sorted, ← List.pairwise_map (f := Prod.fst) (R := (· < ·)), keys_redactEntries,
        List.pairwise_map]
      exact hsorted
    · rcases mem_redactEntries he with hhidden | ⟨f, hf, hvalue⟩
      · rw [hhidden]
        rfl
      · rw [hvalue]
        exact ih f hf (hvalues f hf)

/-! ### Which values leave the same text -/

/-- **What is kept of two values is alike** when they differ under sensitive keys only. -/
theorem alike_redact_iff {v w : Json} :
    Alike (fun _ => false) (redact v) (redact w) ↔ Alike isSensitive v w := by
  induction v using Json.induction generalizing w with
  | null | bool b | number m | string s => cases w <;> exact Iff.rfl
  | array items ih =>
    cases w with
    | array others =>
      change AlikeItems _ (redactItems items) (redactItems others) ↔ AlikeItems _ items others
      induction items generalizing others with
      | nil => cases others <;> exact Iff.rfl
      | cons a as iha =>
        cases others with
        | nil => exact Iff.rfl
        | cons b bs =>
          obtain ⟨ha, has⟩ := List.forall_mem_cons.mp ih
          exact and_congr ha (iha has bs)
    | _ => exact Iff.rfl
  | object entries ih =>
    cases w with
    | object others =>
      change AlikeEntries _ (redactEntries entries) (redactEntries others) ↔ AlikeEntries _ entries others
      induction entries generalizing others with
      | nil => cases others <;> exact Iff.rfl
      | cons a as iha =>
        cases others with
        | nil => exact Iff.rfl
        | cons b bs =>
          obtain ⟨ha, has⟩ := List.forall_mem_cons.mp ih
          refine and_congr_right fun hkey => and_congr ?_ (iha has bs)
          replace hkey : a.1 = b.1 := hkey
          simp only [Bool.false_eq_true, false_or, ← hkey]
          by_cases hsensitive : isSensitive a.1 = true
          · rw [if_pos hsensitive, if_pos hsensitive]
            exact iff_of_true rfl (.inl hsensitive)
          · rw [if_neg hsensitive, if_neg hsensitive, or_iff_right hsensitive]
            exact ha
    | _ => exact Iff.rfl

/-- **Two values leave the same text** when they differ under sensitive keys only. -/
theorem render_redact_eq_iff {v w : Json} (hv : v.ordered = true) (hw : w.ordered = true)
    (hvRange : v.inRange = true) (hwRange : w.inRange = true) :
    (redact v).render = (redact w).render ↔ Alike isSensitive v w :=
  (render_eq_iff (ordered_redact hv) (ordered_redact hw) (inRange_redact hvRange)
    (inRange_redact hwRange)).trans alike_redact_iff

/-- **When the log keeps nothing of the credentials**: two bodies that differ under the names of credentials
leave the same text when they differ under sensitive keys only. -/
theorem redactedJson_eq_iff (fromStr : String → Option Body) {text text' : String} {body body' : Body}
    (h : fromStr text = some body) (h' : fromStr text' = some body') :
    (Alike Settings.isSecretName body.value body'.value →
        redactedJson fromStr text = redactedJson fromStr text') ↔
      (Alike Settings.isSecretName body.value body'.value → Alike isSensitive body.value body'.value) := by
  refine imp_congr_right fun _ => ?_
  rw [redactedJson, redactedJson, h, h', Option.map_some, Option.map_some, Option.some.injEq]
  exact render_redact_eq_iff body.ordered body'.ordered body.inRange body'.inRange

/-- A reader of bodies: values with floats are left out. -/
def readBody (text : String) : Option Body :=
  (JsonText.fromStr (fun _ => none) text).toOption.bind fun v =>
    if h : v.ordered = true ∧ v.inRange = true then some ⟨v, h.1, h.2⟩ else none

/-- The body of a request for a new session. -/
def refreshBody (token : String) : Body := ⟨.object [("refreshToken", .string token)], rfl, rfl⟩

theorem readBody_refresh (token : String) :
    readBody (refreshBody token).value.render = some (refreshBody token) := by
  have hread := @JsonText.fromStr_render (fun _ => none) (refreshBody token).value rfl
  rw [readBody, hread]
  rfl

theorem refresh_alike (a b : String) :
    Alike Settings.isSecretName (refreshBody a).value (refreshBody b).value :=
  ⟨rfl, .inl (by decide), trivial⟩

/-- Two refresh tokens leave different texts. -/
theorem refreshToken_stored : ¬ ∀ (fromStr : String → Option Body) (text text' : String) (body body' : Body),
    fromStr text = some body → fromStr text' = some body' →
      Alike Settings.isSecretName body.value body'.value →
        redactedJson fromStr text = redactedJson fromStr text' := by
  intro h
  have hsame := h readBody _ _ _ _ (readBody_refresh "a") (readBody_refresh "b") (refresh_alike "a" "b")
  rw [redactedJson, redactedJson, readBody_refresh, readBody_refresh] at hsame
  revert hsame
  decide

/-- A password of a body that is redacted. -/
def passwordBody (password : String) : Body := ⟨.object [("Password", .string password)], rfl, rfl⟩

theorem readBody_password (password : String) :
    readBody (passwordBody password).value.render = some (passwordBody password) := by
  have hread := @JsonText.fromStr_render (fun _ => none) (passwordBody password).value rfl
  rw [readBody, hread]
  rfl

theorem password_redacted :
    readBody (passwordBody "a").value.render = some (passwordBody "a") ∧
      redactedJson readBody (passwordBody "a").value.render =
        redactedJson readBody (passwordBody "b").value.render :=
  ⟨readBody_password "a", (redactedJson_eq_iff readBody (readBody_password "a") (readBody_password "b")).mpr
    (fun _ => ⟨rfl, .inl (by decide), trivial⟩) ⟨rfl, .inl (by decide), trivial⟩⟩

end LazyPock.Logs
