import LazyPock.Core.JsonText

/-!
# JSON values that differ in places

Two values that are the same but for what stands under some keys, of any shape and at any depth. Two numbers
are the same where their texts are. Values print the same text exactly when they are the same with no key
left out.

## Main definitions

* `Json.Alike`: values that differ only under some keys.
* `Json.retext`: a value with each float replaced by one that is chosen for its text.

## Main results

* `Json.render_eq_iff`: values that print the same text.
-/

namespace LazyPock.Json

open Text

section Alike

variable (hidden : String → Bool)

mutual

/-- Two values that differ only under the hidden keys. -/
def Alike : Json → Json → Prop
  | null, null => True
  | bool a, bool b => a = b
  | number a, number b => renderNumber a = renderNumber b
  | string a, string b => a = b
  | array a, array b => AlikeItems a b
  | object a, object b => AlikeEntries a b
  | _, _ => False

def AlikeItems : List Json → List Json → Prop
  | [], [] => True
  | a :: as, b :: bs => Alike a b ∧ AlikeItems as bs
  | _, _ => False

def AlikeEntries : List (String × Json) → List (String × Json) → Prop
  | [], [] => True
  | (k, a) :: as, (l, b) :: bs => k = l ∧ (hidden k = true ∨ Alike a b) ∧ AlikeEntries as bs
  | _, _ => False

end

end Alike

/-! ### Values of one text -/

section Retext

variable (pick : String → F64)

def retextNumber : JsonNumber → JsonNumber
  | .float x => .float (pick (renderFloat x))
  | m => m

mutual

/-- Each float replaced by the one that is picked for its text. -/
def retext : Json → Json
  | null => null
  | bool b => bool b
  | number m => number (retextNumber pick m)
  | string s => string s
  | array items => array (retextItems items)
  | object entries => object (retextEntries entries)

def retextItems : List Json → List Json
  | [] => []
  | v :: rest => retext v :: retextItems rest

def retextEntries : List (String × Json) → List (String × Json)
  | [] => []
  | (k, v) :: rest => (k, retext v) :: retextEntries rest

end

theorem keys_retextEntries (entries : List (String × Json)) :
    (retextEntries pick entries).map Prod.fst = entries.map Prod.fst := by
  induction entries with
  | nil => rfl
  | cons e rest ih => rw [retextEntries, List.map_cons, List.map_cons, ih]

/-- Items are read again where the reader goes deep enough for each of them. -/
theorem rereadItems_retext {items : List Json}
    (h : ∀ v ∈ items, ∃ depth, ∀ n ≥ depth, v.reread (some ∘ pick) n = some (v.retext pick)) :
    ∃ depth, ∀ n ≥ depth, rereadItems (some ∘ pick) n items = some (retextItems pick items) := by
  induction items with
  | nil => exact ⟨0, fun n _ => rfl⟩
  | cons v rest ih =>
    obtain ⟨hv, hrest⟩ := List.forall_mem_cons.mp h
    obtain ⟨depth, hdepth⟩ := hv
    obtain ⟨depth', hdepth'⟩ := ih hrest
    refine ⟨max depth depth', fun n hn => ?_⟩
    rw [rereadItems, hdepth n (by omega), hdepth' n (by omega)]
    rfl

theorem rereadEntries_retext {entries : List (String × Json)}
    (h : ∀ e ∈ entries, ∃ depth, ∀ n ≥ depth, e.2.reread (some ∘ pick) n = some (e.2.retext pick)) :
    ∃ depth, ∀ n ≥ depth, rereadEntries (some ∘ pick) n entries = some (retextEntries pick entries) := by
  induction entries with
  | nil => exact ⟨0, fun n _ => rfl⟩
  | cons e rest ih =>
    obtain ⟨hv, hrest⟩ := List.forall_mem_cons.mp h
    obtain ⟨depth, hdepth⟩ := hv
    obtain ⟨depth', hdepth'⟩ := ih hrest
    refine ⟨max depth depth', fun n hn => ?_⟩
    rw [rereadEntries, hdepth n (by omega), hdepth' n (by omega)]
    rfl

/-- **A printed value is read again** by a reader that goes deep enough. -/
theorem exists_reread {v : Json} (h : v.ordered = true) :
    ∃ depth, ∀ n ≥ depth, v.reread (some ∘ pick) n = some (v.retext pick) := by
  induction v using Json.induction with
  | null => exact ⟨0, fun n _ => by cases n <;> rfl⟩
  | bool b => exact ⟨0, fun n _ => by cases n <;> rfl⟩
  | number m => exact ⟨0, fun n _ => by cases m <;> cases n <;> rfl⟩
  | string s => exact ⟨0, fun n _ => by cases n <;> rfl⟩
  | array items ih =>
    rw [ordered_array] at h
    obtain ⟨depth, hdepth⟩ := rereadItems_retext pick fun v hv => ih v hv (h v hv)
    refine ⟨depth + 1, fun n hn => ?_⟩
    obtain ⟨n, rfl⟩ := Nat.exists_eq_add_of_le' (Nat.le_trans (Nat.le_add_left 1 depth) hn)
    rw [reread, hdepth n (by omega), retext]
    rfl
  | object entries ih =>
    obtain ⟨hsorted, hvalues⟩ := ordered_object.mp h
    obtain ⟨depth, hdepth⟩ := rereadEntries_retext pick fun e he => ih e he (hvalues e he)
    have hkeys : Assoc.Sorted (retextEntries pick entries) := by
      rw [Assoc.Sorted, ← List.pairwise_map (f := Prod.fst) (R := (· < ·)), keys_retextEntries,
        List.pairwise_map]
      exact hsorted
    refine ⟨depth + 1, fun n hn => ?_⟩
    obtain ⟨n, rfl⟩ := Nat.exists_eq_add_of_le' (Nat.le_trans (Nat.le_add_left 1 depth) hn)
    rw [reread, hdepth n (by omega), Option.map_some, insertAll_nil hkeys, retext]

/-- Values that print the same text are the same once their floats are picked. -/
theorem retext_eq_of_render {v w : Json} (hv : v.ordered = true) (hw : w.ordered = true)
    (hvRange : v.inRange = true) (hwRange : w.inRange = true) (h : v.render = w.render) :
    v.retext pick = w.retext pick := by
  obtain ⟨depth, hdepth⟩ := exists_reread pick hv
  obtain ⟨depth', hdepth'⟩ := exists_reread pick hw
  have hread := @JsonText.readValue_render (some ∘ pick) v hvRange (max depth depth') []
    (by simp [JsonText.Stops])
  have hread' := @JsonText.readValue_render (some ∘ pick) w hwRange (max depth depth') []
    (by simp [JsonText.Stops])
  rw [hdepth _ (by omega)] at hread
  rw [hdepth' _ (by omega), ← h, hread] at hread'
  simpa using hread'

end Retext

/-! ### Values that print the same text -/

section

variable {hidden : String → Bool}

/-- A float that has a text. -/
noncomputable def pickFloat (text : String) : F64 :=
  open Classical in if h : ∃ x : F64, renderFloat x = text then h.choose else .nan

theorem renderFloat_pickFloat (x : F64) : renderFloat (pickFloat (renderFloat x)) = renderFloat x := by
  have h : ∃ y : F64, renderFloat y = renderFloat x := ⟨x, rfl⟩
  rw [pickFloat, dif_pos h]
  exact h.choose_spec

theorem alikeItems_of_retext {as bs : List Json}
    (h : ∀ a ∈ as, ∀ b, a.retext pickFloat = b.retext pickFloat → Alike hidden a b)
    (heq : retextItems pickFloat as = retextItems pickFloat bs) : AlikeItems hidden as bs := by
  induction as generalizing bs with
  | nil =>
    cases bs with
    | nil => trivial
    | cons b bs => cases heq
  | cons a as ih =>
    cases bs with
    | nil => cases heq
    | cons b bs =>
      obtain ⟨ha, has⟩ := List.forall_mem_cons.mp h
      obtain ⟨hfirst, hrest⟩ := List.cons.inj heq
      exact ⟨ha b hfirst, ih has hrest⟩

theorem alikeEntries_of_retext {as bs : List (String × Json)}
    (h : ∀ a ∈ as, ∀ b, a.2.retext pickFloat = b.retext pickFloat → Alike hidden a.2 b)
    (heq : retextEntries pickFloat as = retextEntries pickFloat bs) : AlikeEntries hidden as bs := by
  induction as generalizing bs with
  | nil =>
    cases bs with
    | nil => trivial
    | cons b bs => cases heq
  | cons a as ih =>
    cases bs with
    | nil => cases heq
    | cons b bs =>
      obtain ⟨ha, has⟩ := List.forall_mem_cons.mp h
      obtain ⟨hfirst, hrest⟩ := List.cons.inj heq
      obtain ⟨hkey, hvalue⟩ := Prod.mk.inj hfirst
      exact ⟨hkey, .inr (ha b.2 hvalue), ih has hrest⟩

theorem renderNumber_of_retext {m n : JsonNumber} (h : retextNumber pickFloat m = retextNumber pickFloat n) :
    renderNumber m = renderNumber n := by
  cases m with
  | posInt a =>
    cases n with
    | posInt b => exact congrArg renderNumber h
    | _ => cases h
  | negInt a =>
    cases n with
    | negInt b => exact congrArg renderNumber h
    | _ => cases h
  | float x =>
    cases n with
    | float y =>
      have hpick := congrArg renderFloat (JsonNumber.float.inj h)
      rwa [renderFloat_pickFloat, renderFloat_pickFloat] at hpick
    | _ => cases h

theorem alike_of_retext {v w : Json} (h : v.retext pickFloat = w.retext pickFloat) : Alike hidden v w := by
  induction v using Json.induction generalizing w with
  | null => cases w <;> trivial
  | bool b =>
    cases w with
    | bool c => exact bool.inj h
    | _ => cases h
  | number m =>
    cases w with
    | number n => exact renderNumber_of_retext (number.inj h)
    | _ => cases h
  | string s =>
    cases w with
    | string t => exact string.inj h
    | _ => cases h
  | array items ih =>
    cases w with
    | array others => exact alikeItems_of_retext (fun v hv w => ih v hv) (array.inj h)
    | _ => cases h
  | object entries ih =>
    cases w with
    | object others => exact alikeEntries_of_retext (fun e he w => ih e he) (object.inj h)
    | _ => cases h

/-- Values that are alike with nothing hidden print the same text. -/
theorem render_of_alike {v w : Json} (h : Alike (fun _ => false) v w) : v.render = w.render := by
  induction v using Json.induction generalizing w with
  | null => cases w <;> first | rfl | cases h
  | bool b =>
    cases w with
    | bool c => rw [show b = c from h]
    | _ => cases h
  | number m =>
    cases w with
    | number n => exact h
    | _ => cases h
  | string s =>
    cases w with
    | string t => rw [show s = t from h]
    | _ => cases h
  | array items ih =>
    cases w with
    | array others =>
      have hitems : renderList items = renderList others := by
        replace h : AlikeItems (fun _ => false) items others := h
        induction items generalizing others with
        | nil =>
          cases others with
          | nil => rfl
          | cons b bs => cases h
        | cons a as iha =>
          cases others with
          | nil => cases h
          | cons b bs =>
            obtain ⟨ha, has⟩ := List.forall_mem_cons.mp ih
            rw [renderList, renderList, ha h.1, iha has bs h.2]
      rw [render, render, hitems]
    | _ => cases h
  | object entries ih =>
    cases w with
    | object others =>
      have hentries : renderEntries entries = renderEntries others := by
        replace h : AlikeEntries (fun _ => false) entries others := h
        induction entries generalizing others with
        | nil =>
          cases others with
          | nil => rfl
          | cons b bs => cases h
        | cons a as iha =>
          cases others with
          | nil => cases h
          | cons b bs =>
            obtain ⟨ha, has⟩ := List.forall_mem_cons.mp ih
            obtain ⟨hkey, hvalue, hrest⟩ := h
            have hsame := ha (hvalue.resolve_left Bool.false_ne_true)
            rw [renderEntries, renderEntries, hkey, hsame, iha has bs hrest]
      rw [render, render, hentries]
    | _ => cases h

/-- **Values print the same text** when they are the same, their numbers compared by their texts. -/
theorem render_eq_iff {v w : Json} (hv : v.ordered = true) (hw : w.ordered = true)
    (hvRange : v.inRange = true) (hwRange : w.inRange = true) :
    v.render = w.render ↔ Alike (fun _ => false) v w :=
  ⟨fun h => alike_of_retext (retext_eq_of_render pickFloat hv hw hvRange hwRange h), render_of_alike⟩

end

end LazyPock.Json
