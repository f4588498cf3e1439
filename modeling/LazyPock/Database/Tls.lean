import LazyPock.Core.Text

/-!
# The TLS request of a database address

Two functions of `crates/db/src/pool.rs` read the TLS request of an address. `tls_mode` decides how the pool
connects, and `normalize_url` writes the address that the driver parses. The first reads the first `sslmode`
in any case, with the spaces around its value cut; the second passes every `sslmode` on as it stands, and the
last one counts for the driver, which knows three values in one spelling.

How the driver takes a parameter that is no TLS request is a parameter.

## Main definitions

* `Database.normalizeUrl`, `Database.sslmode`, `Database.tlsMode`.
* `Database.driverMode`: what the driver reads of an address.
* `Database.AsksPlainly`: the addresses on which the two readers agree.

## Main results

* `Database.sslmode_eq`: which parameter `sslmode` reads.
* `Database.driverMode_normalizeUrl`: which parameters the driver reads.
* `Database.tlsMode_agrees_iff`.
-/

namespace LazyPock.Database

open Text List

/-! ### Parameters -/

/-- The pairs behind the first `?`. -/
@[grind =]
def queryPairs (url : String) : List String :=
  match splitOnce '?' url with
  | none => []
  | some (_, query) => splitOn '&' query

/-- The key and the value of a pair, which may have no value. -/
def keyValue (pair : String) : String × String := (splitOnce '=' pair).getD (pair, "")

/-- A pair under a key in any case. -/
def IsNamed (name pair : String) : Prop := toAsciiLowercase (keyValue pair).1 = name

instance (name pair : String) : Decidable (IsNamed name pair) := inferInstanceAs (Decidable (_ = _))

/-! ### The address for the driver -/

/-- What is collected of the pairs. -/
structure Rewriting where
  params : List String
  hasSslmode : Bool
  ssl : Option String

def Rewriting.add (r : Rewriting) (pair : String) : Rewriting :=
  if IsNamed "sslmode" pair then { r with hasSslmode := true, params := r.params ++ [pair] }
  else if IsNamed "ssl" pair then { r with ssl := some (keyValue pair).2 }
  else if IsNamed "channel_binding" pair then r
  else { r with params := r.params ++ [pair] }

/-- The value of `sslmode` for a value of `ssl`. -/
def sslAlias (value : String) : String :=
  if toAsciiLowercase value = "true" ∨ value = "1" then "require" else value

/-- The parameters that are passed on. -/
def Rewriting.finish (r : Rewriting) : List String :=
  match if r.hasSslmode then none else r.ssl with
  | none => r.params
  | some value => r.params ++ ["sslmode=" ++ sslAlias value]

/-- Rewrite an address into the shape that the driver parses. -/
def normalizeUrl (url : String) : String :=
  match splitOnce '?' url with
  | none => url
  | some (base, query) =>
    match ((splitOn '&' query).foldl Rewriting.add ⟨[], false, none⟩).finish with
    | [] => base
    | param :: params => base ++ "?" ++ join "&" (param :: params)

/-! ### The mode of the pool -/

inductive TlsMode where
  /-- Plaintext. -/
  | disabled
  /-- TLS with full certificate verification. -/
  | required
deriving DecidableEq

/-- A value without spaces around it, in lower case. -/
def modeText (value : String) : String := toAsciiLowercase (trim value)

/-- The loop of `sslmode`: the first `sslmode`, or else the last `ssl`. -/
@[grind =]
def sslmodeFrom (ssl : Option String) : List String → Option String
  | [] => ssl.map fun value => if value = "true" ∨ value = "1" then "require" else value
  | pair :: pairs =>
    if IsNamed "sslmode" pair then some (modeText (keyValue pair).2)
    else if IsNamed "ssl" pair then sslmodeFrom (some (modeText (keyValue pair).2)) pairs
    else sslmodeFrom ssl pairs

/-- The `sslmode` parameter of an address. -/
def sslmode (url : String) : Option String := sslmodeFrom none (queryPairs url)

/-- Whether an address requires TLS. -/
def tlsMode (url : String) : TlsMode :=
  if sslmode url = some "require" ∨ sslmode url = some "verify-ca" ∨
      sslmode url = some "verify-full" then .required
  else .disabled

/-! ### The driver -/

/-- `SslMode` of the driver. -/
inductive SslMode where
  | disable
  | prefer
  | require
deriving DecidableEq

def SslMode.ofText : String → Option SslMode
  | "disable" => some .disable
  | "prefer" => some .prefer
  | "require" => some .require
  | _ => none

section Driver

variable (accepts : String → Bool)

/-- The driver reads the parameters: the key `sslmode` in lower case, with one of the three values; the last
one counts. What it accepts under a key that is not `sslmode` in some case is a parameter. -/
def driverPairs (mode : SslMode) : List String → Option SslMode
  | [] => some mode
  | pair :: pairs =>
    if (keyValue pair).1 = "sslmode" then
      (SslMode.ofText (keyValue pair).2).bind fun next => driverPairs next pairs
    else if IsNamed "sslmode" pair then none
    else if accepts pair then driverPairs mode pairs
    else none

/-- The mode that the driver reads of an address, unless it rejects the address. -/
def driverMode (url : String) : Option SslMode := driverPairs accepts .prefer (queryPairs url)

end Driver

/-! ### Where the readers agree -/

/-- The pairs that the driver is given: all but `ssl` and `channel_binding`. -/
def keptPairs (pairs : List String) : List String :=
  pairs.filter fun pair => ¬ IsNamed "ssl" pair ∧ ¬ IsNamed "channel_binding" pair

def modePairs (pairs : List String) : List String := pairs.filter fun pair => IsNamed "sslmode" pair

def sslPairs (pairs : List String) : List String := pairs.filter fun pair => IsNamed "ssl" pair

/-- The driver takes a pair. -/
def Accepted (accepts : String → Bool) (pair : String) : Prop :=
  if (keyValue pair).1 = "sslmode" then (SslMode.ofText (keyValue pair).2).isSome = true
  else ¬ IsNamed "sslmode" pair ∧ accepts pair = true

/-- A value of `sslmode` that asks for TLS. -/
def AsksTls (value : String) : Prop := modeText value ∈ ["require", "verify-ca", "verify-full"]

/-- A value of `ssl` that asks for TLS. -/
def SslAsksTls (value : String) : Prop :=
  modeText value ∈ ["true", "1", "require", "verify-ca", "verify-full"]

/-- The TLS request is spelled for both readers: the first `sslmode` asks for TLS exactly when the driver
takes every pair and the last `sslmode` is `require`; and where there is only `ssl`, the last one asks for
TLS only in a spelling that is passed on as `require`, and beside pairs that the driver takes. -/
def AsksPlainly (accepts : String → Bool) (pairs : List String) : Prop :=
  match (modePairs pairs).head?, (modePairs pairs).getLast?, (sslPairs pairs).getLast? with
  | some first, some last, _ =>
    AsksTls (keyValue first).2 ↔
      (∀ pair ∈ keptPairs pairs, Accepted accepts pair) ∧ (keyValue last).2 = "require"
  | _, _, some last =>
    SslAsksTls (keyValue last).2 →
      (∀ pair ∈ keptPairs pairs, Accepted accepts pair) ∧ sslAlias (keyValue last).2 = "require"
  | _, _, none => True

/-! ### What each reader reads -/

section Readers

variable {pairs : List String} {accepts : String → Bool} {mode : SslMode}

theorem not_ssl_of_sslmode {pair : String} (h : IsNamed "sslmode" pair) : ¬ IsNamed "ssl" pair := by
  intro hssl
  have heq : "sslmode" = "ssl" := Eq.trans (Eq.symm h) hssl
  exact absurd heq (by decide)

theorem not_binding_of_sslmode {pair : String} (h : IsNamed "sslmode" pair) :
    ¬ IsNamed "channel_binding" pair := by
  intro hbinding
  have heq : "sslmode" = "channel_binding" := Eq.trans (Eq.symm h) hbinding
  exact absurd heq (by decide)

/-- **Which parameter `sslmode` reads.** -/
theorem sslmodeFrom_eq (ssl : Option String) (pairs : List String) :
    sslmodeFrom ssl pairs =
      match (modePairs pairs).head? with
      | some first => some (modeText (keyValue first).2)
      | none =>
        sslmodeFrom (((sslPairs pairs).getLast?.map fun last => modeText (keyValue last).2) <|> ssl) [] := by
  induction pairs generalizing ssl with
  | nil => rfl
  | cons pair pairs ih =>
    by_cases hmode : IsNamed "sslmode" pair
    · have hmodes : modePairs (pair :: pairs) = pair :: modePairs pairs :=
        filter_cons_of_pos (decide_eq_true hmode)
      rw [hmodes, List.head?_cons]
      exact if_pos hmode
    · have hmodes : modePairs (pair :: pairs) = modePairs pairs :=
        filter_cons_of_neg (by simpa using hmode)
      rw [hmodes]
      by_cases hssl : IsNamed "ssl" pair
      · have hssls : sslPairs (pair :: pairs) = pair :: sslPairs pairs :=
          filter_cons_of_pos (decide_eq_true hssl)
        have hstep : sslmodeFrom ssl (pair :: pairs) = sslmodeFrom (some (modeText (keyValue pair).2)) pairs :=
          (if_neg hmode).trans (if_pos hssl)
        rw [hstep, ih, hssls, List.getLast?_cons]
        cases (sslPairs pairs).getLast? <;> rfl
      · have hssls : sslPairs (pair :: pairs) = sslPairs pairs :=
          filter_cons_of_neg (by simpa using hssl)
        have hstep : sslmodeFrom ssl (pair :: pairs) = sslmodeFrom ssl pairs :=
          (if_neg hmode).trans (if_neg hssl)
        rw [hstep, ih, hssls]

/-- What is collected of the pairs. -/
theorem foldl_add (r : Rewriting) (pairs : List String) :
    pairs.foldl Rewriting.add r =
      ⟨r.params ++ keptPairs pairs, r.hasSslmode || !(modePairs pairs).isEmpty,
        ((sslPairs pairs).getLast?.map fun last => (keyValue last).2) <|> r.ssl⟩ := by
  induction pairs generalizing r with
  | nil => simp [keptPairs, modePairs, sslPairs]
  | cons pair pairs ih =>
    rw [foldl_cons, ih, Rewriting.add]
    by_cases hmode : IsNamed "sslmode" pair
    · have hssl := not_ssl_of_sslmode hmode
      have hbinding := not_binding_of_sslmode hmode
      simp [keptPairs, modePairs, sslPairs, hmode, hssl, hbinding]
    · by_cases hssl : IsNamed "ssl" pair
      · have hssls : sslPairs (pair :: pairs) = pair :: sslPairs pairs :=
          filter_cons_of_pos (decide_eq_true hssl)
        have hkept : keptPairs (pair :: pairs) = keptPairs pairs :=
          filter_cons_of_neg (by simp [hssl])
        have hmodes : modePairs (pair :: pairs) = modePairs pairs :=
          filter_cons_of_neg (by simpa using hmode)
        rw [if_neg hmode, if_pos hssl, hssls, hkept, hmodes, List.getLast?_cons]
        cases (sslPairs pairs).getLast? <;> rfl
      · by_cases hbinding : IsNamed "channel_binding" pair
        · simp [keptPairs, modePairs, sslPairs, hmode, hssl, hbinding]
        · simp [keptPairs, modePairs, sslPairs, hmode, hssl, hbinding]

/-- The pairs of the address that the driver parses. -/
@[grind =]
def normalizedPairs (pairs : List String) : List String :=
  match (modePairs pairs).head?, (sslPairs pairs).getLast? with
  | none, some last => keptPairs pairs ++ ["sslmode=" ++ sslAlias (keyValue last).2]
  | _, _ => keptPairs pairs

theorem finish_foldl_add (pairs : List String) :
    (pairs.foldl Rewriting.add ⟨[], false, none⟩).finish = normalizedPairs pairs := by
  rw [foldl_add, normalizedPairs, Rewriting.finish]
  cases modePairs pairs with
  | nil => cases (sslPairs pairs).getLast? <;> rfl
  | cons first rest => rfl

theorem ofText_eq_require_iff {text : String} {next : SslMode} (h : SslMode.ofText text = some next) :
    next = .require ↔ text = "require" := by
  rw [SslMode.ofText.eq_def] at h
  split at h <;> cases h <;> decide

/-- **Which parameters the driver takes**, and which of them it reads. -/
theorem driverPairs_eq_require_iff :
    driverPairs accepts mode pairs = some .require ↔
      (∀ pair ∈ pairs, Accepted accepts pair) ∧
        (match (modePairs pairs).getLast? with
          | some last => (keyValue last).2 = "require"
          | none => mode = .require) := by
  induction pairs generalizing mode with
  | nil => simp [driverPairs, modePairs]
  | cons pair pairs ih =>
    rw [driverPairs, forall_mem_cons, Accepted]
    by_cases hkey : (keyValue pair).1 = "sslmode"
    · have hmode : IsNamed "sslmode" pair := by
        rw [IsNamed, hkey]
        decide
      have hmodes : modePairs (pair :: pairs) = pair :: modePairs pairs :=
        filter_cons_of_pos (decide_eq_true hmode)
      rw [if_pos hkey, if_pos hkey, hmodes, List.getLast?_cons]
      cases hnext : SslMode.ofText (keyValue pair).2 with
      | none => simp
      | some next =>
        have hrequire := ofText_eq_require_iff hnext
        rw [Option.bind_some, ih]
        cases (modePairs pairs).getLast? with
        | none => simp [hrequire]
        | some last => simp
    · rw [if_neg hkey, if_neg hkey]
      by_cases hmode : IsNamed "sslmode" pair
      · simp [hmode]
      · have hmodes : modePairs (pair :: pairs) = modePairs pairs :=
          filter_cons_of_neg (by simpa using hmode)
        rw [if_neg hmode, hmodes]
        by_cases haccepts : accepts pair = true
        · rw [if_pos haccepts, ih]
          simp [hmode, haccepts]
        · simp [haccepts]

/-! ### The address between them -/

theorem notMem_of_mem_splitChars {sep : Char} {cs piece : List Char} (h : piece ∈ splitChars sep cs) :
    sep ∉ piece := by
  induction cs generalizing piece with
  | nil =>
    rw [mem_singleton.mp h]
    exact not_mem_nil
  | cons c cs ih =>
    rw [splitChars] at h
    split_ifs at h with hc
    · rcases mem_cons.mp h with rfl | h
      · exact not_mem_nil
      · exact ih h
    · obtain ⟨first, rest, hfirst⟩ := exists_cons_of_ne_nil (splitChars_ne_nil sep cs)
      simp only [hfirst] at h ih
      rcases mem_cons.mp h with rfl | h
      · exact not_mem_cons_of_ne_of_not_mem (Ne.symm hc) (ih mem_cons_self)
      · exact ih (mem_cons_of_mem _ h)

theorem amp_notMem_of_mem_queryPairs {url pair : String} (h : pair ∈ queryPairs url) :
    '&' ∉ pair.toList := by
  rw [queryPairs] at h
  cases hsplit : splitOnce '?' url with
  | none => simp [hsplit] at h
  | some cut =>
    rw [hsplit] at h
    obtain ⟨piece, hpiece, rfl⟩ := mem_map.mp h
    rw [String.toList_ofList]
    exact notMem_of_mem_splitChars hpiece

theorem amp_notMem_value {pair : String} (h : '&' ∉ pair.toList) : '&' ∉ (keyValue pair).2.toList := by
  rw [keyValue]
  cases hsplit : splitOnce '=' pair with
  | none => simp
  | some cut =>
    obtain ⟨key, value⟩ := cut
    intro hmem
    rw [(splitOnce_eq_some.mp hsplit).1] at h
    exact h (mem_append_right _ (mem_cons_of_mem _ hmem))

theorem amp_notMem_sslAlias {value : String} (h : '&' ∉ value.toList) :
    '&' ∉ ("sslmode=" ++ sslAlias value).toList := by
  rw [sslAlias, String.toList_append, mem_append, not_or]
  refine ⟨by decide, ?_⟩
  split_ifs
  · decide
  · exact h

theorem amp_notMem_normalizedPairs {url param : String} (h : param ∈ normalizedPairs (queryPairs url)) :
    '&' ∉ param.toList := by
  have hkept : ∀ {p : String}, p ∈ keptPairs (queryPairs url) → '&' ∉ p.toList := fun hp =>
    amp_notMem_of_mem_queryPairs (mem_filter.mp hp).1
  rw [normalizedPairs] at h
  split at h
  · rename_i last _ hlast
    rcases mem_append.mp h with h | h
    · exact hkept h
    · rw [mem_singleton.mp h]
      have hmem : last ∈ queryPairs url := (mem_filter.mp (mem_of_getLast? hlast)).1
      exact amp_notMem_sslAlias (amp_notMem_value (amp_notMem_of_mem_queryPairs hmem))
  · exact hkept h

/-- **The pairs of the address that the driver parses.** -/
theorem queryPairs_normalizeUrl (url : String) :
    queryPairs (normalizeUrl url) = normalizedPairs (queryPairs url) := by
  have hamp : ∀ param ∈ normalizedPairs (queryPairs url), '&' ∉ param.toList :=
    fun _ h => amp_notMem_normalizedPairs h
  cases hsplit : splitOnce '?' url with
  | none =>
    have hurl : normalizeUrl url = url := by rw [normalizeUrl, hsplit]
    have hpairs : queryPairs url = [] := by rw [queryPairs, hsplit]
    rw [hurl, hpairs]
    rfl
  | some cut =>
    obtain ⟨base, query⟩ := cut
    have hbase := (splitOnce_eq_some.mp hsplit).2
    have hpairs : queryPairs url = splitOn '&' query := by rw [queryPairs, hsplit]
    rw [normalizeUrl, hsplit]
    simp only [finish_foldl_add, ← hpairs]
    cases hparams : normalizedPairs (queryPairs url) with
    | nil =>
      have hnone : splitOnce '?' base = none := by
        rw [splitOnce, Option.map_eq_none_iff, Option.eq_none_iff_forall_ne_some]
        intro cut heq
        apply hbase
        rw [splitOnceChars_eq_some heq]
        exact mem_append_right _ mem_cons_self
      simp only [queryPairs, hnone]
    | cons param params =>
      have hcut : splitOnce '?' (base ++ "?" ++ join "&" (param :: params)) =
          some (base, join "&" (param :: params)) := by
        refine splitOnce_eq_some.mpr ⟨?_, hbase⟩
        simp
      rw [hparams] at hamp
      simp only [queryPairs, hcut]
      exact splitOn_join (by decide) (by simp) hamp

/-- **Which parameters the driver reads** of an address. -/
theorem driverMode_normalizeUrl (accepts : String → Bool) (url : String) :
    driverMode accepts (normalizeUrl url) = driverPairs accepts .prefer (normalizedPairs (queryPairs url)) := by
  rw [driverMode, queryPairs_normalizeUrl]

end Readers

/-! ### Agreement -/

section Agreement

theorem isWhitespace_of_toLower {c : Char} (h : isWhitespace c.toLower = false) : isWhitespace c = false := by
  rw [isWhitespace, toNat_toLower] at h
  rw [isWhitespace]
  split_ifs at h with hupper
  · grind
  · exact h

/-- A value in a spelling that has no space around it. -/
theorem modeText_of_toAsciiLowercase {value text : String} (h : toAsciiLowercase value = text)
    (htext : ∀ c ∈ text.toList, isWhitespace c = false) : modeText value = text := by
  have htrim : trim value = value := by
    refine trim_of_forall fun c hc => isWhitespace_of_toLower (htext c.toLower ?_)
    rw [← h, toAsciiLowercase, String.toList_ofList]
    exact mem_map_of_mem hc
  rw [modeText, htrim, h]

/-- What is passed on as `require` asks for TLS. -/
theorem sslAsksTls_of_alias {value : String} (h : sslAlias value = "require") : SslAsksTls value := by
  rw [sslAlias] at h
  rw [SslAsksTls]
  split_ifs at h with halias
  · rcases halias with htrue | rfl
    · rw [modeText_of_toAsciiLowercase htrue (by decide)]
      decide
    · decide
  · rw [h]
    decide

variable {accepts : String → Bool} {pairs : List String}

/-- What the pool reads of an address. -/
theorem tlsMode_eq_required_iff (url : String) :
    tlsMode url = .required ↔
      match (modePairs (queryPairs url)).head?, (sslPairs (queryPairs url)).getLast? with
      | some first, _ => AsksTls (keyValue first).2
      | none, some last => SslAsksTls (keyValue last).2
      | none, none => False := by
  have hmode : tlsMode url = .required ↔
      sslmode url = some "require" ∨ sslmode url = some "verify-ca" ∨
        sslmode url = some "verify-full" := by
    rw [tlsMode]
    split_ifs with hmode
    · exact iff_of_true rfl hmode
    · exact iff_of_false (by decide) hmode
  rw [hmode, sslmode, sslmodeFrom_eq]
  cases (modePairs (queryPairs url)).head? with
  | some first => simp [AsksTls]
  | none =>
    cases (sslPairs (queryPairs url)).getLast? with
    | none => simp [sslmodeFrom]
    | some last =>
      by_cases halias : modeText (keyValue last).2 = "true" ∨ modeText (keyValue last).2 = "1"
      · simp [sslmodeFrom, SslAsksTls, halias]
        grind
      · simp [sslmodeFrom, SslAsksTls, halias]
        grind

/-- The pairs that are passed on have the modes among them. -/
theorem modePairs_keptPairs (pairs : List String) : modePairs (keptPairs pairs) = modePairs pairs := by
  rw [modePairs, keptPairs, filter_filter, modePairs]
  refine filter_congr fun pair _ => ?_
  by_cases hmode : IsNamed "sslmode" pair
  · simp [hmode, not_ssl_of_sslmode hmode, not_binding_of_sslmode hmode]
  · simp [hmode]

theorem keyValue_alias (value : String) : keyValue ("sslmode=" ++ value) = ("sslmode", value) := by
  have hsplit : splitOnce '=' ("sslmode=" ++ value) = some ("sslmode", value) :=
    splitOnce_eq_some.mpr ⟨by simp, by decide⟩
  rw [keyValue, hsplit, Option.getD_some]

/-- What the driver reads of an address. -/
theorem driverMode_eq_require_iff (url : String) :
    driverMode accepts (normalizeUrl url) = some .require ↔
      match (modePairs (queryPairs url)).getLast?, (sslPairs (queryPairs url)).getLast? with
      | some last, _ =>
        (∀ pair ∈ keptPairs (queryPairs url), Accepted accepts pair) ∧ (keyValue last).2 = "require"
      | none, some last =>
        (∀ pair ∈ keptPairs (queryPairs url), Accepted accepts pair) ∧
          sslAlias (keyValue last).2 = "require"
      | none, none => False := by
  rw [driverMode_normalizeUrl, driverPairs_eq_require_iff, normalizedPairs]
  have hmodes := modePairs_keptPairs (queryPairs url)
  cases hlast : (modePairs (queryPairs url)).getLast? with
  | some last =>
    have hhead : ∃ first, (modePairs (queryPairs url)).head? = some first := by
      cases hpairs : modePairs (queryPairs url) with
      | nil => simp [hpairs] at hlast
      | cons first rest => exact ⟨first, rfl⟩
    obtain ⟨first, hfirst⟩ := hhead
    simp only [hfirst, hmodes, hlast]
  | none =>
    have hnil : modePairs (queryPairs url) = [] := by simpa using hlast
    rw [hnil] at hmodes ⊢
    cases (sslPairs (queryPairs url)).getLast? with
    | none => simp [hmodes]
    | some last =>
      have hkey := keyValue_alias (sslAlias (keyValue last).2)
      have hnamed : IsNamed "sslmode" ("sslmode=" ++ sslAlias (keyValue last).2) := by
        rw [IsNamed, hkey]
        show toAsciiLowercase "sslmode" = "sslmode"
        decide
      have halias : modePairs (keptPairs (queryPairs url) ++ ["sslmode=" ++ sslAlias (keyValue last).2]) =
          ["sslmode=" ++ sslAlias (keyValue last).2] := by
        rw [modePairs, filter_append, ← modePairs, hmodes, nil_append]
        exact filter_cons_of_pos (decide_eq_true hnamed)
      simp only [List.head?_nil, halias, List.getLast?_singleton, hkey, forall_mem_append,
        forall_mem_singleton, and_assoc]
      refine and_congr_right fun _ => and_iff_right_of_imp fun hrequire => ?_
      rw [Accepted, hkey, if_pos rfl, hrequire]
      decide

/-- **When the two readers agree**: exactly on the addresses whose TLS request is spelled for both. -/
theorem tlsMode_agrees_iff (accepts : String → Bool) (url : String) :
    (tlsMode url = .required ↔ driverMode accepts (normalizeUrl url) = some .require) ↔
      AsksPlainly accepts (queryPairs url) := by
  rw [tlsMode_eq_required_iff, driverMode_eq_require_iff, AsksPlainly]
  cases hmodes : modePairs (queryPairs url) with
  | cons first rest => rw [List.getLast?_cons, List.head?_cons]
  | nil =>
    cases (sslPairs (queryPairs url)).getLast? with
    | none => simp
    | some last =>
      simp only [List.head?_nil, List.getLast?_nil]
      exact ⟨fun h => h.mp, fun h => ⟨h, fun hdriver => sslAsksTls_of_alias hdriver.2⟩⟩

end Agreement

/-- `verify-full` is a mode of the pool, and none of the driver. -/
theorem verifyFull_refused :
    ¬ ∀ (accepts : String → Bool) (url : String),
      (tlsMode url = .required ↔ driverMode accepts (normalizeUrl url) = some .require) := by
  intro hclaim
  have hrequired : tlsMode "postgres://h/db?sslmode=verify-full" = .required := by decide
  have hread := (hclaim (fun _ => true) "postgres://h/db?sslmode=verify-full").mp hrequired
  exact absurd hread (by decide)

end LazyPock.Database
