import LazyPock.Files.Config
import LazyPock.Machine.Runs

/-!
# The storage settings page

`PATCH /api/settings/storage` (`crates/api/src/settings.rs`) saves a configuration and applies it at once.
What is saved is merged over the stored setting; what is applied is the stored setting over the
configuration that is running, not over that of the environment. A field that is saved blank stays in
force until the server is started again, and a blank secret takes the place of the stored one.

## Main definitions

* `Storage.Server`, `Storage.State`.
* `Storage.storageUpdate`, `Storage.boot`.
* `Storage.Synced`: a restart would load what is running.
* `Storage.Careful`: a request that takes nothing out of the setting.

## Main results

* `Storage.synced_iff`: what one request does.
* `Storage.running_eq_boot_iff`: exactly which runs stay in step with a restart.
-/

namespace LazyPock.Storage

open Text Files Machine Assoc

/-! ### The server -/

/-- What does not change while the server runs: its environment, the cipher library, and the
construction of a storage service. -/
structure Server where
  env : String → Option String
  keys : Secret.KeyLibrary
  /-- `Inner::build` -/
  build : FilesConfig → Result Unit

/-- The row of the setting, and the configuration of the running service. -/
structure State where
  stored : Option Json
  running : FilesConfig
deriving DecidableEq

/-- The stored setting, or `{}` when nothing has been saved. -/
def storageSetting : Option Json → List (String × Json)
  | some (.object entries) => entries
  | _ => []

/-- `PATCH /api/settings/storage`, with the random bytes it draws. -/
structure Request where
  body : Json
  nonce : Secret.Nonce

/-! ### Saving -/

/-- What this server cannot honour. -/
def checkBody (body : Json) : Result Unit := do
  failIf (body.isObject = false) (.invalid "the storage settings must be an object")
  failIf ((body.get "force_path_style").bind Json.asBool = some false) (.invalid
    ("virtual-hosted URLs are not supported: lazypock always addresses an object as " ++
      "`<endpoint>/<bucket>/<key>`, so path style stays on"))
  failIf (((body.get "prefix").bind Json.asStr).any fun text => trim text ≠ "") (.invalid
    "a key prefix is not supported: an object's key is `\x7bcollection\x7d/\x7brecord\x7d/\x7bfilename\x7d`")

/-- One field of a body, merged over what was saved. -/
def mergeField (body : Json) (setting : List (String × Json)) (field : String) :
    List (String × Json) :=
  match body.get field with
  | some value => insert field value setting
  | none => setting

def mergeFields (body : Json) (setting : List (String × Json)) (fields : List String) :
    List (String × Json) :=
  fields.foldl (mergeField body) setting

/-- The secret that was typed. -/
def typedSecret (body : Json) : Option String :=
  ((body.get "secret_access_key").bind Json.asStr).filter (· ≠ "")

/-- A secret is encrypted on the way in. -/
def encryptSecret (secrets : Option Secret.Aead) (nonce : Secret.Nonce) (secret : String) :
    Result String := do
  let secrets ← okOr (.invalid ("cannot store a storage secret without " ++ Secret.keyVariable ++
    ": generate one with `openssl rand -hex 32` and set it, then save again")) secrets
  Secret.encrypt secrets nonce "secret_access_key" secret

def storeSecret (secrets : Option Secret.Aead) (request : Request) (setting : List (String × Json)) :
    Result (List (String × Json)) :=
  match typedSecret request.body with
  | some secret => do
    let encrypted ← encryptSecret secrets request.nonce secret
    return insert "secret_access_key" (.string encrypted) setting
  | none => .ok setting

/-- The setting a body is saved as. -/
def mergedSetting (secrets : Option Secret.Aead) (request : Request)
    (setting : List (String × Json)) : Result (List (String × Json)) :=
  storeSecret secrets request (mergeField request.body
    (mergeFields request.body setting (FilesConfig.storageFields.map Prod.fst)) "presign_ttl")

/-- `PATCH /api/settings/storage`: live first, stored second. -/
def storageUpdate (server : Server) (s : State) (request : Request) : Result State := do
  checkBody request.body
  let secrets ← Secret.fromEnv server.keys server.env
  let setting ← mergedSetting secrets request (storageSetting s.stored)
  let config ← s.running.applyStorageSetting setting secrets
  server.build config
  return ⟨some (.object setting), config⟩

/-! ### Starting -/

/-- The configuration a server starts with: the environment's, with anything a superuser saved over
it. -/
def boot (server : Server) (stored : Option Json) : Result FilesConfig := do
  let config ← FilesConfig.fromSource server.env
  if storageSetting stored = [] then return config
  else do
    let secrets ← Secret.fromEnv server.keys server.env
    match config.applyStorageSetting (storageSetting stored) secrets with
    | .ok config => .ok config
    | .error err => .error (.config ("cannot apply the saved storage settings: " ++ err.display))

/-- **The running configuration is the one a restart would load.** -/
def Synced (server : Server) (s : State) : Prop := boot server s.stored = .ok s.running

instance (server : Server) (s : State) : Decidable (Synced server s) :=
  inferInstanceAs (Decidable (_ = _))

/-! ### Requests that take nothing out -/

/-- A body names a field with a value that is not saved. -/
def Unsaves (body : Json) (field : String) : Prop :=
  ∃ value, body.get field = some value ∧ savedText (some value) = none

def UnsavesTtl (body : Json) : Prop :=
  ∃ value, body.get "presign_ttl" = some value ∧ savedTtl (some value) = none

/-- A secret that is not typed. -/
def UnsavesSecret (body : Json) : Prop :=
  (body.get "secret_access_key").isSome = true ∧ typedSecret body = none

/-- A field that is named without a value runs with what the environment says. -/
structure Settled (config running : FilesConfig) (body : Json) : Prop where
  adapter : Unsaves body "backend" → running.adapter = config.adapter
  endpoint : Unsaves body "endpoint" → running.endpoint = config.endpoint
  bucket : Unsaves body "bucket" → running.bucket = config.bucket
  region : Unsaves body "region" → running.region = config.region
  accessKey : Unsaves body "access_key_id" → running.accessKey = config.accessKey
  publicBaseUrl : Unsaves body "public_base_url" → running.publicBaseUrl = config.publicBaseUrl
  presignTtl : UnsavesTtl body → running.presignTtlSeconds = config.presignTtlSeconds
  secretKey : UnsavesSecret body → running.secretKey = config.secretKey

/-- A secret that means "keep the stored one". -/
def isBlank : Json → Bool
  | .null => true
  | .string text => trim text = ""
  | .bool _ | .number _ | .array _ | .object _ => false

/-- The stored secret, encrypted. -/
def storedSecret (s : State) : Option Json :=
  lookup "secret_access_key" (storageSetting s.stored)

/-- A blank secret is what is stored already: as it is, or encrypted where it is made of spaces. -/
def KeepsSecret (server : Server) (s : State) (request : Request) : Prop :=
  ∀ value, request.body.get "secret_access_key" = some value → isBlank value = true →
    match typedSecret request.body with
    | none => storedSecret s = some value
    | some spaces => ∀ secrets encrypted, Secret.fromEnv server.keys server.env = .ok secrets →
        encryptSecret secrets request.nonce spaces = .ok encrypted →
        storedSecret s = some (.string encrypted)

/-- **A request that takes nothing out of the setting**, other than what the environment says too, and
sends no blank secret. -/
def Careful (server : Server) (s : State) (request : Request) : Prop :=
  (∀ config, FilesConfig.fromSource server.env = .ok config →
    Settled config s.running request.body) ∧ KeepsSecret server s request

/-! ### The merged setting -/

section Merged

variable {body : Json} {setting merged : List (String × Json)} {request : Request}
  {secrets : Option Secret.Aead}

theorem lookup_mergeField (field key : String) :
    lookup key (mergeField body setting field) =
      if key = field then (body.get key).or (lookup key setting)
      else lookup key setting := by
  unfold mergeField
  split_ifs with hkey
  · subst hkey
    cases body.get key with
    | none => rfl
    | some value => exact lookup_insert_self key value setting
  · cases body.get field with
    | none => rfl
    | some value => exact lookup_insert_of_ne hkey value setting

theorem lookup_mergeFields (fields : List String) (key : String) :
    lookup key (mergeFields body setting fields) =
      if key ∈ fields then (body.get key).or (lookup key setting)
      else lookup key setting := by
  induction fields generalizing setting with
  | nil => rfl
  | cons field rest ih =>
    have hstep : mergeFields body setting (field :: rest) =
        mergeFields body (mergeField body setting field) rest := rfl
    rw [hstep, ih, lookup_mergeField]
    by_cases hkey : key = field
    · subst hkey
      cases body.get key <;> simp
    · simp [hkey]

/-- A field other than the secret is the one of the body, or the one that was stored. -/
theorem lookup_merged (h : mergedSetting secrets request setting = .ok merged) {key : String}
    (hkey : key ∈ "presign_ttl" :: FilesConfig.storageFields.map Prod.fst)
    (hne : key ≠ "secret_access_key") :
    lookup key merged = (request.body.get key).or (lookup key setting) := by
  have hfields : lookup key (mergeField request.body
      (mergeFields request.body setting (FilesConfig.storageFields.map Prod.fst)) "presign_ttl") =
        (request.body.get key).or (lookup key setting) := by
    rw [lookup_mergeField, lookup_mergeFields]
    rcases List.mem_cons.mp hkey with rfl | hmem
    · simp [FilesConfig.storageFields]
    · rw [if_pos hmem]
      cases request.body.get key <;> simp
  unfold mergedSetting storeSecret at h
  cases htyped : typedSecret request.body with
  | none =>
    rw [htyped] at h
    rw [← Except.ok.inj h, hfields]
  | some secret =>
    simp only [htyped, bind_eq_ok] at h
    obtain ⟨encrypted, -, h⟩ := h
    rw [← Except.ok.inj h, lookup_insert_of_ne hne, hfields]

/-- The secret is encrypted where one was typed, and otherwise merged as any field. -/
theorem lookup_secret (h : mergedSetting secrets request setting = .ok merged) :
    match typedSecret request.body with
    | some secret => ∃ encrypted, encryptSecret secrets request.nonce secret = .ok encrypted ∧
        lookup "secret_access_key" merged = some (.string encrypted)
    | none => lookup "secret_access_key" merged =
        (request.body.get "secret_access_key").or (lookup "secret_access_key" setting) := by
  unfold mergedSetting storeSecret at h
  cases htyped : typedSecret request.body with
  | none =>
    simp only [htyped] at h ⊢
    rw [← Except.ok.inj h, lookup_mergeField, lookup_mergeFields]
    simp [FilesConfig.storageFields]
  | some secret =>
    simp only [htyped, bind_eq_ok] at h ⊢
    obtain ⟨encrypted, hencrypted, h⟩ := h
    exact ⟨encrypted, hencrypted, by rw [← Except.ok.inj h, lookup_insert_self]⟩

/-- Which fields the merged setting does not carry. -/
theorem saved_merged_eq_none (h : mergedSetting secrets request setting = .ok merged) {key : String}
    (hkey : key ∈ "presign_ttl" :: FilesConfig.storageFields.map Prod.fst)
    (hne : key ≠ "secret_access_key") :
    saved merged key = none ↔
      Unsaves request.body key ∨ (request.body.get key = none ∧ saved setting key = none) := by
  rw [saved, saved, lookup_merged h hkey hne, Unsaves]
  cases request.body.get key <;> simp

theorem savedTtl_merged_eq_none (h : mergedSetting secrets request setting = .ok merged) :
    savedTtl (lookup "presign_ttl" merged) = none ↔ UnsavesTtl request.body ∨
      (request.body.get "presign_ttl" = none ∧
        savedTtl (lookup "presign_ttl" setting) = none) := by
  rw [lookup_merged h List.mem_cons_self (by decide), UnsavesTtl]
  cases request.body.get "presign_ttl" <;> simp

/-- A typed secret is stored as more than spaces. -/
theorem savedText_encrypted {secret encrypted : String}
    (h : encryptSecret secrets request.nonce secret = .ok encrypted) :
    savedText (some (.string encrypted)) = some encrypted := by
  obtain ⟨cipher, -, hencrypt⟩ := bind_eq_ok.mp h
  simp [savedText, Json.asStr, Secret.trim_encrypt hencrypt, Secret.encrypt_ne_empty hencrypt]

/-- A secret that is not typed is blank. -/
theorem savedText_of_not_typed (htyped : typedSecret request.body = none) :
    savedText (request.body.get "secret_access_key") = none := by
  rw [savedText]
  unfold typedSecret at htyped
  cases htext : (request.body.get "secret_access_key").bind Json.asStr with
  | none => rfl
  | some text =>
    rw [htext] at htyped
    have hempty : text = "" := by simpa using htyped
    subst hempty
    rfl

theorem saved_secret_eq_none (h : mergedSetting secrets request setting = .ok merged) :
    saved merged "secret_access_key" = none ↔ UnsavesSecret request.body ∨
      (request.body.get "secret_access_key" = none ∧ saved setting "secret_access_key" = none) := by
  have hsecret := lookup_secret h
  rw [saved, saved, UnsavesSecret]
  cases htyped : typedSecret request.body with
  | some secret =>
    simp only [htyped] at hsecret
    obtain ⟨encrypted, hencrypted, hlookup⟩ := hsecret
    have hnamed : request.body.get "secret_access_key" ≠ none := by
      intro hnone
      simp [typedSecret, hnone] at htyped
    rw [hlookup, savedText_encrypted hencrypted]
    simp [hnamed]
  | none =>
    simp only [htyped] at hsecret
    have hblank := savedText_of_not_typed htyped
    rw [hsecret]
    cases hget : request.body.get "secret_access_key" with
    | none => simp
    | some value =>
      rw [hget] at hblank
      simp [hblank]

end Merged

/-! ### One request -/

section Step

variable {server : Server} {s t : State} {request : Request}

theorem storageUpdate_eq_ok (h : storageUpdate server s request = .ok t) :
    ∃ secrets merged after, Secret.fromEnv server.keys server.env = .ok secrets ∧
      mergedSetting secrets request (storageSetting s.stored) = .ok merged ∧
      t.stored = some (.object merged) ∧ readSaved merged secrets = .ok after ∧
      t.running = s.running.overlaid after ∧ t.running.validate = .ok () := by
  obtain ⟨-, -, h⟩ := bind_eq_ok.mp h
  obtain ⟨secrets, hsecrets, h⟩ := bind_eq_ok.mp h
  obtain ⟨merged, hmerged, h⟩ := bind_eq_ok.mp h
  obtain ⟨config, hconfig, h⟩ := bind_eq_ok.mp h
  obtain ⟨-, -, h⟩ := bind_eq_ok.mp h
  obtain rfl := Except.ok.inj h
  obtain ⟨after, hafter, hover, hvalid⟩ := FilesConfig.applyStorageSetting_eq_ok.mp hconfig
  exact ⟨secrets, merged, after, hsecrets, hmerged, rfl, hafter, hover, hvalid⟩

theorem readSaved_nil (secrets : Option Secret.Aead) :
    readSaved [] secrets = .ok ⟨none, none, none, none, none, none, none, none⟩ := rfl

theorem validate_of_fromSource {env : String → Option String} {config : FilesConfig}
    (h : FilesConfig.fromSource env = .ok config) : config.validate = .ok () := by
  obtain ⟨_, -, h⟩ := bind_eq_ok.mp h
  obtain ⟨_, -, h⟩ := bind_eq_ok.mp h
  obtain ⟨_, -, h⟩ := bind_eq_ok.mp h
  obtain ⟨_, -, h⟩ := bind_eq_ok.mp h
  obtain ⟨_, hvalid, h⟩ := bind_eq_ok.mp h
  rwa [← Except.ok.inj h]

/-- A start loads the stored setting over the environment, where there is a key that can be read. -/
theorem boot_eq_ok {stored : Option Json} {secrets : Option Secret.Aead} {running : FilesConfig}
    (hsecrets : Secret.fromEnv server.keys server.env = .ok secrets) :
    boot server stored = .ok running ↔ ∃ config before,
      FilesConfig.fromSource server.env = .ok config ∧
        readSaved (storageSetting stored) secrets = .ok before ∧
        running = config.overlaid before ∧ running.validate = .ok () := by
  rw [boot, bind_eq_ok]
  refine exists_congr fun config => ?_
  split_ifs with hempty
  · rw [hempty, readSaved_nil]
    constructor
    · rintro ⟨hconfig, h⟩
      obtain rfl := Except.ok.inj h
      exact ⟨_, hconfig, rfl, rfl, validate_of_fromSource hconfig⟩
    · rintro ⟨before, hconfig, hbefore, rfl, -⟩
      obtain rfl := Except.ok.inj hbefore
      exact ⟨hconfig, rfl⟩
  · rw [exists_and_left]
    refine and_congr_right fun hconfig => ?_
    rw [hsecrets, ← FilesConfig.applyStorageSetting_eq_ok]
    simp only [bind, Except.bind]
    cases config.applyStorageSetting (storageSetting stored) secrets <;> simp

/-- What a request takes out of the setting. -/
theorem harmless_iff_settled {secrets : Option Secret.Aead} {setting merged : List (String × Json)}
    {config : FilesConfig} {before after : Saved}
    (hmerged : mergedSetting secrets request setting = .ok merged)
    (hbefore : readSaved setting secrets = .ok before)
    (hafter : readSaved merged secrets = .ok after) :
    FilesConfig.Harmless config before after ↔ Settled config (config.overlaid before) request.body := by
  obtain ⟨badapter, bsecret, bendpoint, bbucket, bregion, baccess, burl, bttl⟩ :=
    FilesConfig.readSaved_eq_ok hbefore
  obtain ⟨aadapter, asecret, aendpoint, abucket, aregion, aaccess, aurl, attl⟩ :=
    FilesConfig.readSaved_eq_ok hafter
  have hsaved (key : String) (hkey : key ∈ "presign_ttl" :: FilesConfig.storageFields.map Prod.fst)
      (hne : key ≠ "secret_access_key") := saved_merged_eq_none hmerged hkey hne
  have hadapter : after.adapter = none ↔ Unsaves request.body "backend" ∨
      (request.body.get "backend" = none ∧ before.adapter = none) := by
    rw [FilesConfig.savedAdapter_eq_none aadapter, FilesConfig.savedAdapter_eq_none badapter]
    exact hsaved "backend" (by decide) (by decide)
  have hsecret : after.secretKey = none ↔ UnsavesSecret request.body ∨
      (request.body.get "secret_access_key" = none ∧ before.secretKey = none) := by
    rw [FilesConfig.savedSecret_eq_none asecret, FilesConfig.savedSecret_eq_none bsecret]
    exact saved_secret_eq_none hmerged
  have hendpoint := hsaved "endpoint" (by decide) (by decide)
  have hbucket := hsaved "bucket" (by decide) (by decide)
  have hregion := hsaved "region" (by decide) (by decide)
  have haccess := hsaved "access_key_id" (by decide) (by decide)
  have hurl := hsaved "public_base_url" (by decide) (by decide)
  have httl := savedTtl_merged_eq_none hmerged
  rw [← bendpoint, ← aendpoint] at hendpoint
  rw [← bbucket, ← abucket] at hbucket
  rw [← bregion, ← aregion] at hregion
  rw [← baccess, ← aaccess] at haccess
  rw [← burl, ← aurl] at hurl
  rw [← bttl, ← attl] at httl
  constructor
  · intro h
    refine ⟨?_, ?_, ?_, ?_, ?_, ?_, ?_, ?_⟩
    · rw [FilesConfig.overlaid, FilesConfig.getD_eq_iff]
      exact (FilesConfig.fallsBack_iff hadapter).mp h.adapter
    · rw [FilesConfig.overlaid, FilesConfig.or_eq_iff]
      exact (FilesConfig.fallsBack_iff hendpoint).mp h.endpoint
    · rw [FilesConfig.overlaid, FilesConfig.or_eq_iff]
      exact (FilesConfig.fallsBack_iff hbucket).mp h.bucket
    · rw [FilesConfig.overlaid, FilesConfig.getD_eq_iff]
      exact (FilesConfig.fallsBack_iff hregion).mp h.region
    · rw [FilesConfig.overlaid, FilesConfig.or_eq_iff]
      exact (FilesConfig.fallsBack_iff haccess).mp h.accessKey
    · rw [FilesConfig.overlaid, FilesConfig.or_eq_iff]
      exact (FilesConfig.fallsBack_iff hurl).mp h.publicBaseUrl
    · rw [FilesConfig.overlaid, FilesConfig.getD_eq_iff]
      exact (FilesConfig.fallsBack_iff httl).mp h.presignTtl
    · rw [FilesConfig.overlaid, FilesConfig.or_eq_iff]
      exact (FilesConfig.fallsBack_iff hsecret).mp h.secretKey
  · intro h
    exact {
      adapter := (FilesConfig.fallsBack_iff hadapter).mpr fun hu =>
        (FilesConfig.getD_eq_iff _ _).mp (h.adapter hu)
      endpoint := (FilesConfig.fallsBack_iff hendpoint).mpr fun hu =>
        (FilesConfig.or_eq_iff _ _).mp (h.endpoint hu)
      bucket := (FilesConfig.fallsBack_iff hbucket).mpr fun hu =>
        (FilesConfig.or_eq_iff _ _).mp (h.bucket hu)
      region := (FilesConfig.fallsBack_iff hregion).mpr fun hu =>
        (FilesConfig.getD_eq_iff _ _).mp (h.region hu)
      accessKey := (FilesConfig.fallsBack_iff haccess).mpr fun hu =>
        (FilesConfig.or_eq_iff _ _).mp (h.accessKey hu)
      publicBaseUrl := (FilesConfig.fallsBack_iff hurl).mpr fun hu =>
        (FilesConfig.or_eq_iff _ _).mp (h.publicBaseUrl hu)
      presignTtl := (FilesConfig.fallsBack_iff httl).mpr fun hu =>
        (FilesConfig.getD_eq_iff _ _).mp (h.presignTtl hu)
      secretKey := (FilesConfig.fallsBack_iff hsecret).mpr fun hu =>
        (FilesConfig.or_eq_iff _ _).mp (h.secretKey hu) }

/-- **A request keeps the server in step with a restart exactly where every field that it names without a
value runs with what the environment says.** -/
theorem synced_iff (hs : Synced server s) (h : storageUpdate server s request = .ok t) :
    Synced server t ↔ ∀ config, FilesConfig.fromSource server.env = .ok config →
      Settled config s.running request.body := by
  obtain ⟨secrets, merged, after, hsecrets, hmerged, hstored, hafter, hover, hvalid⟩ :=
    storageUpdate_eq_ok h
  obtain ⟨config, before, hconfig, hbefore, hrunning, -⟩ := (boot_eq_ok hsecrets).mp hs
  have hsettled : (∀ config, FilesConfig.fromSource server.env = .ok config →
      Settled config s.running request.body) ↔ Settled config s.running request.body := by
    refine ⟨fun h => h config hconfig, fun h config' hconfig' => ?_⟩
    rwa [← Except.ok.inj (hconfig.symm.trans hconfig')]
  rw [hsettled, hrunning, ← harmless_iff_settled hmerged hbefore hafter,
    ← FilesConfig.overlaid_overlaid_eq_iff, ← hrunning, ← hover, Synced, boot_eq_ok hsecrets, hstored]
  constructor
  · rintro ⟨config', after', hconfig', hafter', hrunning', -⟩
    obtain rfl := Except.ok.inj (hconfig.symm.trans hconfig')
    obtain rfl := Except.ok.inj (hafter.symm.trans hafter')
    exact hrunning'
  · exact fun hsame => ⟨config, after, hconfig, hafter, hsame, hvalid⟩

/-- A blank or absent secret leaves the stored and the effective one. -/
def Keeps (s : State) (request : Request) (t : State) : Prop :=
  (∀ value, request.body.get "secret_access_key" = some value → isBlank value = true) →
    storedSecret t = storedSecret s ∧ t.running.secretKey = s.running.secretKey

/-- What is stored decides what is effective. -/
theorem secretKey_of_stored (hs : Synced server s) (h : storageUpdate server s request = .ok t)
    (hstored : storedSecret t = storedSecret s) : t.running.secretKey = s.running.secretKey := by
  obtain ⟨secrets, merged, after, hsecrets, hmerged, ht, hafter, hover, -⟩ := storageUpdate_eq_ok h
  obtain ⟨config, before, hconfig, hbefore, hrunning, -⟩ := (boot_eq_ok hsecrets).mp hs
  obtain ⟨-, bsecret, -⟩ := FilesConfig.readSaved_eq_ok hbefore
  obtain ⟨-, asecret, -⟩ := FilesConfig.readSaved_eq_ok hafter
  have hlookup : saved merged "secret_access_key" =
      saved (storageSetting s.stored) "secret_access_key" := by
    rw [storedSecret, storedSecret, ht] at hstored
    exact congrArg savedText hstored
  have hsame : after.secretKey = before.secretKey := by
    rw [hlookup] at asecret
    exact Except.ok.inj (asecret.symm.trans bsecret)
  rw [hover, hrunning]
  change after.secretKey.or (before.secretKey.or config.secretKey) =
    before.secretKey.or config.secretKey
  rw [hsame]
  cases before.secretKey <;> rfl

/-- **A blank secret is kept exactly where what the request stores for it is stored already.** -/
theorem keeps_iff (hs : Synced server s) (h : storageUpdate server s request = .ok t) :
    Keeps s request t ↔ KeepsSecret server s request := by
  obtain ⟨secrets, merged, after, hsecrets, hmerged, ht, -⟩ := storageUpdate_eq_ok h
  have hlookup := lookup_secret hmerged
  have hstored : storedSecret t = lookup "secret_access_key" merged := by
    rw [storedSecret, ht]
    rfl
  have hkeeps : Keeps s request t ↔
      ((∀ value, request.body.get "secret_access_key" = some value → isBlank value = true) →
        storedSecret t = storedSecret s) :=
    forall_congr' fun _ => ⟨And.left, fun hsame => ⟨hsame, secretKey_of_stored hs h hsame⟩⟩
  rw [hkeeps, hstored, KeepsSecret]
  cases hget : request.body.get "secret_access_key" with
  | none =>
    have htyped : typedSecret request.body = none := by simp [typedSecret, hget]
    simp only [htyped, hget, Option.none_or] at hlookup
    simp [hlookup, storedSecret]
  | some value =>
    simp only [Option.some.injEq, forall_eq']
    refine forall_congr' fun _ => ?_
    cases htyped : typedSecret request.body with
    | none =>
      simp only [htyped, hget, Option.some_or] at hlookup
      rw [hlookup]
      exact eq_comm
    | some spaces =>
      simp only [htyped] at hlookup
      obtain ⟨encrypted, hencrypted, hlookup⟩ := hlookup
      rw [hlookup]
      constructor
      · intro hsame secrets' encrypted' hsecrets' hencrypted'
        obtain rfl := Except.ok.inj (hsecrets.symm.trans hsecrets')
        obtain rfl := Except.ok.inj (hencrypted.symm.trans hencrypted')
        exact hsame.symm
      · exact fun hsame => (hsame secrets encrypted hsecrets hencrypted).symm

end Step

/-! ### Runs -/

section Runs

/-- A request that is accepted. -/
def Accepted (server : Server) (s : State) (request : Request) (t : State) : Prop :=
  storageUpdate server s request = .ok t

instance (server : Server) (s : State) (request : Request) (t : State) :
    Decidable (Accepted server s request t) := inferInstanceAs (Decidable (_ = _))

/-- **A server stays in step with a restart, and keeps its secret, exactly along the runs whose requests
take nothing out of the setting.** -/
theorem running_eq_boot_iff (server : Server) {s t : State} {requests : List Request}
    (hs : Synced server s) (hrun : Run (Accepted server) s requests t) :
    (∀ earlier request later u v, requests = earlier ++ request :: later →
        Run (Accepted server) s earlier u → Accepted server u request v →
        Synced server v ∧ Keeps u request v) ↔
      Run (When (Careful server) (Accepted server)) s requests t := by
  refine Run.forall_steps_iff (fun s request t t' h h' => ?_) (fun s request t hs h => ?_) hs hrun
  · exact Except.ok.inj (h.symm.trans h')
  · exact and_congr (synced_iff hs h) (keeps_iff hs h)

/-- A server without any variable set. -/
def bare : Server where
  env := fun _ => none
  keys := fun _ => none
  build := fun _ => .ok ()

/-- What it starts with. -/
def fresh : State where
  stored := none
  running :=
    { adapter := .localDisk
      directory := "data/files"
      publicBaseUrl := none
      endpoint := none
      bucket := none
      region := "auto"
      accessKey := none
      secretKey := none
      imageServiceUrl := none
      imageServiceToken := none
      presignTtlSeconds := 900
      keyPrefix := ""
      forceRemote := false }

/-- A request that saves a region. -/
def saveRegion (region : String) : Request where
  body := .object [("region", .string region)]
  nonce := ⟨List.replicate 12 0, rfl⟩

/-- The server once a region was saved. -/
def withRegion (region : String) (running : String) : State where
  stored := some (.object [("region", .string region)])
  running := { fresh.running with region := running }

theorem not_unsaves_region {field : String} : ¬ Unsaves (saveRegion "eu-west-1").body field := by
  rintro ⟨value, hvalue, hnone⟩
  have hmem := mem_of_lookup hvalue
  obtain ⟨-, rfl⟩ := Prod.mk.inj (List.mem_singleton.mp hmem)
  revert hnone
  decide

theorem careful_saveRegion : Careful bare fresh (saveRegion "eu-west-1") := by
  refine ⟨fun config _ => ?_, fun value hvalue => ?_⟩
  · have httl : ¬ UnsavesTtl (saveRegion "eu-west-1").body := by
      rintro ⟨value, hvalue, -⟩
      cases hvalue
    have hsecret : ¬ UnsavesSecret (saveRegion "eu-west-1").body := by
      rintro ⟨hnamed, -⟩
      cases hnamed
    constructor <;> intro h
    all_goals first | exact absurd h not_unsaves_region | exact absurd h httl | exact absurd h hsecret
  · cases hvalue

theorem synced_withRegion : Synced bare (withRegion "eu-west-1" "eu-west-1") := by
  have hfirst : Accepted bare fresh (saveRegion "eu-west-1") (withRegion "eu-west-1" "eu-west-1") := by
    decide
  have hrun : Run (When (Careful bare) (Accepted bare)) fresh [saveRegion "eu-west-1"]
      (withRegion "eu-west-1" "eu-west-1") := .cons ⟨careful_saveRegion, hfirst⟩ (.nil _)
  exact ((running_eq_boot_iff bare (by decide) hrun.of_when).mpr hrun [] _ [] _ _ rfl
    (.nil _) hfirst).1

/-- A region that is saved and then saved blank runs on, and a restart takes the environment's. -/
theorem blank_region_not_synced : Synced bare fresh ∧
    Accepted bare fresh (saveRegion "eu-west-1") (withRegion "eu-west-1" "eu-west-1") ∧
    Accepted bare (withRegion "eu-west-1" "eu-west-1") (saveRegion "") (withRegion "" "eu-west-1") ∧
    ¬ Synced bare (withRegion "" "eu-west-1") := by
  decide

end Runs

end LazyPock.Storage
