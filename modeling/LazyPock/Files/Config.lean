import LazyPock.Core.Secret
import LazyPock.Files.Buckets

/-!
# The configuration of the file storage

`FilesConfig` of `crates/files/src/config.rs`: what the environment says, and over it what a superuser has
saved. A field that the saved setting carries wins, and a field that it does not carry is left alone.

## Main definitions

* `Files.FilesConfig`, `Files.FilesConfig.fromSource`.
* `Files.Saved`, `Files.readSaved`: what a setting carries.
* `Files.FilesConfig.applyStorageSetting`.

## Main results

* `Files.FilesConfig.applyStorageSetting_eq_ok`.
* `Files.FilesConfig.overlaid_overlaid_eq_iff`: a setting over another one.
-/

namespace LazyPock.Files

open Text

/-! ### The configuration -/

/-- Which backend stores objects. -/
inductive StorageAdapter where
  /-- The filesystem, under `LAZYPOCK_FILES_DIR`. -/
  | localDisk
  /-- An S3-compatible bucket. -/
  | s3
deriving DecidableEq

/-- Parse the configured adapter, refusing anything unknown. -/
def StorageAdapter.parse (raw : String) : Result StorageAdapter :=
  match toAsciiLowercase (trim raw) with
  | "local" | "fs" => .ok .localDisk
  | "s3" | "r2" => .ok .s3
  | other => .error (.config ("LAZYPOCK_FILES_ADAPTER must be `local` or `s3`, got " ++ debug other))

/-- Everything the file layer needs to run. -/
structure FilesConfig where
  adapter : StorageAdapter
  directory : String
  publicBaseUrl : Option String
  endpoint : Option String
  bucket : Option String
  region : String
  accessKey : Option String
  secretKey : Option String
  imageServiceUrl : Option String
  imageServiceToken : Option String
  presignTtlSeconds : ℤ
  keyPrefix : String
  forceRemote : Bool
deriving DecidableEq

/-- `i64::from_str` -/
def parseI64 (s : String) : Option ℤ :=
  let (negative, digits) := match s.toList with
    | '-' :: rest => (true, rest)
    | '+' :: rest => (false, rest)
    | cs => (false, cs)
  if digits = [] ∨ ¬ digits.all isAsciiDigit then none
  else
    let value : ℤ := Nat.ofDigitChars 10 digits 0
    let value := if negative then -value else value
    if -2 ^ 63 ≤ value ∧ value < 2 ^ 63 then some value else none

namespace FilesConfig

def defaultDirectory : String := "data/files"

def defaultRegion : String := "auto"

def defaultPresignTtlSeconds : ℤ := 15 * 60

/-! ### What cannot work -/

/-- A URL is one of HTTP. -/
def isHttp (url : String) : Bool := startsWith "http://" url || startsWith "https://" url

def checkUrl (key : String) : Option String → Result Unit
  | none => .ok ()
  | some url => failIf (isHttp url = false)
      (.config (key ++ " must start with http:// or https://, got " ++ debug url))

def checkImageService (config : FilesConfig) : Result Unit :=
  match config.imageServiceUrl with
  | some url => checkUrl "LAZYPOCK_IMAGE_SERVICE_URL" (some url)
  | none => failIf (config.imageServiceToken.isSome) (.config
      ("LAZYPOCK_IMAGE_SERVICE_TOKEN is set but LAZYPOCK_IMAGE_SERVICE_URL is not: " ++
        "the token would never be sent"))

def checkPrefix (config : FilesConfig) : Result Unit := do
  let normalized ← normalizePrefix config.keyPrefix
  failIf (normalized ≠ config.keyPrefix) (.config
    ("LAZYPOCK_FILES_PREFIX must be stored normalized (no leading, trailing or repeated slashes), " ++
      "got " ++ debug config.keyPrefix))

def requireS3 (key : String) (value : Option String) : Result Unit :=
  failIf value.isNone (.config (key ++ " is required when LAZYPOCK_FILES_ADAPTER=s3"))

def checkS3 (config : FilesConfig) : Result Unit :=
  if config.adapter = .s3 then do
    requireS3 "LAZYPOCK_S3_ENDPOINT" config.endpoint
    requireS3 "LAZYPOCK_S3_BUCKET" config.bucket
    requireS3 "LAZYPOCK_S3_ACCESS_KEY" config.accessKey
    requireS3 "LAZYPOCK_S3_SECRET_KEY" config.secretKey
  else .ok ()

/-- Refuse a configuration that cannot work, at boot and again at save time. -/
def validate (config : FilesConfig) : Result Unit := do
  checkUrl "LAZYPOCK_FILES_PUBLIC_URL" config.publicBaseUrl
  config.checkImageService
  failIf (¬ (1 ≤ config.presignTtlSeconds ∧ config.presignTtlSeconds ≤ 7 * 24 * 60 * 60))
    (.config ("a presigned URL lifetime must be between 1 second and 7 days, got " ++
      toString config.presignTtlSeconds))
  config.checkPrefix
  failIf (config.forceRemote ∧ config.adapter = .localDisk) (.config
    ("LAZYPOCK_FILES_FORCE_REMOTE is on, so the local storage adapter is refused: set " ++
      "LAZYPOCK_FILES_ADAPTER=s3 with the LAZYPOCK_S3_* credentials, or turn the requirement off"))
  config.checkS3

/-! ### The environment -/

/-- A variable that is set to something. -/
def optional (get : String → Option String) (key : String) : Option String :=
  ((get key).map trim).filter (· ≠ "")

def sourceAdapter : Option String → Result StorageAdapter
  | some raw => StorageAdapter.parse raw
  | none => .ok .localDisk

def sourceTtl : Option String → Result ℤ
  | some raw => okOr (.config ("LAZYPOCK_PRESIGN_TTL must be a whole number of seconds, got " ++
      debug raw)) (parseI64 raw)
  | none => .ok defaultPresignTtlSeconds

def sourceForceRemote : Option String → Result Bool
  | none => .ok false
  | some raw =>
    match toAsciiLowercase raw with
    | "1" | "on" | "true" | "yes" => .ok true
    | "0" | "off" | "false" | "no" => .ok false
    | other => .error (.config ("LAZYPOCK_FILES_FORCE_REMOTE must be on or off, got " ++ debug other))

/-- Read the configuration from the environment. -/
def fromSource (get : String → Option String) : Result FilesConfig := do
  let adapter ← sourceAdapter (optional get "LAZYPOCK_FILES_ADAPTER")
  let presignTtlSeconds ← sourceTtl (optional get "LAZYPOCK_PRESIGN_TTL")
  let keyPrefix ← normalizePrefix ((optional get "LAZYPOCK_FILES_PREFIX").getD "")
  let forceRemote ← sourceForceRemote (optional get "LAZYPOCK_FILES_FORCE_REMOTE")
  let config : FilesConfig :=
    { adapter, presignTtlSeconds, keyPrefix, forceRemote
      directory := (optional get "LAZYPOCK_FILES_DIR").getD defaultDirectory
      publicBaseUrl := optional get "LAZYPOCK_FILES_PUBLIC_URL"
      endpoint := optional get "LAZYPOCK_S3_ENDPOINT"
      bucket := optional get "LAZYPOCK_S3_BUCKET"
      region := (optional get "LAZYPOCK_S3_REGION").getD defaultRegion
      accessKey := optional get "LAZYPOCK_S3_ACCESS_KEY"
      secretKey := optional get "LAZYPOCK_S3_SECRET_KEY"
      imageServiceUrl := optional get "LAZYPOCK_IMAGE_SERVICE_URL"
      imageServiceToken := optional get "LAZYPOCK_IMAGE_SERVICE_TOKEN" }
  config.validate
  return config

/-- The fields the Studio can save, and the environment variable each of them falls back to. -/
def storageFields : List (String × String) :=
  [("backend", "LAZYPOCK_FILES_ADAPTER"), ("endpoint", "LAZYPOCK_S3_ENDPOINT"),
    ("bucket", "LAZYPOCK_S3_BUCKET"), ("region", "LAZYPOCK_S3_REGION"),
    ("access_key_id", "LAZYPOCK_S3_ACCESS_KEY"), ("secret_access_key", "LAZYPOCK_S3_SECRET_KEY"),
    ("public_base_url", "LAZYPOCK_FILES_PUBLIC_URL")]

end FilesConfig

/-! ### The saved setting -/

/-- What a setting carries. -/
structure Saved where
  adapter : Option StorageAdapter
  endpoint : Option String
  bucket : Option String
  region : Option String
  accessKey : Option String
  publicBaseUrl : Option String
  presignTtl : Option ℤ
  secretKey : Option String
deriving DecidableEq

/-- A text that is more than spaces. -/
def savedText (value : Option Json) : Option String :=
  ((value.bind Json.asStr).map trim).filter (· ≠ "")

/-- A lifetime of some seconds. -/
def savedTtl (value : Option Json) : Option ℤ := (value.bind Json.asI64).filter (0 < ·)

/-- The value of a field of a setting. -/
def saved (setting : List (String × Json)) (field : String) : Option String :=
  savedText (Assoc.lookup field setting)

def savedAdapter : Option String → Result (Option StorageAdapter)
  | some backend => (StorageAdapter.parse backend).map some
  | none => .ok none

/-- The stored secret, decrypted. -/
def savedSecret (secrets : Option Secret.Aead) : Option String → Result (Option String)
  | some stored => do
    let secrets ← okOr (.config ("a storage secret is saved in the database but " ++
      Secret.keyVariable ++ " is not set, so it cannot be read: set it to the key the secret was " ++
      "saved with")) secrets
    let secret ← Secret.decrypt secrets "secret_access_key" stored
    return some secret
  | none => .ok none

/-- Read a setting. -/
def readSaved (setting : List (String × Json)) (secrets : Option Secret.Aead) : Result Saved := do
  let adapter ← savedAdapter (saved setting "backend")
  let secretKey ← savedSecret secrets (saved setting "secret_access_key")
  return {
    adapter, secretKey
    endpoint := saved setting "endpoint"
    bucket := saved setting "bucket"
    region := saved setting "region"
    accessKey := saved setting "access_key_id"
    publicBaseUrl := saved setting "public_base_url"
    presignTtl := savedTtl (Assoc.lookup "presign_ttl" setting) }

namespace FilesConfig

/-- What a setting carries wins, and the rest is left alone. -/
def overlaid (config : FilesConfig) (saved : Saved) : FilesConfig :=
  { config with
    adapter := saved.adapter.getD config.adapter
    endpoint := saved.endpoint.or config.endpoint
    bucket := saved.bucket.or config.bucket
    region := saved.region.getD config.region
    accessKey := saved.accessKey.or config.accessKey
    publicBaseUrl := saved.publicBaseUrl.or config.publicBaseUrl
    presignTtlSeconds := saved.presignTtl.getD config.presignTtlSeconds
    secretKey := saved.secretKey.or config.secretKey }

/-- Apply a saved `storage` setting over this configuration. -/
def applyStorageSetting (config : FilesConfig) (setting : List (String × Json))
    (secrets : Option Secret.Aead) : Result FilesConfig := do
  let saved ← readSaved setting secrets
  let applied := config.overlaid saved
  applied.validate
  return applied

section Over

variable {config : FilesConfig} {setting : List (String × Json)} {secrets : Option Secret.Aead}

theorem applyStorageSetting_eq_ok {applied : FilesConfig} :
    config.applyStorageSetting setting secrets = .ok applied ↔
      ∃ saved, readSaved setting secrets = .ok saved ∧ applied = config.overlaid saved ∧
        applied.validate = .ok () := by
  unfold applyStorageSetting
  simp only [bind_eq_ok]
  constructor
  · rintro ⟨saved, hsaved, u, hvalid, h⟩
    obtain rfl := Except.ok.inj h
    exact ⟨saved, hsaved, rfl, hvalid⟩
  · rintro ⟨saved, hsaved, rfl, hvalid⟩
    exact ⟨saved, hsaved, (), hvalid, rfl⟩

theorem readSaved_eq_ok {saved' : Saved} (h : readSaved setting secrets = .ok saved') :
    savedAdapter (saved setting "backend") = .ok saved'.adapter ∧
      savedSecret secrets (saved setting "secret_access_key") = .ok saved'.secretKey ∧
      saved'.endpoint = saved setting "endpoint" ∧ saved'.bucket = saved setting "bucket" ∧
      saved'.region = saved setting "region" ∧ saved'.accessKey = saved setting "access_key_id" ∧
      saved'.publicBaseUrl = saved setting "public_base_url" ∧
      saved'.presignTtl = savedTtl (Assoc.lookup "presign_ttl" setting) := by
  obtain ⟨adapter, hadapter, h⟩ := bind_eq_ok.mp h
  obtain ⟨secretKey, hsecret, h⟩ := bind_eq_ok.mp h
  obtain rfl := Except.ok.inj h
  exact ⟨hadapter, hsecret, rfl, rfl, rfl, rfl, rfl, rfl⟩

theorem savedAdapter_eq_none {backend : Option String} {adapter : Option StorageAdapter}
    (h : savedAdapter backend = .ok adapter) : adapter = none ↔ backend = none := by
  cases backend with
  | none => simp [← Except.ok.inj h]
  | some text =>
    obtain ⟨parsed, -, rfl⟩ := map_eq_ok.mp h
    simp

theorem savedSecret_eq_none {stored secretKey : Option String}
    (h : savedSecret secrets stored = .ok secretKey) : secretKey = none ↔ stored = none := by
  cases stored with
  | none => simp [← Except.ok.inj h]
  | some text =>
    obtain ⟨cipher, -, h⟩ := bind_eq_ok.mp h
    obtain ⟨secret, -, h⟩ := bind_eq_ok.mp h
    rw [← Except.ok.inj h]
    simp

/-- A field that is no longer saved was saved with the value it falls back to. -/
def FallsBack {α : Type} (before after : Option α) (fallback : Option α) : Prop :=
  after = none → ∀ value, before = some value → fallback = some value

/-- No field is taken out of a setting that makes a difference. -/
structure Harmless (config : FilesConfig) (before after : Saved) : Prop where
  adapter : FallsBack before.adapter after.adapter (some config.adapter)
  endpoint : FallsBack before.endpoint after.endpoint config.endpoint
  bucket : FallsBack before.bucket after.bucket config.bucket
  region : FallsBack before.region after.region (some config.region)
  accessKey : FallsBack before.accessKey after.accessKey config.accessKey
  publicBaseUrl : FallsBack before.publicBaseUrl after.publicBaseUrl config.publicBaseUrl
  presignTtl : FallsBack before.presignTtl after.presignTtl (some config.presignTtlSeconds)
  secretKey : FallsBack before.secretKey after.secretKey config.secretKey

/-- A field that is not saved later is named without a value, or it is not named and was not saved. -/
theorem fallsBack_iff {α : Type} {before after fallback : Option α} {unsaved unnamed : Prop}
    (h : after = none ↔ unsaved ∨ (unnamed ∧ before = none)) :
    FallsBack before after fallback ↔
      (unsaved → ∀ value, before = some value → fallback = some value) := by
  constructor
  · exact fun hfalls hunsaved => hfalls (h.mpr (.inl hunsaved))
  · intro hunsaved hnone value hvalue
    rcases h.mp hnone with hu | ⟨-, hbefore⟩
    · exact hunsaved hu value hvalue
    · rw [hbefore] at hvalue
      cases hvalue

theorem or_eq_iff {α : Type} (before fallback : Option α) :
    before.or fallback = fallback ↔ ∀ value, before = some value → fallback = some value := by
  cases before <;> simp [eq_comm]

theorem getD_eq_iff {α : Type} (before : Option α) (fallback : α) :
    before.getD fallback = fallback ↔
      ∀ value, before = some value → some fallback = some value := by
  cases before <;> simp [eq_comm]

theorem or_or_eq_iff {α : Type} (before after fallback : Option α) :
    after.or (before.or fallback) = after.or fallback ↔ FallsBack before after fallback := by
  cases after with
  | some value => simp [FallsBack]
  | none => cases before <;> simp [FallsBack, eq_comm]

theorem getD_getD_eq_iff {α : Type} (before after : Option α) (fallback : α) :
    after.getD (before.getD fallback) = after.getD fallback ↔
      FallsBack before after (some fallback) := by
  cases after with
  | some value => simp [FallsBack]
  | none => cases before <;> simp [FallsBack, eq_comm]

/-- **A setting over another one is the setting alone where no field falls back.** -/
theorem overlaid_overlaid_eq_iff (before after : Saved) :
    (config.overlaid before).overlaid after = config.overlaid after ↔ Harmless config before after := by
  rw [overlaid, overlaid, overlaid, FilesConfig.mk.injEq]
  simp only [or_or_eq_iff, getD_getD_eq_iff, true_and, and_true]
  constructor
  · rintro ⟨hadapter, hurl, hendpoint, hbucket, hregion, haccess, hsecret, httl⟩
    exact ⟨hadapter, hendpoint, hbucket, hregion, haccess, hurl, httl, hsecret⟩
  · rintro ⟨hadapter, hendpoint, hbucket, hregion, haccess, hurl, httl, hsecret⟩
    exact ⟨hadapter, hurl, hendpoint, hbucket, hregion, haccess, hsecret, httl⟩

end Over

end FilesConfig

end LazyPock.Files
