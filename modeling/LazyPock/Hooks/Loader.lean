import LazyPock.Records.Write

/-!
# Hook files

The loader of `crates/hooks/src/loader.rs`: it finds the hook files of a directory, loads them into a
new runtime and keeps a signature of what it loaded, the paths with a hash of the contents. A load that
fails leaves the runtime that serves.

The JavaScript engine, the removal of types and the hash are a parameter, `HookEngine`. A load reads the
directory in one step.

## Main definitions

* `HookFile`, `discover`: the hook files of a directory.
* `HookEngine`, `HookEngine.loaded`: the runtime that a set of files is loaded into.
* `HookLoader.load`, `HookLoader.reloadIfChanged`.

## Main results

* `HookLoader.load_of_loaded`, `HookLoader.load_of_error`: what a load leaves.
-/

namespace LazyPock

open Records Text

/-! ### Files -/

/-- The contents of a file. -/
inductive Contents where
  | text (source : String)
  /-- Bytes that are no UTF-8. -/
  | binary (bytes : List UInt8)
deriving DecidableEq

/-- An entry of the hooks directory. -/
structure DirEntry where
  path : String
  isFile : Bool
  /-- The contents, where they can be read. -/
  contents : Option Contents
deriving DecidableEq

/-- A hook file. -/
structure HookFile where
  path : String
  contents : Option Contents
deriving DecidableEq

/-- The suffix a hook file has. -/
def hookSuffix : String := ".pb.ts"

/-- The suffix a plain JavaScript hook file has, which needs no stripping. -/
def jsHookSuffix : String := ".pb.js"

/-- Every hook file in the directory, sorted; a missing directory has none. -/
def discover (directory : Option (List DirEntry)) : List HookFile :=
  let files := (directory.getD []).filter fun entry =>
    entry.isFile && (endsWith hookSuffix entry.path || endsWith jsHookSuffix entry.path)
  (files.map fun entry => ⟨entry.path, entry.contents⟩).insertionSort fun f g => f.path ≤ g.path

/-- A hook file and a hash of its contents. -/
structure FileSignature where
  path : String
  hash : UInt64
deriving DecidableEq

/-! ### The engine -/

/-- An event of a record that handlers are registered for. -/
inductive RecordEvent where
  | beforeCreate
  | afterCreate
  | beforeUpdate
  | afterUpdate
  | beforeDelete
  | afterDelete
deriving DecidableEq

/-- Every event. -/
def RecordEvent.all : List RecordEvent :=
  [beforeCreate, afterCreate, beforeUpdate, afterUpdate, beforeDelete, afterDelete]

/-- One dispatch to the hooks. -/
structure Dispatch where
  event : RecordEvent
  collection : String
  payload : Json
  /-- The triggering request's context. -/
  context : HookContext

/-- What is done with the sources of hooks, and what a runtime does. -/
structure HookEngine (Runtime : Type) where
  /-- `hash_of` -/
  hash : Contents → UInt64
  /-- Why a file cannot be read. -/
  unreadable : HookFile → String
  /-- `strip_types`, of a source and its path. -/
  strip : String → String → Except String String
  /-- `HookRuntime::new` -/
  create : Except String Runtime
  /-- `HookRuntime::load` -/
  load : Runtime → String → Except String Runtime
  /-- `HookRuntime::registered` -/
  registered : Runtime → RecordEvent → String → Result ℕ
  /-- `HookRuntime::dispatch` -/
  dispatch : Runtime → Dispatch → Result Json

/-! ### Loading -/

/-- The name of a file, without its directory. -/
def fileName (path : String) : String := ((rsplitOnce '/' path).map Prod.snd).getD path

/-- The name in the first argument of the call that a text starts with. -/
def calledName (rest : List Char) : Option String := do
  let paren ← rest.findIdx? (· = '(')
  match (rest.drop (paren + 1)).dropWhile isWhitespace with
  | quote :: body =>
    if quote ∈ ['"', Char.ofNat 39, Char.ofNat 96] ∧ quote ∈ body then
      some (String.ofList (body.takeWhile (· ≠ quote)))
    else none
  | [] => none

/-- The first string argument of each `onRecord*` call. -/
def collectionNames (source : String) : List String :=
  (source.toList.tails.filter fun rest => "onRecord".toList.isPrefixOf rest).filterMap calledName

/-- The collection names that appear in the hook sources. -/
def collectionsIn (files : List HookFile) : List String :=
  (files.flatMap fun file => match file.contents with
    | some (.text source) => collectionNames source
    | _ => []).eraseDups

/-- What a load or reload did. -/
structure LoadReport where
  /-- Hook files found. -/
  files : ℕ
  /-- Handlers registered in total. -/
  hooks : ℕ
  /-- A file that failed, if any. -/
  error : Option String
deriving DecidableEq

namespace HookEngine

variable {Runtime : Type} (engine : HookEngine Runtime)

/-- The source of a file. -/
def source (file : HookFile) : Except String String :=
  match file.contents with
  | some (.text source) => .ok source
  | _ => .error ("cannot read " ++ file.path ++ ": " ++ engine.unreadable file)

/-- TypeScript is stripped; plain JavaScript is loaded as it is. -/
def code (file : HookFile) (source : String) : Except String String :=
  if endsWith jsHookSuffix file.path then .ok source else engine.strip source file.path

/-- Load one file; its signature is that of what was read. -/
def loadFile (runtime : Runtime) (file : HookFile) : Except String (Runtime × FileSignature) := do
  let source ← engine.source file
  let code ← engine.code file source
  let runtime ← (engine.load runtime code).mapError fun e => fileName file.path ++ ": " ++ e
  .ok (runtime, ⟨file.path, engine.hash (.text source)⟩)

/-- Load files in order, up to the first that fails. -/
def loadFiles : Runtime → List HookFile → Except String (Runtime × List FileSignature)
  | runtime, [] => .ok (runtime, [])
  | runtime, file :: rest => do
    let (runtime, signature) ← engine.loadFile runtime file
    let (runtime, signatures) ← loadFiles runtime rest
    .ok (runtime, signature :: signatures)

/-- Load files into a new runtime. -/
def build (files : List HookFile) : Except String (Runtime × List FileSignature) := do
  let runtime ← engine.create
  engine.loadFiles runtime files

/-- The handlers that are registered for the collections in the sources. -/
def countHooks (runtime : Runtime) (files : List HookFile) : ℕ :=
  (RecordEvent.all.flatMap fun event => (collectionsIn files).map fun collection =>
    match engine.registered runtime event collection with
    | .ok count => count
    | .error _ => 0).sum

/-- The signature of files: those that cannot be read are passed over. -/
def signatures (files : List HookFile) : List FileSignature :=
  files.filterMap fun file => file.contents.map fun contents => ⟨file.path, engine.hash contents⟩

/-- **The runtime that a set of files is loaded into**, none where there are no files. -/
def loaded (files : List HookFile) : Except String (Option Runtime) :=
  if files = [] then .ok none else (engine.build files).map fun built => some built.1

variable {engine}

/-- What was loaded was read. -/
theorem signature_of_loadFile {runtime after : Runtime} {file : HookFile} {signature : FileSignature}
    (h : engine.loadFile runtime file = .ok (after, signature)) :
    ∃ contents, file.contents = some contents ∧ signature = ⟨file.path, engine.hash contents⟩ := by
  obtain ⟨source, hsource, h⟩ := bind_eq_ok.mp h
  obtain ⟨code, -, h⟩ := bind_eq_ok.mp h
  obtain ⟨next, -, h⟩ := bind_eq_ok.mp h
  obtain ⟨-, rfl⟩ := Prod.mk.inj (Except.ok.inj h)
  refine ⟨.text source, ?_, rfl⟩
  unfold HookEngine.source at hsource
  split at hsource
  next text htext =>
    obtain rfl := Except.ok.inj hsource
    exact htext
  next => cases hsource

theorem signatures_of_loadFiles {files : List HookFile} {runtime after : Runtime}
    {found : List FileSignature} (h : engine.loadFiles runtime files = .ok (after, found)) :
    found = engine.signatures files := by
  induction files generalizing runtime after found with
  | nil =>
    obtain ⟨-, rfl⟩ := Prod.mk.inj (Except.ok.inj h)
    rfl
  | cons file rest ih =>
    obtain ⟨⟨next, signature⟩, hfile, h⟩ := bind_eq_ok.mp h
    obtain ⟨⟨last, signatures⟩, hrest, h⟩ := bind_eq_ok.mp h
    obtain ⟨rfl, rfl⟩ := Prod.mk.inj (Except.ok.inj h)
    obtain ⟨contents, hcontents, rfl⟩ := signature_of_loadFile hfile
    rw [ih hrest, HookEngine.signatures, HookEngine.signatures, List.filterMap_cons, hcontents]
    rfl

end HookEngine

/-! ### The loader -/

/-- Loads hooks from a directory and keeps them current. -/
structure HookLoader (Runtime : Type) where
  /-- The runtime currently serving, if hooks have ever loaded cleanly. -/
  runtime : Option Runtime
  signature : List FileSignature
  /-- The most recent failure. -/
  lastError : Option String

namespace HookLoader

variable {Runtime : Type} (engine : HookEngine Runtime) (loader : HookLoader Runtime)
  (directory : Option (List DirEntry))

/-- Nothing is read until `load`. -/
def new : HookLoader Runtime := ⟨none, [], none⟩

/-- Whether a runtime is serving. -/
def isActive : Bool := loader.runtime.isSome

/-- Read and load every hook file, replacing the runtime; on any failure the previous one is kept. -/
def load : HookLoader Runtime × LoadReport :=
  let files := discover directory
  if files = [] then (⟨none, [], none⟩, ⟨0, 0, none⟩)
  else match engine.build files with
    | .ok (runtime, signature) =>
      (⟨some runtime, signature, none⟩, ⟨files.length, engine.countHooks runtime files, none⟩)
    | .error e => ({ loader with lastError := some e }, ⟨files.length, 0, some e⟩)

/-- Reload only when a file's contents have changed. -/
def reloadIfChanged : HookLoader Runtime × Option LoadReport :=
  if engine.signatures (discover directory) = loader.signature then (loader, none)
  else
    let (after, report) := loader.load engine directory
    (after, some report)

/-- Run the hooks for an event; nothing where no runtime is serving. -/
def dispatch (call : Dispatch) : Result (Option Json) :=
  match loader.runtime with
  | none => .ok none
  | some runtime => some <$> engine.dispatch runtime call

variable {engine loader directory}

/-- **A load that succeeds** serves what the directory holds. -/
theorem load_of_loaded {runtime : Option Runtime}
    (h : engine.loaded (discover directory) = .ok runtime) :
    (loader.load engine directory).1 = ⟨runtime, engine.signatures (discover directory), none⟩ ∧
      (loader.load engine directory).2.error = none := by
  unfold HookEngine.loaded at h
  unfold load
  dsimp only
  split_ifs at h ⊢ with hempty
  · obtain rfl := Except.ok.inj h
    rw [hempty]
    exact ⟨rfl, rfl⟩
  · cases hbuild : engine.build (discover directory) with
    | error e => rw [hbuild] at h; cases h
    | ok built =>
      obtain ⟨after, signature⟩ := built
      rw [hbuild] at h
      obtain rfl := Except.ok.inj h
      obtain ⟨_, -, hfiles⟩ := bind_eq_ok.mp hbuild
      rw [HookEngine.signatures_of_loadFiles hfiles]
      exact ⟨rfl, rfl⟩

/-- **A load that fails** leaves the runtime and the signature. -/
theorem load_of_error {e : String} (h : engine.loaded (discover directory) = .error e) :
    (loader.load engine directory).1 = { loader with lastError := some e } ∧
      (loader.load engine directory).2.error = some e := by
  unfold HookEngine.loaded at h
  unfold load
  dsimp only
  split_ifs at h ⊢ with hempty
  cases hbuild : engine.build (discover directory) with
  | ok built => rw [hbuild] at h; cases h
  | error e' =>
    rw [hbuild] at h
    obtain rfl := Except.error.inj h
    exact ⟨rfl, rfl⟩

end HookLoader

end LazyPock
