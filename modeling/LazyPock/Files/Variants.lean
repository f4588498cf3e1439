import LazyPock.Files.Presets
import LazyPock.Machine.Runs

/-!
# The variants of a file

`crates/api/src/files.rs`: a thumbnail is generated when it is asked for first, and kept in the storage.
The row of its file lists it in `variants`, so that it is deleted with the file. Each request reads the
row, stores what is missing, and writes the whole `variants` of the row back, as it read them and with
its own entries; others do the same meanwhile.

So an entry is lost when a request writes back what it read before the entry was there. A thumbnail is
never listed when it was asked for under `/thumbs/` or `/scale/`, which write nothing, and when a later
one of the same request fails, since `generate_variants` writes at its end. `Variants.tracked_of_run`
says that nothing else can go wrong.

## Main definitions

* `Variants.Request`: a request that is under way.
* `Variants.State`, `Variants.step`.
* `Variants.State.Tracked`: every thumbnail that was stored for a live row is listed there.

## Main results

* `Variants.mem_keys_of_listed`: what is listed is deleted with the file.
* `Variants.sound_step_iff`, `Variants.tracked_of_run`.
* `Variants.path_is_not_tracked`.
-/

namespace LazyPock.Variants

open Text Machine Files List

/-! ### Rows -/

/-- What the requests use of a row of `_files`. -/
structure FileRow where
  id : String
  storagePath : String
  /-- The keys of the generated variants, by their names. -/
  variants : Json
deriving DecidableEq

/-- A queued deletion: what the trigger `_files_deleted` keeps of a row. -/
structure PendingDeletion where
  storagePath : String
  variants : Json

def FileRow.pendingDeletion (row : FileRow) : PendingDeletion := ⟨row.storagePath, row.variants⟩

/-- Every object that a deletion has to remove: the source, then its variants. -/
def PendingDeletion.keys (deletion : PendingDeletion) : List String :=
  deletion.storagePath :: ((deletion.variants.asObject.getD []).filterMap fun entry => entry.2.asStr).filter
    fun key => key ≠ deletion.storagePath

/-- A key is a value of the row's variants. -/
def Listed (variants : Json) (key : String) : Prop := ∃ name, variants.get name = some (.string key)

/-! ### Requests -/

/-- How variants are asked for. -/
inductive Route where
  /-- `GET /api/files/{id}?thumb=` and `?preset=`. -/
  | query
  /-- `GET /api/files/{id}/thumbs/{size}` and `/scale/{size}`. -/
  | path
  /-- An upload with `variants`, or the completion of one. -/
  | eager
deriving DecidableEq

/-- A request that is under way. -/
structure Request where
  route : Route
  /-- The row as the request read it. -/
  file : FileRow
  todo : List String
  /-- The variants that are in the storage. -/
  made : List ImagePreset
  /-- The one that was looked for and is not there. -/
  rendering : Option ImagePreset
deriving DecidableEq

/-- A stored preset, by its name. -/
def namedPreset (presets : List PresetRow) (name : String) : Result ImagePreset := do
  let found ← findPreset presets name
  okOr (.notFound ("no image preset named " ++ debug name)) found

/-- Resolve a `size` the way a client means it. -/
def variantPreset (presets : List PresetRow) (specification : String) : Result ImagePreset :=
  if 'x' ∈ specification.toList then ImagePreset.parseSize specification
  else namedPreset presets specification

/-- The preset that a route means. -/
def Route.resolve (presets : List PresetRow) (route : Route) (specification : String) :
    Result ImagePreset :=
  match route with
  | .eager => namedPreset presets specification
  | .query | .path => variantPreset presets specification

/-- An entry for a thumbnail. Nothing is inserted into what is no object. -/
def insertVariant (source : String) (variants : Json) (preset : ImagePreset) : Json :=
  match variants with
  | .object entries => .object (Assoc.insert preset.name (.string (preset.thumbnailKey source)) entries)
  | other => other

/-- What `generate_variants` has collected. -/
def Request.generated (request : Request) : Json :=
  request.made.foldl (insertVariant request.file.storagePath) request.file.variants

/-- What `remember_variant` writes, where it writes. -/
def rememberVariant (file : FileRow) (preset : ImagePreset) : Option Json :=
  if file.variants.isObject = false then none
  else if (file.variants.get preset.name).bind Json.asStr =
      some (preset.thumbnailKey file.storagePath) then none
  else some (insertVariant file.storagePath file.variants preset)

/-- What a request writes into the row at its end. -/
def Request.written (request : Request) : Option Json :=
  match request.route with
  | .path => none
  | .query => request.made.head?.bind (rememberVariant request.file)
  | .eager => some request.generated

/-- A variant is in the storage. -/
def Request.make (request : Request) (preset : ImagePreset) : Request :=
  { request with made := request.made ++ [preset], rendering := none }

/-! ### The system -/

/-- The rows, the storage, and the requests that are under way. -/
structure State where
  rows : List FileRow
  /-- The ids that were drawn for rows; none is drawn twice. -/
  drawn : List String
  objects : List String
  requests : List Request
  /-- The thumbnails that were stored, each with the row of its source. -/
  stored : List (String × String)
deriving DecidableEq

/-- A server with some files. -/
def State.initial (rows : List FileRow) (objects : List String) : State :=
  ⟨rows, rows.map FileRow.id, objects, [], []⟩

/-- What can happen. A request that is under way is named by its position. -/
inductive Event where
  | thumbnail (id : String) (thumb preset : Option String)
  | sized (id size : String)
  /-- An upload that was accepted. -/
  | upload (id storagePath variants : String)
  /-- A completion that was accepted. -/
  | complete (id variants : String)
  /-- The request looks for its next variant. -/
  | look (request : ℕ)
  /-- The request stores it, or the source, the resize or the storage fails. -/
  | store (request : ℕ) (succeeds : Bool)
  /-- The request writes the row. -/
  | finish (request : ℕ)
  | delete (id : String)

variable (presets : List PresetRow)

/-- A request that names a file has read its row. -/
def State.start (state : State) (route : Route) (id : String) (todo : List String) : State :=
  match state.rows.find? fun row => row.id = id with
  | none => state
  | some file => { state with requests := ⟨route, file, todo, [], none⟩ :: state.requests }

/-- The names in `variants`. -/
def requestedVariants (variants : String) : List String :=
  ((splitOn ',' variants).map trim).filter (· ≠ "")

/-- `generate_variants` is called where variants are named. -/
def State.startEager (state : State) (id variants : String) : State :=
  if requestedVariants variants = [] then state
  else state.start .eager id (requestedVariants variants)

/-- The first half of `variant_bytes`; `others` are the other requests. -/
def State.look (state : State) (request : Request) (others : List Request) : Option State :=
  match request.rendering, request.todo with
  | none, name :: rest => match request.route.resolve presets name with
    | .error _ => some { state with requests := others }
    | .ok preset =>
      if preset.thumbnailKey request.file.storagePath ∈ state.objects then
        some { state with requests := { request with todo := rest }.make preset :: others }
      else some { state with
        requests := { request with todo := rest, rendering := some preset } :: others }
  | _, _ => none

/-- The second half of `variant_bytes`. -/
def State.put (state : State) (request : Request) (others : List Request) (succeeds : Bool) :
    Option State :=
  request.rendering.map fun preset =>
    let key := preset.thumbnailKey request.file.storagePath
    if succeeds then { state with
      objects := key :: state.objects
      requests := request.make preset :: others
      stored := (request.file.id, key) :: state.stored }
    else { state with requests := others }

/-- `set_variants` -/
def setVariants (rows : List FileRow) (id : String) (variants : Json) : List FileRow :=
  rows.map fun row => if row.id = id then { row with variants } else row

/-- The end of a request. -/
def State.finish (state : State) (request : Request) (others : List Request) : Option State :=
  match request.rendering, request.todo with
  | none, [] => some { state with
      rows := match request.written with
        | some variants => setVariants state.rows request.file.id variants
        | none => state.rows
      requests := others }
  | _, _ => none

/-- One step. -/
def step (state : State) : Event → Option State
  | .thumbnail id thumb preset => match thumb, preset with
    | some specification, none | none, some specification =>
      some (state.start .query id [specification])
    -- The source itself, and a request that gives both.
    | _, _ => some state
  | .sized id size => some (state.start .path id [size])
  | .upload id storagePath variants =>
    if id ∈ state.drawn then none
    else
      let next := { state with
        rows := ⟨id, storagePath, .object []⟩ :: state.rows
        drawn := id :: state.drawn }
      some (next.startEager id variants)
  | .complete id variants => some (state.startEager id variants)
  | .look i => state.requests[i]?.bind fun request =>
    state.look presets request (state.requests.eraseIdx i)
  | .store i succeeds => state.requests[i]?.bind fun request =>
    state.put request (state.requests.eraseIdx i) succeeds
  | .finish i => state.requests[i]?.bind fun request =>
    state.finish request (state.requests.eraseIdx i)
  | .delete id => some { state with rows := state.rows.filter fun row => row.id ≠ id }

/-- The steps as a relation. -/
def Step (state : State) (event : Event) (next : State) : Prop := step presets state event = some next

instance (state : State) (event : Event) (next : State) : Decidable (Step presets state event next) :=
  inferInstanceAs (Decidable (_ = _))

/-- Every thumbnail that was stored for a live row is listed in its variants, and is removed when the
row is deleted. -/
def State.Tracked (state : State) : Prop :=
  ∀ stored ∈ state.stored, ∀ row ∈ state.rows, row.id = stored.1 →
    Listed row.variants stored.2 ∧ stored.2 ∈ row.pendingDeletion.keys

/-! ### What keeps track of a thumbnail -/

/-- The request is going to list the thumbnail. -/
def Request.Holds (request : Request) (id key : String) : Prop :=
  request.file.id = id ∧ ∃ preset ∈ request.made,
    preset.thumbnailKey request.file.storagePath = key ∧
      ∃ variants, request.written = some variants ∧ variants.get preset.name = some (.string key)

/-- The row lists the thumbnail, or a request is going to. -/
def Kept (requests : List Request) (row : FileRow) (key : String) : Prop :=
  Listed row.variants key ∨ ∃ request ∈ requests, request.Holds row.id key

/-- What holds of every request. -/
structure Request.WellFormed (request : Request) : Prop where
  /-- A stored preset is found under its name. -/
  named : request.route = .eager → ∀ preset, preset ∈ request.made ∨ preset ∈ request.rendering →
    namedPreset presets preset.name = .ok preset
  /-- A variant that is asked for by itself is the only one of its request. -/
  single : request.route ≠ .eager →
    request.todo.length + request.made.length + request.rendering.toList.length = 1

/-- What holds along careful runs. -/
structure State.Sound (state : State) : Prop where
  kept : ∀ stored ∈ state.stored, ∀ row ∈ state.rows, row.id = stored.1 →
    Kept state.requests row stored.2
  rows : ∀ row ∈ state.rows, row.id ∈ state.drawn
  stored : ∀ stored ∈ state.stored, stored.1 ∈ state.drawn
  requests : ∀ request ∈ state.requests, request.file.id ∈ state.drawn
  wellFormed : ∀ request ∈ state.requests, request.WellFormed presets

/-- Whatever the request was going to list is kept without it. -/
def State.MayAbandon (state : State) (request : Request) (others : List Request) : Prop :=
  ∀ stored ∈ state.stored, ∀ row ∈ state.rows, row.id = stored.1 →
    request.Holds row.id stored.2 → Kept others row stored.2

/-- The steps that lose track of no thumbnail. -/
def Careful (state : State) : Event → Prop
  -- A request that fails has stored nothing that is to be listed.
  | .look i => ∀ request, state.requests[i]? = some request → request.rendering = none →
    ∀ name rest, request.todo = name :: rest →
      isOk (request.route.resolve presets name) = false →
        state.MayAbandon request (state.requests.eraseIdx i)
  | .store i succeeds => ∀ request, state.requests[i]? = some request →
    ∀ preset, request.rendering = some preset →
      if succeeds then
        -- A request that stores a thumbnail writes it, or it is listed.
        ∀ row ∈ state.rows, row.id = request.file.id →
          (request.make preset).Holds row.id (preset.thumbnailKey request.file.storagePath) ∨
            Kept (state.requests.eraseIdx i) row (preset.thumbnailKey request.file.storagePath)
      else state.MayAbandon request (state.requests.eraseIdx i)
  -- What is written has every entry that the row has.
  | .finish i => ∀ request, state.requests[i]? = some request → request.rendering = none →
    request.todo = [] → ∀ variants, request.written = some variants →
      ∀ stored ∈ state.stored, ∀ row ∈ state.rows, row.id = stored.1 → row.id = request.file.id →
        Listed row.variants stored.2 →
          Kept (state.requests.eraseIdx i) { row with variants } stored.2
  | _ => True

section Keeping

variable {presets} {state next : State} {event : Event} {request : Request} {others : List Request}
  {row : FileRow} {id key : String}

/-- **What is listed is deleted with the file.** -/
theorem mem_keys_of_listed (h : Listed row.variants key) : key ∈ row.pendingDeletion.keys := by
  obtain ⟨name, hname⟩ := h
  by_cases hsource : key = row.storagePath
  · exact hsource ▸ mem_cons_self
  · refine mem_cons_of_mem _ (mem_filter.mpr ⟨?_, decide_eq_true hsource⟩)
    cases hvariants : row.variants with
    | object entries =>
      rw [hvariants] at hname
      refine mem_filterMap.mpr ⟨(name, .string key), ?_, rfl⟩
      simp only [FileRow.pendingDeletion, hvariants, Json.asObject, Option.getD_some]
      exact Assoc.mem_of_lookup hname
    | _ =>
      rw [hvariants] at hname
      cases hname

variable {preset : ImagePreset}

/-- The entries behind an insertion. -/
theorem get_insertVariant {source : String} {variants : Json} {name : String}
    {value : Json} (h : variants.get name = some value)
    (hsame : preset.name = name → value = .string (preset.thumbnailKey source)) :
    (insertVariant source variants preset).get name = some value := by
  cases variants with
  | object entries =>
    by_cases hname : name = preset.name
    · subst hname
      rw [hsame rfl]
      exact Assoc.lookup_insert_self ..
    · exact (Assoc.lookup_insert_of_ne hname ..).trans h
  | _ => cases h

/-- A request that writes nothing holds nothing. -/
theorem Request.not_holds_of_written (h : request.written = none) : ¬ request.Holds id key := by
  rintro ⟨-, preset, -, -, variants, hwritten, -⟩
  rw [h] at hwritten
  cases hwritten

theorem name_of_namedPreset {name : String}
    (h : namedPreset presets name = .ok preset) : preset.name = name := by
  obtain ⟨found, hfound, h⟩ := bind_eq_ok.mp h
  exact name_of_findPreset (okOr_eq_ok.mp h ▸ hfound)

/-- A request that looks for its next variant. -/
theorem Request.WellFormed.look (h : request.WellFormed presets) (hrendering : request.rendering = none)
    {name : String} {rest : List String} (htodo : request.todo = name :: rest)
    (hresolve : request.route.resolve presets name = .ok preset) :
    { request with todo := rest, rendering := some preset }.WellFormed presets := by
  refine ⟨fun hroute other hother => ?_, fun hroute => ?_⟩
  · rcases hother with hmade | hother
    · exact h.named hroute other (.inl hmade)
    · obtain rfl := Option.some.inj hother
      dsimp only at hroute
      rw [hroute] at hresolve
      rw [name_of_namedPreset hresolve]
      exact hresolve
  · have hsingle := h.single hroute
    simp only [htodo, hrendering, length_cons, Option.toList_none, length_nil,
      Option.toList_some] at hsingle ⊢
    omega

/-- A request that has its next variant. -/
theorem Request.WellFormed.make (h : request.WellFormed presets)
    (hrendering : request.rendering = some preset) : (request.make preset).WellFormed presets := by
  refine ⟨fun hroute other hother => ?_, fun hroute => ?_⟩
  · rcases hother with hmade | hother
    · rcases mem_append.mp hmade with hmade | hnew
      · exact h.named hroute other (.inl hmade)
      · exact h.named hroute other (.inr (mem_singleton.mp hnew ▸ hrendering))
    · cases hother
  · have hsingle := h.single hroute
    rw [hrendering] at hsingle
    simp only [Request.make, length_append, length_singleton, Option.toList_none,
      length_nil, Option.toList_some] at hsingle ⊢
    omega

/-- A request that goes on holds what it held. -/
theorem Request.Holds.make (hwell : request.WellFormed presets) {preset : ImagePreset}
    (hrendering : request.rendering = some preset) (h : request.Holds id key) :
    (request.make preset).Holds id key := by
  obtain ⟨hid, made, hmade, hkey, variants, hwritten, hget⟩ := h
  refine ⟨hid, made, mem_append_left _ hmade, hkey, ?_⟩
  by_cases hroute : request.route = .eager
  · simp only [Request.written, hroute, Option.some.injEq] at hwritten
    refine ⟨(request.make preset).generated, by simp only [Request.written, Request.make, hroute], ?_⟩
    rw [Request.generated, Request.make, foldl_append, foldl_cons, foldl_nil]
    subst hwritten
    refine get_insertVariant hget fun hname => ?_
    -- Presets of one name are the same preset, so the entry is written again.
    have hsame := hwell.named hroute preset (.inr hrendering)
    rw [hname, hwell.named hroute made (.inl hmade)] at hsame
    rw [← Except.ok.inj hsame, hkey]
  · have hsingle := hwell.single hroute
    rw [hrendering, Option.toList_some, length_singleton] at hsingle
    have := length_pos_of_mem hmade
    omega

theorem kept_cons : Kept (request :: others) row key ↔ request.Holds row.id key ∨ Kept others row key := by
  simp only [Kept, exists_mem_cons_iff]
  exact or_left_comm

variable {i : ℕ}

/-- A request among the others. -/
theorem mem_iff_eraseIdx {requests : List Request} (h : requests[i]? = some request)
    (other : Request) : other ∈ requests ↔ other = request ∨ other ∈ requests.eraseIdx i := by
  induction requests generalizing i with
  | nil => cases h
  | cons first requests ih =>
    cases i with
    | zero =>
      obtain rfl := Option.some.inj h
      exact mem_cons
    | succ i =>
      rw [eraseIdx_cons_succ, mem_cons, mem_cons, ih h]
      exact or_left_comm

theorem kept_of_get {requests : List Request} (h : requests[i]? = some request) :
    Kept requests row key ↔ request.Holds row.id key ∨ Kept (requests.eraseIdx i) row key := by
  rw [← kept_cons]
  simp only [Kept, mem_iff_eraseIdx h, mem_cons]

/-- A request that starts holds nothing. -/
theorem sound_start (h : state.Sound presets) {route : Route} {todo : List String}
    (htodo : route ≠ .eager → todo.length = 1) : (state.start route id todo).Sound presets := by
  unfold State.start
  cases hfind : state.rows.find? fun row => row.id = id with
  | none => exact h
  | some file =>
    refine ⟨fun stored hstored row hrow hid => kept_cons.mpr (.inr (h.kept stored hstored row hrow hid)),
      h.rows, h.stored, ?_, ?_⟩
    · rintro request (_ | ⟨_, hrequest⟩)
      · exact h.rows file (mem_of_find?_eq_some hfind)
      · exact h.requests request hrequest
    · rintro request (_ | ⟨_, hrequest⟩)
      · exact ⟨fun _ preset hpreset => by simp at hpreset, fun hroute => by simpa using htodo hroute⟩
      · exact h.wellFormed request hrequest

theorem sound_startEager (h : state.Sound presets) {variants : String} :
    (state.startEager id variants).Sound presets := by
  unfold State.startEager
  split_ifs
  · exact h
  · exact sound_start h fun hroute => absurd rfl hroute

/-- What a step of one request leaves to be shown. -/
theorem sound_of_others (h : state.Sound presets) (hget : state.requests[i]? = some request)
    (hrows : ∀ row' ∈ next.rows, ∃ row ∈ state.rows, row'.id = row.id)
    (hdrawn : next.drawn = state.drawn)
    (hstored : ∀ stored ∈ next.stored, stored ∈ state.stored ∨ stored.1 = request.file.id)
    (hrequests : ∀ other ∈ next.requests, other ∈ state.requests.eraseIdx i ∨
      (other.file = request.file ∧ other.WellFormed presets))
    (hkept : ∀ stored ∈ next.stored, ∀ row ∈ next.rows, row.id = stored.1 →
      Kept next.requests row stored.2) : next.Sound presets := by
  have hmem : request ∈ state.requests := (mem_iff_eraseIdx hget request).mpr (.inl rfl)
  have hother : ∀ other ∈ state.requests.eraseIdx i, other ∈ state.requests := fun other h =>
    (mem_iff_eraseIdx hget other).mpr (.inr h)
  refine ⟨hkept, fun row' hrow' => ?_, fun stored hmemStored => ?_, fun other hmemOther => ?_,
    fun other hmemOther => ?_⟩
  · obtain ⟨row, hrow, hid⟩ := hrows row' hrow'
    exact hdrawn ▸ hid ▸ h.rows row hrow
  · rcases hstored stored hmemStored with hold | hid
    · exact hdrawn ▸ h.stored stored hold
    · exact hdrawn ▸ hid ▸ h.requests request hmem
  · rcases hrequests other hmemOther with hold | ⟨hfile, -⟩
    · exact hdrawn ▸ h.requests other (hother other hold)
    · exact hdrawn ▸ hfile ▸ h.requests request hmem
  · rcases hrequests other hmemOther with hold | ⟨-, hwell⟩
    · exact h.wellFormed other (hother other hold)
    · exact hwell

/-- A request that ends without writing. -/
theorem sound_abandon_iff (h : state.Sound presets) (hget : state.requests[i]? = some request) :
    ({ state with requests := state.requests.eraseIdx i } : State).Sound presets ↔
      state.MayAbandon request (state.requests.eraseIdx i) := by
  constructor
  · exact fun hnext stored hstored row hrow hid _ => hnext.kept stored hstored row hrow hid
  · intro habandon
    refine sound_of_others h hget (fun row hrow => ⟨row, hrow, rfl⟩) rfl
      (fun stored hstored => .inl hstored) (fun other hother => .inl hother)
      fun stored hstored row hrow hid => ?_
    rcases (kept_of_get hget).mp (h.kept stored hstored row hrow hid) with hholds | hkept
    · exact habandon stored hstored row hrow hid hholds
    · exact hkept

/-- A request that goes on. -/
theorem sound_goOn (h : state.Sound presets) (hget : state.requests[i]? = some request)
    {request' : Request} (hfile : request'.file = request.file) (hwell : request'.WellFormed presets)
    (hholds : ∀ id key, request.Holds id key → request'.Holds id key) :
    ({ state with requests := request' :: state.requests.eraseIdx i } : State).Sound presets := by
  refine sound_of_others h hget (fun row hrow => ⟨row, hrow, rfl⟩) rfl
    (fun stored hstored => .inl hstored) ?_ fun stored hstored row hrow hid => ?_
  · rintro other (_ | ⟨_, hother⟩)
    · exact .inr ⟨hfile, hwell⟩
    · exact .inl hother
  · exact kept_cons.mpr (((kept_of_get hget).mp (h.kept stored hstored row hrow hid)).imp_left
      (hholds row.id stored.2))

theorem sound_look_iff (h : state.Sound presets) (hget : state.requests[i]? = some request)
    (hlook : state.look presets request (state.requests.eraseIdx i) = some next) :
    next.Sound presets ↔ Careful presets state (.look i) := by
  have hwell := h.wellFormed request ((mem_iff_eraseIdx hget request).mpr (.inl rfl))
  unfold State.look at hlook
  split at hlook
  · rename_i name rest hrendering htodo
    have hcareful : Careful presets state (.look i) ↔
        (isOk (request.route.resolve presets name) = false →
          state.MayAbandon request (state.requests.eraseIdx i)) := by
      constructor
      · exact fun hcareful => hcareful request hget hrendering name rest htodo
      · intro hcareful other hother _ name' rest' htodo'
        obtain rfl := Option.some.inj (hget.symm.trans hother)
        obtain ⟨rfl, rfl⟩ := List.cons.inj (htodo.symm.trans htodo')
        exact hcareful
    rw [hcareful]
    split at hlook
    · rename_i e hrefused
      obtain rfl := Option.some.inj hlook
      rw [sound_abandon_iff h hget, hrefused]
      simp
    · rename_i preset hresolve
      refine iff_of_true ?_ fun hrefused => by simp [hresolve] at hrefused
      have hlooking := hwell.look hrendering htodo hresolve
      split_ifs at hlook
      · obtain rfl := Option.some.inj hlook
        exact sound_goOn h hget rfl (hlooking.make rfl)
          fun id key hholds => Request.Holds.make hlooking rfl hholds
      · obtain rfl := Option.some.inj hlook
        exact sound_goOn h hget rfl hlooking fun id key hholds => hholds
  · cases hlook

theorem sound_put_iff (h : state.Sound presets) (hget : state.requests[i]? = some request)
    {succeeds : Bool} (hput : state.put request (state.requests.eraseIdx i) succeeds = some next) :
    next.Sound presets ↔ Careful presets state (.store i succeeds) := by
  have hwell := h.wellFormed request ((mem_iff_eraseIdx hget request).mpr (.inl rfl))
  obtain ⟨preset, hrendering, hnext⟩ := Option.map_eq_some_iff.mp hput
  have hcareful : Careful presets state (.store i succeeds) ↔
      if succeeds then
        ∀ row ∈ state.rows, row.id = request.file.id →
          (request.make preset).Holds row.id (preset.thumbnailKey request.file.storagePath) ∨
            Kept (state.requests.eraseIdx i) row (preset.thumbnailKey request.file.storagePath)
      else state.MayAbandon request (state.requests.eraseIdx i) := by
    constructor
    · exact fun hcareful => hcareful request hget preset hrendering
    · intro hcareful other hother preset' hrendering'
      obtain rfl := Option.some.inj (hget.symm.trans hother)
      obtain rfl := Option.some.inj (hrendering.symm.trans hrendering')
      exact hcareful
  rw [hcareful]
  cases succeeds with
  | false =>
    simp only [Bool.false_eq_true, if_false] at hnext ⊢
    subst hnext
    exact sound_abandon_iff h hget
  | true =>
    simp only [if_true] at hnext ⊢
    subst hnext
    constructor
    · intro hnext row hrow hid
      exact kept_cons.mp (hnext.kept _ mem_cons_self row hrow hid)
    · intro hnew
      refine sound_of_others h hget (fun row hrow => ⟨row, hrow, rfl⟩) rfl ?_ ?_ ?_
      · rintro stored (_ | ⟨_, hstored⟩)
        · exact .inr rfl
        · exact .inl hstored
      · rintro other (_ | ⟨_, hother⟩)
        · exact .inr ⟨rfl, hwell.make hrendering⟩
        · exact .inl hother
      · rintro stored (_ | ⟨_, hstored⟩) row hrow hid
        · exact kept_cons.mpr (hnew row hrow hid)
        · exact kept_cons.mpr (((kept_of_get hget).mp (h.kept stored hstored row hrow hid)).imp_left
            (Request.Holds.make hwell hrendering))

theorem sound_finish_iff (h : state.Sound presets) (hget : state.requests[i]? = some request)
    (hfinish : state.finish request (state.requests.eraseIdx i) = some next) :
    next.Sound presets ↔ Careful presets state (.finish i) := by
  unfold State.finish at hfinish
  split at hfinish
  · rename_i hrendering htodo
    obtain rfl := Option.some.inj hfinish
    cases hwritten : request.written with
    | none =>
      refine (sound_abandon_iff h hget).trans (iff_of_true ?_ ?_)
      · exact fun _ _ _ _ _ hholds => absurd hholds (Request.not_holds_of_written hwritten)
      · intro other hother _ _ variants hwrites
        obtain rfl := Option.some.inj (hget.symm.trans hother)
        rw [hwritten] at hwrites
        cases hwrites
    | some variants =>
      dsimp only
      constructor
      · intro hnext other hother _ _ variants' hwritten' stored hstored row hrow hid hfile _
        obtain rfl := Option.some.inj (hget.symm.trans hother)
        obtain rfl := Option.some.inj (hwritten.symm.trans hwritten')
        exact hnext.kept stored hstored { row with variants }
          (mem_map.mpr ⟨row, hrow, if_pos hfile⟩) hid
      · intro hcareful
        refine sound_of_others h hget (fun row' hrow' => ?_) rfl
          (fun stored hstored => .inl hstored) (fun other hother => .inl hother)
          fun stored hstored row' hrow' hid => ?_
        · obtain ⟨row, hrow, rfl⟩ := mem_map.mp hrow'
          refine ⟨row, hrow, ?_⟩
          split_ifs <;> rfl
        · obtain ⟨row, hrow, rfl⟩ := mem_map.mp hrow'
          split_ifs at hid ⊢ with hfile
          · rcases (kept_of_get hget).mp (h.kept stored hstored row hrow hid) with
              ⟨-, preset, -, -, variants', hwritten', hlists⟩ | hlisted | hother
            · obtain rfl := Option.some.inj (hwritten.symm.trans hwritten')
              exact .inl ⟨preset.name, hlists⟩
            · exact hcareful request hget hrendering htodo variants hwritten stored hstored row hrow hid
                hfile hlisted
            · exact .inr hother
          · refine ((kept_of_get hget).mp (h.kept stored hstored row hrow hid)).resolve_left ?_
            exact fun hholds => hfile hholds.1.symm
  · cases hfinish

/-- **A step keeps track of every thumbnail exactly when it is careful.** -/
theorem sound_step_iff (h : state.Sound presets) (hstep : Step presets state event next) :
    next.Sound presets ↔ Careful presets state event := by
  unfold Step step at hstep
  cases event with
  | thumbnail id thumb preset =>
    refine iff_of_true ?_ trivial
    dsimp only at hstep
    split at hstep
    · obtain rfl := Option.some.inj hstep
      exact sound_start h fun _ => rfl
    · obtain rfl := Option.some.inj hstep
      exact sound_start h fun _ => rfl
    · obtain rfl := Option.some.inj hstep
      exact h
  | sized id size =>
    refine iff_of_true ?_ trivial
    obtain rfl := Option.some.inj hstep
    exact sound_start h fun _ => rfl
  | upload id storagePath variants =>
    refine iff_of_true ?_ trivial
    dsimp only at hstep
    split_ifs at hstep with hdrawn
    obtain rfl := Option.some.inj hstep
    have hinserted : ({ state with
        rows := ⟨id, storagePath, .object []⟩ :: state.rows
        drawn := id :: state.drawn } : State).Sound presets := by
      refine ⟨?_, ?_, ?_, ?_, h.wellFormed⟩
      · rintro stored hstored row (_ | ⟨_, hrow⟩) hid
        · change id = stored.1 at hid
          exact absurd (hid ▸ h.stored stored hstored) hdrawn
        · exact h.kept stored hstored row hrow hid
      · rintro row (_ | ⟨_, hrow⟩)
        · exact mem_cons_self
        · exact mem_cons_of_mem _ (h.rows row hrow)
      · exact fun stored hstored => mem_cons_of_mem _ (h.stored stored hstored)
      · exact fun request hrequest => mem_cons_of_mem _ (h.requests request hrequest)
    exact sound_startEager hinserted
  | complete id variants =>
    refine iff_of_true ?_ trivial
    obtain rfl := Option.some.inj hstep
    exact sound_startEager h
  | look i =>
    obtain ⟨request, hget, hlook⟩ := Option.bind_eq_some_iff.mp hstep
    exact sound_look_iff h hget hlook
  | store i succeeds =>
    obtain ⟨request, hget, hput⟩ := Option.bind_eq_some_iff.mp hstep
    exact sound_put_iff h hget hput
  | finish i =>
    obtain ⟨request, hget, hfinish⟩ := Option.bind_eq_some_iff.mp hstep
    exact sound_finish_iff h hget hfinish
  | delete id =>
    refine iff_of_true ?_ trivial
    obtain rfl := Option.some.inj hstep
    exact ⟨fun stored hstored row hrow => h.kept stored hstored row (mem_of_mem_filter hrow),
      fun row hrow => h.rows row (mem_of_mem_filter hrow), h.stored, h.requests, h.wellFormed⟩

theorem sound_initial (rows : List FileRow) (objects : List String) :
    (State.initial rows objects).Sound presets :=
  ⟨fun _ hstored => absurd hstored not_mem_nil, fun _ hrow => mem_map_of_mem hrow,
    fun _ hstored => absurd hstored not_mem_nil, fun _ hrequest => absurd hrequest not_mem_nil,
    fun _ hrequest => absurd hrequest not_mem_nil⟩

/-- **In a run of careful steps no thumbnail is lost track of**: when every request was answered, all of
them are listed. -/
theorem tracked_of_run {rows : List FileRow} {objects : List String} {events : List Event}
    (hrun : Run (When (Careful presets) (Step presets)) (State.initial rows objects) events state) :
    (state.requests = [] → state.Tracked) ∧ ∀ event next, Step presets state event next →
      (next.Sound presets ↔ Careful presets state event) := by
  have hsound : state.Sound presets :=
    hrun.invariant (I := State.Sound presets)
      (fun _ _ _ h hstep => (sound_step_iff h hstep.2).mpr hstep.1) (sound_initial rows objects)
  refine ⟨fun hanswered stored hstored row hrow hid => ?_, fun event next hstep =>
    sound_step_iff hsound hstep⟩
  rcases hsound.kept stored hstored row hrow hid with hlisted | ⟨request, hrequest, -⟩
  · exact ⟨hlisted, mem_keys_of_listed hlisted⟩
  · rw [hanswered] at hrequest
    cases hrequest

end Keeping

section Thumbnails

/-- A file of the library. -/
def photo : FileRow := ⟨"fileOfAdaLovela", "library/randomOfAdaLove/photo.png", .object []⟩

/-- **A thumbnail that was asked for under `/thumbs/` is listed nowhere.** -/
theorem path_is_not_tracked :
    ¬ ∀ (presets : List PresetRow) (rows : List FileRow) (objects : List String)
      (events : List Event) (state : State),
      Run (Step presets) (State.initial rows objects) events state →
        state.requests = [] → state.Tracked := by
  intro hall
  have hexec : ((exec (step []) (State.initial [photo] [photo.storagePath])
      [.sized photo.id "100x100", .look 0, .store 0 true, .finish 0]).any fun state =>
        decide (state.requests = []) && decide (photo ∈ state.rows) && state.stored.any fun stored =>
          decide (photo.id = stored.1)) = true := by
    decide
  obtain ⟨state, hstate, hrest⟩ := (Option.any_eq_true _ _).mp hexec
  simp only [Bool.and_eq_true, decide_eq_true_eq, any_eq_true] at hrest
  obtain ⟨⟨hanswered, hrow⟩, stored, hstored, hid⟩ := hrest
  obtain ⟨⟨name, hlisted⟩, -⟩ := hall [] [photo] [photo.storagePath] _ state (run_of_exec hstate) hanswered
    stored hstored photo hrow hid
  cases hlisted

def box : ImagePreset := ⟨"100x100", some 100, some 100, .inside, .webp, 80⟩

def boxKey : String := box.thumbnailKey photo.storagePath

/-- The server while a request for a box is under way. -/
def busy (request : Request) (stored : List (String × String)) : State :=
  ⟨[photo], [photo.id], stored.map Prod.snd ++ [photo.storagePath], [request], stored⟩

/-- The server when the request was answered. -/
def answered : State :=
  ⟨[{ photo with variants := .object [("100x100", .string boxKey)] }], [photo.id],
    [boxKey, photo.storagePath], [], [(photo.id, boxKey)]⟩

/-- A thumbnail that was asked for under `?thumb=` is listed. -/
theorem thumbnail_is_tracked :
    answered.stored = [(photo.id, boxKey)] ∧ (answered.requests = [] → answered.Tracked) ∧
      ∀ event next, Step [] answered event next → (next.Sound [] ↔ Careful [] answered event) := by
  have hlook : Careful [] (busy ⟨.query, photo, ["100x100"], [], none⟩ []) (.look 0) := by
    intro request hget _ name rest htodo hrefused
    obtain rfl := Option.some.inj hget
    obtain ⟨rfl, -⟩ := List.cons.inj htodo
    have hresolves : isOk (Route.query.resolve [] "100x100") = true := by decide
    rw [hresolves] at hrefused
    cases hrefused
  have hstore : Careful [] (busy ⟨.query, photo, [], [], some box⟩ []) (.store 0 true) := by
    intro request hget preset hrendering
    obtain rfl := Option.some.inj hget
    obtain rfl := Option.some.inj hrendering
    rintro row hrow hid
    exact .inl ⟨hid.symm, box, mem_singleton_self _, rfl, _, rfl, by decide⟩
  have hfinish : Careful [] (busy ⟨.query, photo, [], [box], none⟩ [(photo.id, boxKey)])
      (.finish 0) := by
    rintro request - - - variants - stored - row hrow - - ⟨name, hlisted⟩
    obtain rfl := mem_singleton.mp hrow
    cases hlisted
  have hrun : Run (When (Careful []) (Step [])) (State.initial [photo] [photo.storagePath])
      [.thumbnail photo.id (some "100x100") none, .look 0, .store 0 true, .finish 0] answered :=
    .cons ⟨trivial, by decide⟩ (.cons ⟨hlook, by decide⟩
      (.cons ⟨hstore, by decide⟩ (.cons ⟨hfinish, by decide⟩ (.nil _))))
  exact ⟨rfl, tracked_of_run hrun⟩

end Thumbnails

end LazyPock.Variants
