import LazyPock.Files.Attribution
import LazyPock.Files.Validation
import LazyPock.Machine.Disk
import LazyPock.Machine.Runs

/-!
# Objects in a directory

`LocalStorage` of `crates/files/src/storage.rs`: a put writes a temporary file beside the object, piece by
piece, and renames it when it is whole, so that a reader never sees a part. The temporary name is the name
of the object with the extension `part`. Two puts of one key share it, and so do those of two keys that
differ in their extension; a key that ends in `.part` is its own temporary name. The handlers that write
thumbnails (`variant_bytes` of `crates/api/src/files.rs`) put one key as often as it is asked for at the
same time.

A key stands for its path below the root. Directories are left out: a file in the place of a directory is
an error of the file system, which a put or a get may meet at any time.

## Main definitions

* `LocalStorage.State`, `LocalStorage.Event`, `LocalStorage.step`.
* `LocalStorage.State.Atomic`: writes are atomic.
* `LocalStorage.Careful`: the steps that share no temporary file.

## Main results

* `LocalStorage.sound_step`, `LocalStorage.atomic_of_run`.
* `LocalStorage.siblings_tear`.
-/

namespace LazyPock.LocalStorage

open Text Machine Files List

/-! ### The system -/

/-- A put that is under way. -/
structure Put where
  key : String
  body : Bytes
  /-- The temporary file, when it is open. -/
  handle : Option ℕ
  /-- How many bytes were written. -/
  written : ℕ

/-- A get that has opened its object. -/
structure Get where
  key : String
  handle : ℕ
  collected : Bytes

/-- The disk, the calls that are under way, and what has happened: the puts that were begun, those that
succeeded, those whose temporary file was gone, and what the gets have returned. -/
structure State where
  disk : Disk String UInt8
  puts : List Put
  gets : List Get
  begun : List (String × Bytes)
  stored : List (String × Bytes)
  vanished : List (String × Bytes)
  returned : List (String × Option Bytes)

/-- An empty directory. -/
def State.empty : State := ⟨.empty String UInt8, [], [], [], [], [], []⟩

/-- What can happen. A call that is under way is named by its position. -/
inductive Event where
  | put (key : String) (body : Bytes)
  /-- The temporary file is created, or emptied. -/
  | create (put : ℕ)
  /-- The next piece is written. -/
  | write (put length : ℕ)
  | rename (put : ℕ)
  /-- The file system fails in a put. -/
  | failPut (put : ℕ)
  | get (key : String)
  /-- The next piece is read. -/
  | read (get length : ℕ)
  | answer (get : ℕ)
  | failGet (get : ℕ)

/-- One step. A call with a key that is refused does nothing. -/
@[grind =]
def step (state : State) : Event → Option State
  | .put key body =>
    if isOk (checkPath key) then some { state with
      puts := ⟨key, body, none, 0⟩ :: state.puts
      begun := (key, body) :: state.begun }
    else some state
  | .create i => state.puts[i]?.bind fun put => match put.handle with
    | some _ => none
    | none =>
      let (n, disk) := state.disk.truncate (temporaryKey put.key)
      some { state with disk, puts := state.puts.set i { put with handle := some n } }
  | .write i length => state.puts[i]?.bind fun put => put.handle.map fun n => { state with
      disk := state.disk.write n put.written ((put.body.drop put.written).take length)
      puts := state.puts.set i
        { put with written := put.written + ((put.body.drop put.written).take length).length } }
  | .rename i => state.puts[i]?.bind fun put =>
    if put.handle.isSome ∧ put.written = put.body.length then
      match state.disk.rename (temporaryKey put.key) put.key with
      | some disk => some { state with
          disk
          puts := state.puts.eraseIdx i
          stored := (put.key, put.body) :: state.stored }
      -- `cannot finalise`
      | none => some { state with
          puts := state.puts.eraseIdx i
          vanished := (put.key, put.body) :: state.vanished }
    else none
  | .failPut i => some { state with puts := state.puts.eraseIdx i }
  | .get key =>
    if isOk (checkPath key) then match state.disk.names key with
      | some n => some { state with gets := ⟨key, n, []⟩ :: state.gets }
      | none => some { state with returned := (key, none) :: state.returned }
    else some state
  | .read i length => state.gets[i]?.map fun get => { state with
      gets := state.gets.set i { get with
        collected := get.collected ++
          ((state.disk.contents get.handle).drop get.collected.length).take length } }
  | .answer i => state.gets[i]?.bind fun get =>
    -- There is nothing more to read.
    if (state.disk.contents get.handle).length ≤ get.collected.length then some { state with
      gets := state.gets.eraseIdx i
      returned := (get.key, some get.collected) :: state.returned }
    else none
  | .failGet i => some { state with gets := state.gets.eraseIdx i }

/-- The steps as a relation. -/
def Step (state : State) (event : Event) (next : State) : Prop := step state event = some next

/-- **Writes are atomic.** -/
structure State.Atomic (state : State) : Prop where
  /-- A get returns nothing, or the complete body of a put of its key. -/
  gets : ∀ key body, (key, some body) ∈ state.returned → (key, body) ∈ state.begun
  /-- Every put succeeds that meets no error of the file system. -/
  puts : state.vanished = []
  /-- After all puts of a key the object is the body of one of them. -/
  objects : ∀ key, (∀ put ∈ state.puts, put.key ≠ key) → (∃ body, (key, body) ∈ state.stored) →
    ∃ body, (key, body) ∈ state.stored ∧ state.disk.read key = some body

/-- The name is one of a temporary file. -/
def IsTemporary (key : String) : Prop := temporaryKey key = key

/-- The steps that share no temporary file. -/
def Careful (state : State) : Event → Prop
  -- No other put has the file open, and it is not the object itself.
  | .create i => ∀ put ∈ state.puts[i]?, ¬ IsTemporary put.key ∧
    ∀ other ∈ state.puts.eraseIdx i, other.handle.isSome →
      temporaryKey other.key ≠ temporaryKey put.key
  -- What is read is no temporary file.
  | .get key => IsTemporary key → state.disk.names key = none
  | _ => True

instance (key : String) : Decidable (IsTemporary key) :=
  inferInstanceAs (Decidable (temporaryKey key = key))

instance (state : State) : (event : Event) → Decidable (Careful state event)
  | .create i => inferInstanceAs (Decidable (∀ put ∈ state.puts[i]?, ¬ IsTemporary put.key ∧
      ∀ other ∈ state.puts.eraseIdx i, other.handle.isSome →
        temporaryKey other.key ≠ temporaryKey put.key))
  | .get key => inferInstanceAs (Decidable (IsTemporary key → state.disk.names key = none))
  | .put .. | .write .. | .rename _ | .failPut _ | .read .. | .answer _ | .failGet _ =>
    inferInstanceAs (Decidable True)

/-! ### Temporary names -/

section Names

variable {key parent name : String}

theorem directory_append (hname : '/' ∉ name.toList) :
    directory (parent ++ "/" ++ name) = (parent, name) := by
  have hsplit := @rsplitOnce_append _ parent _ hname
  rw [show String.singleton '/' = "/" from rfl] at hsplit
  rw [directory, hsplit]
  rfl

theorem directory_of_notMem (hname : '/' ∉ name.toList) : directory name = ("", name) := by
  cases hsplit : rsplitOnce '/' name with
  | none => rw [directory, hsplit]; rfl
  | some parts =>
    have hlist := @rsplitOnce_eq_some _ _ parts.1 parts.2 hsplit
    exact absurd (hlist ▸ by simp) hname

/-- The file name of a key that is let through. -/
theorem directory_of_checkPath (h : isOk (checkPath key) = true) :
    (directory key).2 ≠ "" ∧ '/' ∉ (directory key).2.toList := by
  obtain ⟨_, h⟩ := isOk_iff.mp h
  obtain ⟨_, hempty, hsegments⟩ := bind_eq_ok.mp h
  have hempty := failIf_eq_ok.mp hempty
  have hsegments := Bool.not_eq_true _ ▸ failIf_eq_ok.mp hsegments
  by_cases hslash : '/' ∈ key.toList
  · obtain ⟨parent, name, hsplit⟩ := exists_rsplitOnce hslash
    have hname := notMem_of_rsplitOnce hsplit
    have hkey : key = parent ++ "/" ++ name := by
      rw [← String.toList_inj, rsplitOnce_eq_some hsplit]
      simp
    rw [hkey, directory_append hname]
    refine ⟨?_, hname⟩
    rintro rfl
    rw [hkey, splitOn_append, splitOn_of_notMem hname, any_append] at hsegments
    simp at hsegments
  · rw [directory_of_notMem hslash]
    exact ⟨hempty, hslash⟩

theorem directory_sibling (hname : '/' ∉ name.toList) :
    directory (sibling key name) = ((directory key).1, name) := by
  rw [sibling]
  split_ifs with hparent
  · rw [directory_of_notMem hname, hparent]
  · exact directory_append hname

/-- The file name of a temporary file, without its extension. -/
@[grind =]
def stemOf (name : String) : String :=
  match rsplitOnce '.' name with
  | some (stem, _) => if stem = "" then name else stem
  | none => name

theorem temporaryKey_eq (key : String) :
    temporaryKey key = sibling key (stemOf (directory key).2 ++ ".part") := by
  rw [temporaryKey, stemOf]
  congr 1
  cases rsplitOnce '.' (directory key).2 <;> rfl

theorem stemOf_ne_empty (h : name ≠ "") : stemOf name ≠ "" := by
  unfold stemOf
  split
  · split_ifs with hstem
    · exact h
    · exact hstem
  · exact h

theorem notMem_stemOf (h : '/' ∉ name.toList) : '/' ∉ (stemOf name).toList := by
  unfold stemOf
  split
  · rename_i stem extension hsplit
    split_ifs
    · exact h
    · rw [rsplitOnce_eq_some hsplit] at h
      exact fun hmem => h (mem_append_left _ hmem)
  · exact h

theorem stemOf_part (h : name ≠ "") : stemOf (name ++ ".part") = name := by
  have hsplit := @rsplitOnce_append '.' name "part" (by decide)
  have hpart : name ++ String.singleton '.' ++ "part" = name ++ ".part" := by
    simp [← String.toList_inj]
  rw [hpart] at hsplit
  rw [stemOf, hsplit]
  exact if_neg h

/-- **A temporary name is its own temporary name.** -/
theorem isTemporary_temporaryKey (h : isOk (checkPath key) = true) : IsTemporary (temporaryKey key) := by
  obtain ⟨hempty, hslash⟩ := directory_of_checkPath h
  have hname : '/' ∉ (stemOf (directory key).2 ++ ".part").toList := by
    rw [String.toList_append]
    exact fun hmem => (mem_append.mp hmem).elim (notMem_stemOf hslash) (by decide)
  rw [IsTemporary, temporaryKey_eq (temporaryKey key), temporaryKey_eq key, directory_sibling hname,
    stemOf_part (stemOf_ne_empty hempty), sibling, directory_sibling hname, sibling]

end Names

/-! ### What careful steps keep -/

/-- Two puts that do not write one temporary file at the same time. -/
def Put.Apart (a b : Put) : Prop :=
  a.handle.isSome → b.handle.isSome → temporaryKey a.key ≠ temporaryKey b.key

/-- The temporary file of a put is its own, and holds what the put has written. -/
structure Put.Owns (disk : Disk String UInt8) (put : Put) (n : ℕ) : Prop where
  object : ¬ IsTemporary put.key
  name : disk.names (temporaryKey put.key) = some n
  le : put.written ≤ put.body.length
  contents : disk.contents n = put.body.take put.written

/-- What a get has open is a complete body, which nobody writes. -/
structure Get.Serves (disk : Disk String UInt8) (begun : List (String × Bytes)) (get : Get) : Prop where
  body : (get.key, disk.contents get.handle) ∈ begun
  collected : get.collected <+: disk.contents get.handle
  lt : get.handle < disk.fresh
  object : ∀ name, disk.names name = some get.handle → ¬ IsTemporary name

/-- The invariant of careful runs. -/
structure State.Sound (state : State) : Prop where
  accepted : ∀ put ∈ state.puts,
    isOk (checkPath put.key) = true ∧ (put.key, put.body) ∈ state.begun
  unopened : ∀ put ∈ state.puts, put.handle = none → put.written = 0
  owns : ∀ put ∈ state.puts, ∀ n, put.handle = some n → put.Owns state.disk n
  apart : state.puts.Pairwise Put.Apart
  objects : ∀ key n, state.disk.names key = some n → ¬ IsTemporary key →
    (key, state.disk.contents n) ∈ state.stored
  stored : ∀ key body, (key, body) ∈ state.stored →
    (key, body) ∈ state.begun ∧ ¬ IsTemporary key ∧ (state.disk.names key).isSome
  gets : ∀ get ∈ state.gets, get.Serves state.disk state.begun
  returned : ∀ key body, (key, some body) ∈ state.returned → (key, body) ∈ state.begun
  vanished : state.vanished = []

theorem sound_empty : State.empty.Sound where
  accepted := by simp [State.empty]
  unopened := by simp [State.empty]
  owns := by simp [State.empty]
  apart := .nil
  objects := by simp [State.empty, Disk.empty]
  stored := by simp [State.empty]
  gets := by simp [State.empty]
  returned := by simp [State.empty]
  vanished := rfl

/-- **Where the invariant holds, writes are atomic.** -/
theorem State.Sound.atomic {state : State} (h : state.Sound) : state.Atomic where
  gets := h.returned
  puts := h.vanished
  objects := by
    rintro key - ⟨body, hbody⟩
    obtain ⟨-, hobject, hsome⟩ := h.stored key body hbody
    obtain ⟨n, hn⟩ := Option.isSome_iff_exists.mp hsome
    exact ⟨_, h.objects key n hn hobject, by rw [Disk.read, hn, Option.map_some]⟩

section Lists

variable {α : Type} {R : α → α → Prop} {l : List α} {i : ℕ} {a b : α}

/-- An element put in the place of another. -/
theorem pairwise_set (h : l.Pairwise R)
    (ha : ∀ j b, l[j]? = some b → j ≠ i → R a b ∧ R b a) : (l.set i a).Pairwise R := by
  rw [pairwise_iff_getElem] at h ⊢
  intro j k hj hk hjk
  rw [length_set] at hj hk
  rw [getElem_set, getElem_set]
  split_ifs with hij hik hik
  · omega
  · exact (ha k _ (List.getElem?_eq_getElem hk) (Ne.symm hik)).1
  · exact (ha j _ (List.getElem?_eq_getElem hj) (Ne.symm hij)).2
  · exact h j k hj hk hjk

theorem rel_of_pairwise (hsymm : ∀ a b, R a b → R b a) (h : l.Pairwise R) {j : ℕ}
    (hi : l[i]? = some a) (hj : l[j]? = some b) (hne : i ≠ j) : R a b := by
  rw [pairwise_iff_getElem] at h
  obtain ⟨hltI, rfl⟩ := List.getElem?_eq_some_iff.mp hi
  obtain ⟨hltJ, rfl⟩ := List.getElem?_eq_some_iff.mp hj
  rcases Nat.lt_or_gt_of_ne hne with hlt | hlt
  · exact h i j hltI hltJ hlt
  · exact hsymm _ _ (h j i hltJ hltI hlt)

/-- An element of a changed list is the new one, or one from another place. -/
theorem mem_set (h : b ∈ l.set i a) : b = a ∨ ∃ j, j ≠ i ∧ l[j]? = some b := by
  obtain ⟨j, hj⟩ := mem_iff_getElem?.mp h
  rw [List.getElem?_set] at hj
  split_ifs at hj with hij hlt
  · exact .inl (Option.some.inj hj).symm
  · exact .inr ⟨j, Ne.symm hij, hj⟩

/-- A piece is as long as what is left allows. -/
theorem take_add_length (text : List α) (k n : ℕ) :
    text.take (k + ((text.drop k).take n).length) = text.take (k + n) := by
  rw [take_eq_take_iff, length_take, length_drop]
  omega

theorem prefix_append_take {text collected : List α} (h : collected <+: text) (n : ℕ) :
    collected ++ (text.drop collected.length).take n <+: text := by
  obtain ⟨rest, rfl⟩ := h
  rw [drop_left, prefix_append_right_inj]
  exact take_prefix _ _

end Lists

theorem Put.Apart.symm {a b : Put} (h : a.Apart b) : b.Apart a := fun hb ha => (h ha hb).symm

section Steps

variable {state next : State} {disk : Disk String UInt8} {put : Put} {get : Get} {n : ℕ}

/-- A temporary file is kept where neither its name nor its contents change. -/
theorem Put.Owns.of_eq (h : put.Owns state.disk n)
    (hnames : disk.names (temporaryKey put.key) = state.disk.names (temporaryKey put.key))
    (hcontents : disk.contents n = state.disk.contents n) : put.Owns disk n :=
  ⟨h.object, hnames.trans h.name, h.le, hcontents.trans h.contents⟩

/-- What is being read is kept where its contents do not change, and no temporary file gets them. -/
theorem Get.Serves.of_eq (h : get.Serves state.disk state.begun)
    (hcontents : disk.contents get.handle = state.disk.contents get.handle)
    (hfresh : state.disk.fresh ≤ disk.fresh)
    (hobject : ∀ name, disk.names name = some get.handle → ¬ IsTemporary name) :
    get.Serves disk state.begun where
  body := hcontents ▸ h.body
  collected := hcontents ▸ h.collected
  lt := h.lt.trans_le hfresh
  object := hobject

/-- The temporary file of a put is nobody's object. -/
theorem Put.Owns.ne_handle (h : put.Owns state.disk n) (hput : isOk (checkPath put.key) = true)
    (hget : get.Serves state.disk state.begun) : get.handle ≠ n := by
  rintro rfl
  exact hget.object _ h.name (isTemporary_temporaryKey hput)

variable {key : String} {body : Bytes} {i length : ℕ}

theorem sound_put (h : state.Sound) (hstep : step state (.put key body) = some next) : next.Sound := by
  simp only [step] at hstep
  split_ifs at hstep with hkey <;> obtain rfl := Option.some.inj hstep
  · exact {
      accepted := by
        rintro put hput
        rcases mem_cons.mp hput with rfl | hput
        · exact ⟨hkey, mem_cons_self⟩
        · exact ⟨(h.accepted put hput).1, mem_cons_of_mem _ (h.accepted put hput).2⟩
      unopened := by
        rintro put hput hnone
        rcases mem_cons.mp hput with rfl | hput
        · rfl
        · exact h.unopened put hput hnone
      owns := by
        rintro put hput n hn
        rcases mem_cons.mp hput with rfl | hput
        · cases hn
        · exact h.owns put hput n hn
      apart := .cons (fun other _ hnone => by cases hnone) h.apart
      objects := h.objects
      stored := fun key' body' hmem =>
        ⟨mem_cons_of_mem _ (h.stored key' body' hmem).1, (h.stored key' body' hmem).2⟩
      gets := fun get hget => { h.gets get hget with
        body := mem_cons_of_mem _ (h.gets get hget).body }
      returned := fun key' body' hmem => mem_cons_of_mem _ (h.returned key' body' hmem)
      vanished := h.vanished }
  · exact h

/-- A put that ends leaves the others as they were. -/
theorem sound_eraseIdx (h : state.Sound) (i : ℕ) :
    { state with puts := state.puts.eraseIdx i }.Sound where
  accepted put hput := h.accepted put (mem_of_mem_eraseIdx hput)
  unopened put hput := h.unopened put (mem_of_mem_eraseIdx hput)
  owns put hput := h.owns put (mem_of_mem_eraseIdx hput)
  apart := h.apart.sublist (eraseIdx_sublist _ _)
  objects := h.objects
  stored := h.stored
  gets := h.gets
  returned := h.returned
  vanished := h.vanished

theorem sound_create (h : state.Sound) (hcareful : Careful state (.create i))
    (hstep : step state (.create i) = some next) : next.Sound := by
  obtain ⟨put, hi, hstep⟩ := Option.bind_eq_some_iff.mp hstep
  obtain ⟨hobject, hcareful⟩ := hcareful put hi
  have hothers (j : ℕ) (other : Put) (hj : state.puts[j]? = some other) (hne : j ≠ i) :=
    hcareful other (mem_eraseIdx_iff_getElem?.mpr ⟨j, hne, hj⟩)
  obtain ⟨haccepted, hbegun⟩ := h.accepted put (mem_of_getElem? hi)
  cases hhandle : put.handle with
  | some n => simp [hhandle] at hstep
  | none =>
    simp only [hhandle, Option.some.injEq] at hstep
    subst hstep
    set temporary := temporaryKey put.key with htemporary
    have htemp : IsTemporary temporary := isTemporary_temporaryKey haccepted
    -- The file that is emptied is no object, and nobody has it open.
    have hnumber (name : String) (n : ℕ) (hname : state.disk.names name = some n)
        (hne : name ≠ temporary) : n ≠ (state.disk.truncate temporary).1 := by
      rintro rfl
      rcases @Disk.truncate_fst _ _ state.disk _ temporary with hold | ⟨-, hnew⟩
      · exact hne (state.disk.separate _ _ _ hname hold)
      · exact (state.disk.lt_fresh _ _ hname).ne hnew
    have hkept (name : String) (n : ℕ) (hname : state.disk.names name = some n)
        (hne : name ≠ temporary) : (state.disk.truncate temporary).2.contents n =
          state.disk.contents n :=
      Disk.contents_truncate_of_ne (hnumber name n hname hne)
    have hget (get : Get) (hmem : get ∈ state.gets) :
        get.handle ≠ (state.disk.truncate temporary).1 := by
      intro heq
      rcases @Disk.truncate_fst _ _ state.disk _ temporary with hold | ⟨-, hnew⟩
      · exact (h.gets get hmem).object _ (heq ▸ hold) htemp
      · exact (h.gets get hmem).lt.ne (heq.trans hnew)
    refine {
      accepted := ?_, unopened := ?_, owns := ?_, apart := ?_, objects := ?_, stored := ?_, gets := ?_
      returned := h.returned, vanished := h.vanished }
    · intro other hother
      rcases mem_set hother with rfl | ⟨j, -, hj⟩
      · exact ⟨haccepted, hbegun⟩
      · exact h.accepted other (mem_of_getElem? hj)
    · intro other hother hnone
      rcases mem_set hother with rfl | ⟨j, -, hj⟩
      · cases hnone
      · exact h.unopened other (mem_of_getElem? hj) hnone
    · intro other hother n hn
      rcases mem_set hother with rfl | ⟨j, hne, hj⟩
      · obtain rfl := Option.some.inj hn
        have hwritten : put.written = 0 := h.unopened put (mem_of_getElem? hi) hhandle
        refine ⟨hobject, Disk.names_truncate_self, ?_, ?_⟩
        · exact hwritten ▸ Nat.zero_le _
        · simp [hwritten, htemporary]
      · have howns := h.owns other (mem_of_getElem? hj) n hn
        have hname := hothers j other hj hne (by rw [hn]; rfl)
        exact howns.of_eq (Disk.names_truncate_of_ne hname) (hkept _ _ howns.name hname)
    · refine pairwise_set h.apart fun j other hj hne => ?_
      have hname (hsome : other.handle.isSome) := hothers j other hj hne hsome
      exact ⟨fun _ hsome => (hname hsome).symm, fun hsome _ => hname hsome⟩
    · intro key n hkey hnot
      have hne : key ≠ temporary := fun heq => hnot (heq ▸ htemp)
      rw [Disk.names_truncate_of_ne hne] at hkey
      rw [hkept key n hkey hne]
      exact h.objects key n hkey hnot
    · intro key body hmem
      obtain ⟨hbegun', hnot, hsome⟩ := h.stored key body hmem
      have hne : key ≠ temporary := fun heq => hnot (heq ▸ htemp)
      exact ⟨hbegun', hnot, by rwa [Disk.names_truncate_of_ne hne]⟩
    · intro get hmem
      refine (h.gets get hmem).of_eq (Disk.contents_truncate_of_ne (hget get hmem))
        Disk.fresh_le_truncate fun name hname => ?_
      by_cases hne : name = temporary
      · rw [hne, Disk.names_truncate_self, Option.some.injEq] at hname
        exact absurd hname.symm (hget get hmem)
      · rw [Disk.names_truncate_of_ne hne] at hname
        exact (h.gets get hmem).object name hname

theorem sound_write (h : state.Sound) (hstep : step state (.write i length) = some next) :
    next.Sound := by
  obtain ⟨put, hi, hstep⟩ := Option.bind_eq_some_iff.mp hstep
  obtain ⟨n, hhandle, rfl⟩ := Option.map_eq_some_iff.mp hstep
  have hput := mem_of_getElem? hi
  have howns := h.owns put hput n hhandle
  have haccepted := h.accepted put hput
  have htemp := isTemporary_temporaryKey haccepted.1
  -- Nobody else has the file open, and no object is in it.
  have hother (name : String) (m : ℕ) (hname : state.disk.names name = some m)
      (hne : name ≠ temporaryKey put.key) : m ≠ n := by
    rintro rfl
    exact hne (state.disk.separate _ _ _ hname howns.name)
  have hkept (m : ℕ) (hm : m ≠ n) : (state.disk.write n put.written
      ((put.body.drop put.written).take length)).contents m = state.disk.contents m :=
    Function.update_of_ne hm _ _
  refine {
    accepted := ?_, unopened := ?_, owns := ?_, apart := ?_, objects := ?_, stored := h.stored
    gets := ?_, returned := h.returned, vanished := h.vanished }
  · intro other hmem
    rcases mem_set hmem with rfl | ⟨j, -, hj⟩
    · exact haccepted
    · exact h.accepted other (mem_of_getElem? hj)
  · intro other hmem hnone
    rcases mem_set hmem with rfl | ⟨j, -, hj⟩
    · rw [hhandle] at hnone
      cases hnone
    · exact h.unopened other (mem_of_getElem? hj) hnone
  · intro other hmem m hm
    rcases mem_set hmem with rfl | ⟨j, hne, hj⟩
    · obtain rfl : n = m := Option.some.inj (hhandle.symm.trans hm)
      refine ⟨howns.object, howns.name, ?_, ?_⟩
      · have hle := howns.le
        simp only [length_take, length_drop]
        omega
      · change Function.update state.disk.contents n _ n = _
        rw [Function.update_self, howns.contents, splice_take _ _ _ howns.le, take_add_length]
    · have hownsOther := h.owns other (mem_of_getElem? hj) m hm
      have hapart := rel_of_pairwise (fun _ _ => Put.Apart.symm) h.apart hj hi hne
        (by rw [hm]; rfl) (by rw [hhandle]; rfl)
      exact hownsOther.of_eq rfl (hkept m (hother _ m hownsOther.name hapart))
  · refine pairwise_set h.apart fun j other hj hne => ?_
    have hapart := rel_of_pairwise (fun _ _ => Put.Apart.symm) h.apart hi hj (Ne.symm hne)
    exact ⟨hapart, Put.Apart.symm hapart⟩
  · intro key m hkey hnot
    have hne : key ≠ temporaryKey put.key := fun heq => hnot (heq ▸ htemp)
    rw [hkept m (hother key m hkey hne)]
    exact h.objects key m hkey hnot
  · intro get hmem
    have hget := h.gets get hmem
    exact hget.of_eq (hkept _ (howns.ne_handle haccepted.1 hget)) (Nat.le_refl _) hget.object

theorem sound_rename (h : state.Sound) (hstep : step state (.rename i) = some next) : next.Sound := by
  obtain ⟨put, hi, hstep⟩ := Option.bind_eq_some_iff.mp hstep
  have hput := mem_of_getElem? hi
  obtain ⟨haccepted, hbegun⟩ := h.accepted put hput
  have htemp := isTemporary_temporaryKey haccepted
  split_ifs at hstep with hfinished
  obtain ⟨hopen, hwritten⟩ := hfinished
  obtain ⟨n, hhandle⟩ := Option.isSome_iff_exists.mp hopen
  have howns := h.owns put hput n hhandle
  cases hrename : state.disk.rename (temporaryKey put.key) put.key with
  | none => rw [Disk.rename_eq_none, howns.name] at hrename; cases hrename
  | some disk =>
    simp only [hrename, Option.some.injEq] at hstep
    subst hstep
    obtain ⟨m, hm, hnames, hcontents, hfresh⟩ := Disk.rename_eq_some hrename
    obtain rfl := Option.some.inj (howns.name.symm.trans hm)
    have hbody : state.disk.contents n = put.body := by
      rw [howns.contents, hwritten, take_length]
    have hself : disk.names put.key = some n := by rw [hnames, Function.update_self]
    have hothers (name : String) (hne : name ≠ put.key) (hne' : name ≠ temporaryKey put.key) :
        disk.names name = state.disk.names name := by
      rw [hnames, Function.update_of_ne hne, Function.update_of_ne hne']
    have hold (name : String) (hname : name ≠ put.key) (hsome : name = temporaryKey put.key) :
        disk.names name = none := by
      rw [hnames, Function.update_of_ne hname, hsome, Function.update_self]
    have herased := sound_eraseIdx h i
    refine {
      accepted := herased.accepted, unopened := herased.unopened, owns := ?_, apart := herased.apart
      objects := ?_, stored := ?_, gets := ?_, returned := h.returned, vanished := h.vanished }
    · intro other hmem m hother
      obtain ⟨j, hne, hj⟩ := mem_eraseIdx_iff_getElem?.mp hmem
      have hownsOther := herased.owns other hmem m hother
      have hapart := rel_of_pairwise (fun _ _ => Put.Apart.symm) h.apart hj hi hne
        (by rw [hother]; rfl) hopen
      have htempOther := isTemporary_temporaryKey (herased.accepted other hmem).1
      have hobject : temporaryKey other.key ≠ put.key := fun heq => howns.object (heq ▸ htempOther)
      exact hownsOther.of_eq (hothers _ hobject hapart) (congrFun hcontents m)
    · intro key m hkey hnot
      have hne : key ≠ temporaryKey put.key := fun heq => hnot (heq ▸ htemp)
      rw [hcontents]
      by_cases heq : key = put.key
      · rw [heq, hself, Option.some.injEq] at hkey
        rw [heq, ← hkey, hbody]
        exact mem_cons_self
      · rw [hothers key heq hne] at hkey
        exact mem_cons_of_mem _ (h.objects key m hkey hnot)
    · intro key body hmem
      rcases mem_cons.mp hmem with heq | hmem
      · obtain ⟨rfl, rfl⟩ := Prod.mk.inj heq
        exact ⟨hbegun, howns.object, by rw [hself]; rfl⟩
      · obtain ⟨hbegun', hnot, hsome⟩ := h.stored key body hmem
        have hne : key ≠ temporaryKey put.key := fun heq => hnot (heq ▸ htemp)
        refine ⟨hbegun', hnot, ?_⟩
        by_cases heq : key = put.key
        · rw [heq, hself]; rfl
        · rwa [hothers key heq hne]
    · intro get hmem
      have hget := h.gets get hmem
      refine hget.of_eq (congrFun hcontents _) (Nat.le_of_eq hfresh.symm) fun name hname => ?_
      by_cases heq : name = put.key
      · rw [heq, hself, Option.some.injEq] at hname
        exact absurd hname.symm (howns.ne_handle haccepted hget)
      · by_cases htemporary : name = temporaryKey put.key
        · rw [hold name heq htemporary] at hname
          cases hname
        · rw [hothers name heq htemporary] at hname
          exact hget.object name hname

theorem sound_get (h : state.Sound) (hcareful : Careful state (.get key))
    (hstep : step state (.get key) = some next) : next.Sound := by
  simp only [step] at hstep
  split_ifs at hstep with hkey
  · cases hname : state.disk.names key with
    | none =>
      simp only [hname, Option.some.injEq] at hstep
      subst hstep
      exact { h with
        returned := fun key' body hmem => by
          rcases mem_cons.mp hmem with heq | hmem
          · cases heq
          · exact h.returned key' body hmem }
    | some n =>
      simp only [hname, Option.some.injEq] at hstep
      subst hstep
      have hobject : ¬ IsTemporary key := fun htemp => by
        rw [hcareful htemp] at hname
        cases hname
      have hserves : (Get.mk key n []).Serves state.disk state.begun := {
        body := (h.stored _ _ (h.objects key n hname hobject)).1
        collected := nil_prefix
        lt := state.disk.lt_fresh key n hname
        object := fun name hother => state.disk.separate _ _ n hother hname ▸ hobject }
      exact { h with
        gets := fun get hmem => by
          rcases mem_cons.mp hmem with rfl | hmem
          · exact hserves
          · exact h.gets get hmem }
  · obtain rfl := Option.some.inj hstep
    exact h

theorem sound_read (h : state.Sound) (hstep : step state (.read i length) = some next) :
    next.Sound := by
  obtain ⟨get, hi, rfl⟩ := Option.map_eq_some_iff.mp hstep
  have hget := h.gets get (mem_of_getElem? hi)
  exact { h with
    gets := fun other hmem => by
      rcases mem_set hmem with rfl | ⟨j, -, hj⟩
      · exact { hget with collected := prefix_append_take hget.collected length }
      · exact h.gets other (mem_of_getElem? hj) }

theorem sound_answer (h : state.Sound) (hstep : step state (.answer i) = some next) : next.Sound := by
  obtain ⟨get, hi, hstep⟩ := Option.bind_eq_some_iff.mp hstep
  have hget := h.gets get (mem_of_getElem? hi)
  split_ifs at hstep with hend
  obtain rfl := Option.some.inj hstep
  have hbody : get.collected = state.disk.contents get.handle :=
    hget.collected.eq_of_length_le hend
  exact { h with
    gets := fun other hmem => h.gets other (mem_of_mem_eraseIdx hmem)
    returned := fun key body hmem => by
      rcases mem_cons.mp hmem with heq | hmem
      · obtain ⟨rfl, hsome⟩ := Prod.mk.inj heq
        rw [Option.some.inj hsome, hbody]
        exact hget.body
      · exact h.returned key body hmem }

theorem sound_failGet (h : state.Sound) (i : ℕ) :
    { state with gets := state.gets.eraseIdx i }.Sound :=
  { h with gets := fun other hmem => h.gets other (mem_of_mem_eraseIdx hmem) }

/-- **A careful step keeps the invariant.** -/
theorem sound_step {event : Event} (h : state.Sound) (hstep : When Careful Step state event next) :
    next.Sound := by
  obtain ⟨hcareful, hstep⟩ := hstep
  rw [Step] at hstep
  cases event with
  | put key body => exact sound_put h hstep
  | create i => exact sound_create h hcareful hstep
  | write i length => exact sound_write h hstep
  | rename i => exact sound_rename h hstep
  | failPut i => exact Option.some.inj hstep ▸ sound_eraseIdx h i
  | get key => exact sound_get h hcareful hstep
  | read i length => exact sound_read h hstep
  | answer i => exact sound_answer h hstep
  | failGet i => exact Option.some.inj hstep ▸ sound_failGet h i

end Steps

/-! ### Runs -/

/-- **In every careful run writes are atomic**, in every state that is reached. -/
theorem atomic_of_run {events : List Event} {state : State}
    (hrun : Run (When Careful Step) .empty events state) : state.Atomic :=
  (hrun.invariant (fun _ _ _ h hstep => sound_step h hstep) sound_empty).atomic

/-- A photo is put and then read. -/
def photoEvents : List Event :=
  [.put "files/photo.png" [1], .create 0, .write 0 1, .rename 0, .get "files/photo.png", .read 0 1, .answer 0]

theorem photo_is_atomic : ∃ state, Run Step .empty photoEvents state ∧ state.Atomic ∧
    state.returned = [("files/photo.png", some [1])] := by
  have hexec : (exec (fun state event => if Careful state event then step state event else none)
      .empty photoEvents).map (·.returned) = some [("files/photo.png", some [1])] := by
    decide
  obtain ⟨state, hstate, hreturned⟩ := Option.map_eq_some_iff.mp hexec
  have hrun := run_of_exec_when hstate
  exact ⟨state, hrun.of_when, atomic_of_run hrun, hreturned⟩

/-- Two keys that differ in their extension are put at the same time: the second put empties the temporary
file of the first, whose object is then the body of the second. -/
theorem siblings_tear :
    ¬ ∀ (events : List Event) (state : State), Run Step .empty events state → state.Atomic := by
  intro hall
  have hexec : (exec step .empty [.put "files/photo.png" [1], .put "files/photo.jpg" [2], .create 1,
      .write 1 1, .create 0, .write 0 1, .rename 1, .get "files/photo.png", .read 0 1, .answer 0]).map
        (fun state => (state.returned, state.begun)) = some ([("files/photo.png", some [2])],
          [("files/photo.jpg", [2]), ("files/photo.png", [1])]) := by
    decide +kernel
  obtain ⟨state, hstate, hresult⟩ := Option.map_eq_some_iff.mp hexec
  obtain ⟨hreturned, hbegun⟩ := Prod.mk.inj hresult
  have hmem := (hall _ state (run_of_exec hstate)).gets "files/photo.png" [2]
    (hreturned ▸ mem_cons_self)
  rw [hbegun] at hmem
  revert hmem
  decide

end LazyPock.LocalStorage
