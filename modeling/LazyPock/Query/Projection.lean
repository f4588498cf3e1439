import LazyPock.Core.Paths
import LazyPock.Query.Document

/-!
# The `fields` and `expand` parameters

How a request parameter is read into a tree over the collection (`crates/db/src/query/projection.rs`).
Both are lists of dotted paths. Each segment is looked up in the context as the path is inserted, so
that a tree only has relations of the context it was read for.

## Main definitions

* `Projection.splitPath`: the segments of an entry.
* `FieldSelection.parse`, `ExpandSpec.parse`.
* `FilterContext.follow`, `FieldSelection.follow`, `ExpandSpec.follow`:
  what stands below a path.

## Main results

* `ExpandSpec.inserted_of_insertPath`: what inserting a path adds to a tree.
* `ExpandSpec.exists_insertPath`: the paths that can be inserted.
* `ExpandSpec.readFrom_of_parse`: what a tree that is read has.
* `FieldSelection.known_of_parse`: a selection that is read names columns of the context.
-/

namespace LazyPock

open Text Assoc

/-- `MAX_EXPAND_ENTRIES` -/
def maxExpandEntries : Nat := 16

/-- `MAX_FIELD_ENTRIES` -/
def maxFieldEntries : Nat := 128

namespace Projection

/-! ### Entries -/

def malformedPath (raw : String) : String := "malformed path " ++ debug raw

/-- A segment is `*` or a name. -/
def checkSegment (raw segment : String) : Result Unit :=
  if segment = "*" then .ok ()
  else match segment.toList with
    | [] => .error (.invalid (malformedPath raw))
    | first :: rest => do
      failIf (¬ (isAsciiAlphabetic first || first = '_'))
        (.invalid (malformedPath raw ++ ": `" ++ segment ++ "` must start with a letter"))
      match rest.find? fun c => !(isAsciiAlphanumeric c || c = '_') with
      | some bad => .error (.invalid (malformedPath raw ++ ": unexpected " ++ debugQuoted bad))
      | none => .ok ()

/-- The segments of an entry. -/
def splitPath (raw : String) : Result (List String) := do
  let segments := splitOn '.' raw
  segments.forM (checkSegment raw)
  .ok segments

/-- The entries of a parameter: what stands between commas and is not blank. -/
def entries (input : String) : List String :=
  ((splitOn ',' input).map trim).filter fun raw => raw ≠ ""

def tooMany (parameter : String) (limit : Nat) : Error :=
  .invalid ("too many `" ++ parameter ++ "` entries (maximum " ++ toString limit ++ ")")

/-- Add the entries one by one; `count` were added before. -/
def addEntries {α : Type} (add : String → α → Result α) (parameter : String) (limit : Nat) :
    (count : Nat) → List String → α → Result α
  | _, [], tree => .ok tree
  | count, raw :: rest, tree => do
    failIf (limit < count + 1) (tooMany parameter limit)
    let tree ← add raw tree
    addEntries add parameter limit (count + 1) rest tree

/-- The value of a parameter, unless it is blank. -/
def present (input : Option String) : Option String := (input.map trim).filter fun raw => raw ≠ ""

end Projection

open Projection

/-! ### `fields` -/

namespace FieldSelection

/-- Nothing. -/
def none : FieldSelection := ⟨[], false, false, false, []⟩

def insertPath : List String → FilterContext → FieldSelection → Result FieldSelection
  | [], _, _ => .error (.invalid "empty field path")
  | segment :: rest, context, selection =>
    if segment = "*" then
      if rest = [] then .ok { selection with allColumns := true }
      else .error (.invalid ("`*` must stand alone; write `author.*` to select every key of an " ++
        "expanded relation"))
    else if rest = [] then
      -- Keys of the record, unless there is a real column of the same name.
      if !context.hasColumn segment && context.collectionId ≠ "" && segment = "collectionId" then
        .ok { selection with collectionId := true }
      else if !context.hasColumn segment && context.collectionId ≠ "" &&
          segment = "collectionName" then
        .ok { selection with collectionName := true }
      else do
        failIf (¬ context.hasColumn segment) (.invalid ("unknown field " ++ debug segment ++
          " in collection " ++ debug context.table))
        .ok { selection with
          columns := if segment ∈ selection.columns then selection.columns
            else selection.columns ++ [segment] }
    else do
      let relation ← okOr (.invalid (debug segment ++ " is not a relation field of collection " ++
        debug context.table ++ ", so " ++ debug (join "." (segment :: rest)) ++
        " cannot be selected through it")) (lookup segment context.relations)
      failIf (maxExpandDepth < rest.length) (.invalid ("`fields` path `" ++
        join "." (segment :: rest) ++ "` is deeper than the supported " ++
        toString maxExpandDepth ++ " levels"))
      let below ← insertPath rest relation.context
        ((lookup segment selection.nested).getD .none)
      .ok { selection with nested := insert segment below selection.nested }

/-- `expand.<relation>` addresses an expanded relation; `expand` is no column there. -/
def dropExpand (context : FilterContext) : List String → List String
  | "expand" :: relation :: rest =>
    if (lookup relation context.relations).isSome then relation :: rest
    else "expand" :: relation :: rest
  | path => path

/-- Add one entry. -/
def add (context : FilterContext) (raw : String) (selection : FieldSelection) :
    Result FieldSelection := do
  let path ← splitPath raw
  selection.insertPath (dropExpand context path) context

/-- Parse a `fields` value. -/
@[grind =]
def parse (input : Option String) (context : FilterContext) : Result FieldSelection :=
  match present input with
  | Option.none => .ok .all
  | some input => do
    let selection ← addEntries (add context) "fields" maxFieldEntries 0 (entries input) .none
    failIf (!selection.allColumns && !selection.collectionId && !selection.collectionName &&
      selection.columns.isEmpty && selection.nested.isEmpty)
      (.invalid "`fields` must name at least one field, or be `*`")
    .ok selection

end FieldSelection

/-! ### `expand` -/

namespace ExpandSpec

def insertPath : List String → FilterContext → ExpandSpec → Result ExpandSpec
  | [], _, _ => .error (.invalid "empty expand path")
  | segment :: rest, context, expand => do
    let relation ← okOr (.invalid (debug segment ++ " is not a relation field of collection " ++
      debug context.table ++ " and cannot be expanded")) (lookup segment context.relations)
    let below := (lookup segment expand.nested).getD .none
    if rest = [] then .ok { expand with nested := insert segment below expand.nested }
    else do
      failIf (maxExpandDepth ≤ rest.length) (.invalid ("`expand` path `" ++
        join "." (segment :: rest) ++ "` is deeper than the supported " ++
        toString maxExpandDepth ++ " levels"))
      let below ← insertPath rest relation.context below
      .ok { expand with nested := insert segment below expand.nested }

/-- Add one entry. -/
def add (context : FilterContext) (raw : String) (expand : ExpandSpec) : Result ExpandSpec :=
  if raw = "*" then .ok { expand with all := true }
  else do
    let path ← splitPath raw
    expand.insertPath path context

/-- Parse an `expand` value. -/
@[grind =]
def parse (input : Option String) (context : FilterContext) : Result ExpandSpec :=
  match present input with
  | Option.none => .ok .none
  | some input => addEntries (add context) "expand" maxExpandEntries 0 (entries input) .none

end ExpandSpec

/-! ### What stands below a path -/

/-- The context that a path of relations leads to. -/
def FilterContext.follow : FilterContext → List String → Option FilterContext :=
  Paths.follow fun context name => (lookup name context.relations).map RelationTarget.context

/-- The selection below a path. -/
def FieldSelection.follow : FieldSelection → List String → Option FieldSelection :=
  Paths.follow fun selection name => lookup name selection.nested

/-- The expansion below a path. -/
def ExpandSpec.follow : ExpandSpec → List String → Option ExpandSpec :=
  Paths.follow fun expand name => lookup name expand.nested

theorem Projection.invariant_addEntries {α : Type} {add : String → α → Result α} {parameter : String}
    {limit : Nat} {P : List String → α → Prop}
    (hadd : ∀ done raw tree tree', P done tree → add raw tree = .ok tree' → P (done ++ [raw]) tree')
    (done : List String) {raws : List String} {count : Nat} {tree tree' : α} (hread : P done tree)
    (h : addEntries add parameter limit count raws tree = .ok tree') : P (done ++ raws) tree' := by
  induction raws generalizing done count tree with
  | nil =>
    obtain rfl := Except.ok.inj h
    rwa [List.append_nil]
  | cons raw rest ih =>
    obtain ⟨_, -, h⟩ := bind_eq_ok.mp h
    obtain ⟨next, hnext, h⟩ := bind_eq_ok.mp h
    rw [← List.singleton_append, ← List.append_assoc]
    exact ih (done ++ [raw]) (hadd done raw tree next hread hnext) h

namespace ExpandSpec

variable {context : FilterContext} {expand expand' : ExpandSpec}

theorem follow_cons (name : String) (path : List String) :
    expand.follow (name :: path) =
      (lookup name expand.nested).bind fun below => below.follow path := rfl

theorem follow_none {path : List String} :
    none.follow path = if path = [] then some none else .none := by
  cases path <;> rfl

theorem isSome_follow_none {path : List String} : (none.follow path).isSome = true ↔ path = [] := by
  rw [follow_none]
  split_ifs with hpath <;> simp [hpath]

/-- What inserting a path does to a tree, below each path. -/
structure Inserted (path : List String) (expand expand' : ExpandSpec) : Prop where
  isSome_iff : ∀ p, (expand'.follow p).isSome = true ↔ (expand.follow p).isSome = true ∨ p <+: path
  all_eq : ∀ p below, expand'.follow p = some below →
    below.all = ((expand.follow p).map ExpandSpec.all).getD false

/-- A tree in which one child is replaced by what inserting a path makes of it. -/
theorem Inserted.cons {segment : String} {rest : List String} {below : ExpandSpec}
    (h : Inserted rest ((lookup segment expand.nested).getD none) below) :
    Inserted (segment :: rest) expand
      { expand with nested := insert segment below expand.nested } := by
  have hsame (q : List String) : ({ expand with
      nested := insert segment below expand.nested } : ExpandSpec).follow (segment :: q) =
        below.follow q := by
    rw [follow_cons, lookup_insert_self, Option.bind_some]
  have hother {name : String} (hne : name ≠ segment) (q : List String) : ({ expand with
      nested := insert segment below expand.nested } : ExpandSpec).follow (name :: q) =
        expand.follow (name :: q) := by
    rw [follow_cons, follow_cons, lookup_insert_of_ne hne]
  refine ⟨fun p => ?_, fun p last hlast => ?_⟩
  · cases p with
    | nil => exact iff_of_true rfl (.inl rfl)
    | cons name q =>
      by_cases hname : name = segment
      · subst hname
        rw [hsame, h.isSome_iff, List.cons_prefix_cons, and_iff_right rfl, follow_cons]
        cases lookup name expand.nested with
        | none =>
          rw [Option.getD_none, isSome_follow_none, Option.bind_none]
          simp only [Option.isSome_none, Bool.false_eq_true, false_or, or_iff_right_iff_imp]
          rintro rfl
          exact List.nil_prefix
        | some child => rfl
      · rw [hother hname, List.cons_prefix_cons]
        simp [hname]
  · cases p with
    | nil =>
      obtain rfl := Option.some.inj hlast
      rfl
    | cons name q =>
      by_cases hname : name = segment
      · subst hname
        rw [hsame] at hlast
        rw [h.all_eq q last hlast, follow_cons]
        cases lookup name expand.nested with
        | none =>
          rw [Option.getD_none, follow_none]
          split_ifs <;> rfl
        | some child => rfl
      · rw [hother hname] at hlast
        rw [hlast]
        rfl

/-- **What inserting a path adds to a tree**: its prefixes. -/
theorem inserted_of_insertPath {path : List String}
    (h : expand.insertPath path context = .ok expand') : Inserted path expand expand' := by
  induction path generalizing context expand expand' with
  | nil => cases h
  | cons segment rest ih =>
    obtain ⟨relation, -, hinsert⟩ := bind_eq_ok.mp h
    clear h
    split_ifs at hinsert with hrest
    · subst hrest
      obtain rfl := Except.ok.inj hinsert
      refine Inserted.cons ⟨fun p => ?_, fun p below hbelow => ?_⟩
      · rw [List.prefix_nil]
        refine (or_iff_left_of_imp ?_).symm
        rintro rfl
        rfl
      · rw [hbelow]
        rfl
    · obtain ⟨_, -, hinsert⟩ := bind_eq_ok.mp hinsert
      obtain ⟨below, hbelow, hinsert⟩ := bind_eq_ok.mp hinsert
      obtain rfl := Except.ok.inj hinsert
      exact (ih hbelow).cons

/-- **The paths that can be inserted.** -/
theorem exists_insertPath {path : List String} (hne : path ≠ []) :
    (∃ expand', expand.insertPath path context = .ok expand') ↔
      (context.follow path).isSome = true ∧ path.length ≤ maxExpandDepth := by
  induction path generalizing context expand with
  | nil => exact absurd rfl hne
  | cons segment rest ih =>
    rw [insertPath, FilterContext.follow, Paths.follow_cons]
    cases lookup segment context.relations with
    | none => simp [okOr, bind, Except.bind]
    | some relation =>
      simp only [okOr, bind, Except.bind, Option.map_some, Option.bind_some]
      by_cases hrest : rest = []
      · subst hrest
        simp [maxExpandDepth]
      · have hbelow : (∃ below, ((lookup segment expand.nested).getD none).insertPath rest
            relation.context = .ok below) ↔
          (relation.context.follow rest).isSome = true ∧ rest.length ≤ maxExpandDepth := ih hrest
        rw [if_neg hrest, List.length_cons, Nat.add_one_le_iff, failIf]
        change _ ↔ (relation.context.follow rest).isSome = true ∧ _
        split_ifs with hdepth
        · simp [Nat.not_lt.mpr hdepth]
        · have hlength : rest.length < maxExpandDepth := Nat.lt_of_not_le hdepth
          rw [and_iff_left hlength.le] at hbelow
          rw [and_iff_left hlength, ← hbelow]
          cases ((lookup segment expand.nested).getD none).insertPath rest relation.context with
          | error e => simp
          | ok below => simp

/-- A tree that is read from entries. -/
structure ReadFrom (context : FilterContext) (raws : List String) (expand : ExpandSpec) : Prop where
  all_iff : expand.all = true ↔ "*" ∈ raws
  /-- Every entry is a path of relations. -/
  path : ∀ raw ∈ raws, raw ≠ "*" → (context.follow (splitOn '.' raw)).isSome = true ∧
    (splitOn '.' raw).length ≤ maxExpandDepth
  isSome_iff : ∀ p ≠ [], (expand.follow p).isSome = true ↔
    ∃ raw ∈ raws, raw ≠ "*" ∧ p <+: splitOn '.' raw
  all_below : ∀ p ≠ [], ∀ below, expand.follow p = some below → below.all = false

theorem ReadFrom.none : ReadFrom context [] none where
  all_iff := by simp [ExpandSpec.none]
  path := by simp
  isSome_iff := fun p hp => by simp [isSome_follow_none, hp]
  all_below := fun p hp below hbelow => by
    rw [follow_none, if_neg hp] at hbelow
    cases hbelow

theorem ReadFrom.add {raws : List String} {raw : String} (hread : ReadFrom context raws expand)
    (h : add context raw expand = .ok expand') : ReadFrom context (raws ++ [raw]) expand' := by
  unfold ExpandSpec.add at h
  split_ifs at h with hraw
  · subst hraw
    obtain rfl := Except.ok.inj h
    have hfollow {p : List String} (hp : p ≠ []) :
        ({ expand with all := true } : ExpandSpec).follow p = expand.follow p := by
      cases p with
      | nil => exact absurd rfl hp
      | cons name q => rfl
    refine ⟨by simp, ?_, fun p hp => ?_, fun p hp => ?_⟩
    · intro other hother hne
      rw [List.mem_append, List.mem_singleton] at hother
      exact hread.path other (hother.resolve_right hne) hne
    · rw [hfollow hp, hread.isSome_iff p hp]
      simp only [List.mem_append, List.mem_singleton]
      refine exists_congr fun other => and_congr_left fun hother => ?_
      rw [or_iff_left hother.1]
    · rw [hfollow hp]
      exact hread.all_below p hp
  · obtain ⟨path, hpath, hinsert⟩ := bind_eq_ok.mp h
    obtain ⟨_, -, hpath⟩ := bind_eq_ok.mp hpath
    obtain rfl := Except.ok.inj hpath
    have hinserted := inserted_of_insertPath hinsert
    obtain ⟨hreach, hlength⟩ := (exists_insertPath (splitOn_ne_nil '.' raw)).mp ⟨expand', hinsert⟩
    refine ⟨?_, ?_, fun p hp => ?_, fun p hp below hbelow => ?_⟩
    · have hall : expand'.all = expand.all := hinserted.all_eq [] expand' rfl
      rw [hall, hread.all_iff, List.mem_append, List.mem_singleton, or_iff_left (Ne.symm hraw)]
    · intro other hother hne
      rw [List.mem_append, List.mem_singleton] at hother
      rcases hother with hother | rfl
      · exact hread.path other hother hne
      · exact ⟨hreach, hlength⟩
    · rw [hinserted.isSome_iff, hread.isSome_iff p hp]
      simp only [List.mem_append, List.mem_singleton, or_and_right, exists_or, exists_eq_left]
      rw [and_iff_right hraw]
    · rw [hinserted.all_eq p below hbelow]
      cases hbefore : expand.follow p with
      | none => rfl
      | some before => exact hread.all_below p hp before hbefore

/-- The entries of an `expand` value. -/
def requested (input : Option String) : List String :=
  match present input with
  | Option.none => []
  | some input => entries input

/-- **What a tree that is read has**: the paths that were asked for, each a path of relations. -/
theorem readFrom_of_parse {input : Option String} (h : parse input context = .ok expand) :
    ReadFrom context (requested input) expand := by
  unfold parse at h
  unfold requested
  split at h
  next hnone =>
    obtain rfl := Except.ok.inj h
    exact .none
  next value hvalue =>
    exact invariant_addEntries (fun _ _ _ _ hread hadd => ReadFrom.add hread hadd) [] .none h

end ExpandSpec

/-! ### Entries of validated names -/

namespace Projection

/-- A validated name is a segment. -/
theorem checkSegment_of_validateIdentifier {kind segment : String}
    (h : validateIdentifier kind segment = .ok ()) (raw : String) :
    checkSegment raw segment = .ok () := by
  have hchars := (validateIdentifier_chars h).2
  unfold checkSegment
  split_ifs with hstar
  · rfl
  · unfold validateIdentifier at h
    cases hlist : segment.toList with
    | nil =>
      rw [hlist] at h
      cases h
    | cons first rest =>
      simp only [hlist] at h
      split_ifs at h with hlength hunderscore hlower
      have hfirst : isAsciiAlphabetic first = true := by
        rw [Bool.not_eq_true, Bool.not_eq_false'] at hlower
        rw [isAsciiAlphabetic, hlower, Bool.true_or]
      have hfind : rest.find? (fun c => !(isAsciiAlphanumeric c || c = '_')) = none := by
        rw [List.find?_eq_none]
        intro c hc
        have hchar := hchars c (by rw [hlist]; exact List.mem_cons_of_mem _ hc)
        simpa only [Bool.not_eq_true, Bool.not_eq_false', Bool.or_eq_true, decide_eq_true_eq]
          using hchar
      simp only [failIf, hfirst, Bool.true_or, not_true_eq_false, ↓reduceIte, bind, Except.bind]
      rw [hfind]

/-- A path of validated names. -/
def ValidPath (path : List String) : Prop :=
  path ≠ [] ∧ ∀ name ∈ path, validateIdentifier "field name" name = .ok ()

variable {path : List String}

theorem ValidPath.mem_join (h : ValidPath path) {c : Char} (hc : c ∈ (join "." path).toList) :
    isAsciiAlphanumeric c = true ∨ c = '_' ∨ c = '.' := by
  rcases Text.mem_join hc with hdot | ⟨name, hname, hc⟩
  · exact .inr (.inr (List.mem_singleton.mp hdot))
  · exact ((validateIdentifier_chars (h.2 name hname)).2 c hc).imp_right .inl

theorem ValidPath.split_join (h : ValidPath path) : splitOn '.' (join "." path) = path :=
  splitOn_join rfl h.1 fun name hname hmem =>
    absurd ((validateIdentifier_chars (h.2 name hname)).2 '.' hmem) (by decide)

theorem ValidPath.splitPath (h : ValidPath path) : splitPath (join "." path) = .ok path := by
  have hcheck : ∀ names : List String, (∀ name ∈ names, name ∈ path) →
      names.forM (checkSegment (join "." path)) = .ok () := by
    intro names hnames
    induction names with
    | nil => rfl
    | cons name names ih =>
      rw [List.forall_mem_cons] at hnames
      rw [List.forM, checkSegment_of_validateIdentifier (h.2 name hnames.1)]
      exact ih hnames.2
  rw [Projection.splitPath, h.split_join, hcheck path fun _ hname => hname]
  rfl

theorem ValidPath.trim (h : ValidPath path) : trim (join "." path) = join "." path := by
  refine trim_of_forall fun c hc => ?_
  rcases h.mem_join hc with hc | rfl | rfl
  · exact isWhitespace_of_isAsciiAlphanumeric hc
  · decide
  · decide

theorem ValidPath.join_ne_empty (h : ValidPath path) : join "." path ≠ "" := by
  intro hempty
  have hpath := h.splitPath
  rw [hempty] at hpath
  cases hpath

theorem ValidPath.join_ne_star (h : ValidPath path) : join "." path ≠ "*" := by
  intro hstar
  have hmem : '*' ∈ (join "." path).toList := by
    rw [hstar]
    decide
  exact absurd (h.mem_join hmem) (by decide)

theorem ValidPath.present (h : ValidPath path) :
    present (some (join "." path)) = some (join "." path) := by
  rw [Projection.present, Option.map_some, h.trim, Option.filter_some,
    if_pos (decide_eq_true h.join_ne_empty)]

theorem ValidPath.entries (h : ValidPath path) : entries (join "." path) = [join "." path] := by
  have hcomma : ',' ∉ (join "." path).toList := fun hmem => absurd (h.mem_join hmem) (by decide)
  rw [Projection.entries, splitOn, splitChars_of_notMem hcomma, List.map_singleton,
    String.ofList_toList, List.map_singleton, h.trim]
  simp [h.join_ne_empty]

end Projection

/-- **A path as the only entry.** -/
theorem ExpandSpec.parse_join {path : List String} (h : ValidPath path) (context : FilterContext) :
    ExpandSpec.parse (some (join "." path)) context = ExpandSpec.none.insertPath path context := by
  rw [parse, h.present]
  simp only [h.entries, addEntries, add, if_neg h.join_ne_star, h.splitPath]
  change ExpandSpec.none.insertPath path context >>= Except.ok = _
  cases ExpandSpec.none.insertPath path context <;> rfl

/-! ### Columns that a selection names -/

namespace FieldSelection

variable {context : FilterContext} {selection selection' : FieldSelection}

/-- A selection that names columns of the context only, at every level. -/
def Known (context : FilterContext) (selection : FieldSelection) : Prop :=
  ∀ path below target, selection.follow path = some below → context.follow path = some target →
    ∀ column ∈ below.columns, target.hasColumn column = true

theorem known_iff : selection.Known context ↔
    (∀ column ∈ selection.columns, context.hasColumn column = true) ∧
      ∀ name below relation, lookup name selection.nested = some below →
        lookup name context.relations = some relation → below.Known relation.context := by
  constructor
  · intro h
    refine ⟨h [] selection context rfl rfl, fun name below relation hbelow hrelation => ?_⟩
    intro path last target hlast htarget
    refine h (name :: path) last target ?_ ?_
    · rw [follow, Paths.follow_cons, hbelow]
      exact hlast
    · rw [FilterContext.follow, Paths.follow_cons, hrelation]
      exact htarget
  · rintro ⟨hcolumns, hnested⟩ path last target hlast htarget
    cases path with
    | nil =>
      obtain rfl := Option.some.inj hlast
      obtain rfl := Option.some.inj htarget
      exact hcolumns
    | cons name path =>
      obtain ⟨below, hbelow, hlast⟩ := Paths.follow_cons_eq_some.mp hlast
      obtain ⟨next, hnext, htarget⟩ := Paths.follow_cons_eq_some.mp htarget
      obtain ⟨relation, hrelation, rfl⟩ := Option.map_eq_some_iff.mp hnext
      exact hnested name below relation hbelow hrelation path last target hlast htarget

theorem known_none : none.Known context :=
  known_iff.mpr ⟨by simp [none], by simp [none]⟩

theorem known_all : all.Known context :=
  known_iff.mpr ⟨by simp [all], by simp [all]⟩

theorem Known.child {name : String} {relation : RelationTarget FilterContext}
    (h : selection.Known context) (hrelation : lookup name context.relations = some relation) :
    (selection.child name).Known relation.context := by
  unfold FieldSelection.child
  cases hbelow : lookup name selection.nested with
  | none => exact known_all
  | some below => exact (known_iff.mp h).2 name below relation hbelow hrelation

theorem Known.insertPath {path : List String} (hknown : selection.Known context)
    (h : selection.insertPath path context = .ok selection') : selection'.Known context := by
  induction path generalizing context selection selection' with
  | nil => cases h
  | cons segment rest ih =>
    obtain ⟨hcolumns, hnested⟩ := known_iff.mp hknown
    unfold FieldSelection.insertPath at h
    split_ifs at h with hstar hrest hlast hid hname hmem
    · obtain rfl := Except.ok.inj h
      exact known_iff.mpr ⟨hcolumns, hnested⟩
    · obtain rfl := Except.ok.inj h
      exact known_iff.mpr ⟨hcolumns, hnested⟩
    · obtain rfl := Except.ok.inj h
      exact known_iff.mpr ⟨hcolumns, hnested⟩
    · obtain ⟨_, -, h⟩ := bind_eq_ok.mp h
      obtain rfl := Except.ok.inj h
      exact known_iff.mpr ⟨hcolumns, hnested⟩
    · obtain ⟨_, hcolumn, h⟩ := bind_eq_ok.mp h
      obtain rfl := Except.ok.inj h
      have hcolumn := not_not.mp (failIf_eq_ok.mp hcolumn)
      refine known_iff.mpr ⟨fun column hin => ?_, hnested⟩
      rcases List.mem_append.mp hin with hin | hin
      · exact hcolumns column hin
      · rwa [List.mem_singleton.mp hin]
    · obtain ⟨relation, hrelation, h⟩ := bind_eq_ok.mp h
      obtain ⟨_, -, h⟩ := bind_eq_ok.mp h
      obtain ⟨below, hbelow, h⟩ := bind_eq_ok.mp h
      obtain rfl := Except.ok.inj h
      have hrelation := okOr_eq_ok.mp hrelation
      refine known_iff.mpr ⟨hcolumns, fun name last target hlast htarget => ?_⟩
      by_cases hsame : name = segment
      · subst hsame
        rw [hrelation, Option.some_inj] at htarget
        rw [lookup_insert_self, Option.some_inj] at hlast
        subst htarget hlast
        refine ih ?_ hbelow
        cases hbefore : lookup name selection.nested with
        | none => exact known_none
        | some before => exact hnested name before relation hbefore hrelation
      · rw [lookup_insert_of_ne hsame] at hlast
        exact hnested name last target hlast htarget

/-- **A selection that is read** names columns of the context. -/
theorem known_of_parse {input : Option String} (h : parse input context = .ok selection) :
    selection.Known context := by
  unfold parse at h
  split at h
  · obtain rfl := Except.ok.inj h
    exact known_all
  · obtain ⟨read, hread, h⟩ := bind_eq_ok.mp h
    obtain ⟨_, -, h⟩ := bind_eq_ok.mp h
    obtain rfl := Except.ok.inj h
    refine invariant_addEntries (P := fun _ selection => selection.Known context)
      (fun _ raw before after hbefore hadd => ?_) [] known_none hread
    obtain ⟨path, -, hinsert⟩ := bind_eq_ok.mp hadd
    exact Known.insertPath hbefore hinsert

end FieldSelection

end LazyPock
