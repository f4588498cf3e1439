import LazyPock.Files.Rules
import LazyPock.Files.Store
import LazyPock.Paging.Offset
import LazyPock.Query.Pagination

/-!
# Listing the media library

`GET /api/files` (`list` of `crates/api/src/files.rs`) and the query behind it (`list` of
`crates/files/src/store.rs`). The condition of the query is put together from the filters that are
present, each with its parameter, and a restriction that was compiled on its own, whose placeholders
are moved behind theirs. The page is read by `limit` and `offset` in a fixed order.

The rows that the condition and the policies of `_files` select are a parameter of the reading; the
database reads the table in any order. Ids are compared by their characters.

## Main definitions

* `Files.ListQuery`, `Files.filters`, `Files.shiftPlaceholders`.
* `Files.countStatement`, `Files.pageStatement`.
* `Files.ListQuery.list`, `Files.listFiles`.

## Main results

* `Files.pages_show_everything_iff`: when the reported pages hold every row.
-/

namespace LazyPock.Files

open Text

/-! ### The query -/

/-- The name `_files.origin` stores. -/
def Origin.asStr : Origin → String
  | field => "field"
  | editor => "editor"
  | library => "library"

/-- The name `_files.status` stores. -/
def Status.asStr : Status → String
  | pending => "pending"
  | ready => "ready"

/-- What to list. -/
structure ListQuery where
  /-- 1-based page. -/
  page : Int
  perPage : Int
  collection : Option String
  record : Option String
  field : Option String
  mime : Option String
  search : Option String
  origin : Option Origin
  status : Option Status
  uploadedBy : Option String
  /-- A predicate the rows must match as well, from `files.rules.listRule`. -/
  restriction : Option CompiledFilter

/-- The clauses of the filters and their values, where they are present. -/
def ListQuery.clauses (query : ListQuery) : List (String × Option String) :=
  [("collection_name =", query.collection), ("record_id =", query.record),
    ("field_name =", query.field), ("mime_type like", query.mime.map fun mime => mime ++ "%"),
    ("filename ilike", query.search.map fun search => "%" ++ search ++ "%"),
    ("origin =", query.origin.map Origin.asStr), ("status =", query.status.map Status.asStr),
    ("uploaded_by =", query.uploadedBy)]

/-- `add` of `filters`: the parameter is pushed first, so the clause names the last one. -/
def addFilter (built : List String × List String) (filter : String × Option String) :
    List String × List String :=
  match filter.2 with
  | none => built
  | some value =>
    let parameters := built.2 ++ [value]
    (built.1 ++ [filter.1 ++ " $" ++ toString parameters.length ++ "::text"], parameters)

/-- The rows a filter matches: the clauses and the parameters. -/
def filters (query : ListQuery) : List String × List String :=
  query.clauses.foldl addFilter ([], [])

/-- `digits.parse::<usize>()` -/
def parsePosition (digits : List Char) : Option ℕ :=
  if digits = [] then none
  else
    let position := Nat.ofDigitChars 10 digits 0
    if position < 2 ^ 64 then some position else none

/-- A placeholder with its digits moved; what is no number stays. -/
def movedPlaceholder (offset : ℕ) (digits : List Char) : List Char :=
  '$' :: match parsePosition digits with
    | some position => (toString ((position + offset) % 2 ^ 64)).toList
    | none => digits

/-- The loop of `shift_placeholders`; the digits behind a dollar sign are collected until they end. -/
def shiftChars (offset : ℕ) : (placeholder : Option (List Char)) → List Char → List Char
  | none, [] => []
  | some digits, [] => movedPlaceholder offset digits
  | none, c :: cs => if c = '$' then shiftChars offset (some []) cs else c :: shiftChars offset none cs
  | some digits, c :: cs =>
    if isAsciiDigit c then shiftChars offset (some (digits ++ [c])) cs
    else movedPlaceholder offset digits ++
      if c = '$' then shiftChars offset (some []) cs else c :: shiftChars offset none cs

/-- Renumber the placeholders of a compiled fragment. -/
def shiftPlaceholders (sql : String) (offset : ℕ) : String :=
  if offset = 0 then sql else String.ofList (shiftChars offset none sql.toList)

/-- The clauses and parameters of the filters and the restriction. -/
def conditions (query : ListQuery) : List String × List String :=
  let built := filters query
  match query.restriction with
  | none => built
  | some restriction =>
    (built.1 ++ ["(" ++ shiftPlaceholders restriction.sql built.2.length ++ ")"],
      built.2 ++ restriction.params)

def whereClause (clauses : List String) : String :=
  if clauses = [] then "" else "where " ++ join " and " clauses

/-- A timestamp as the server sends it. -/
def timestampColumn (name : String) : String :=
  "to_char(" ++ name ++ " at time zone 'UTC', 'YYYY-MM-DD\"T\"HH24:MI:SS.MS\"Z\"') as " ++ name

/-- `COLUMNS` -/
def columns : String :=
  join ", " (["id", "filename", "extension", "mime_type", "size", "storage_path", "storage_backend",
    "collection_name", "record_id", "field_name", "variants", "status", "origin", "original_name",
    "width", "height", "checksum", "uploaded_by"] ++
    ["attached_at", "created_at", "updated_at"].map timestampColumn)

/-- A page size in the bounds of the server, `MAX_PER_PAGE` of the API and of the query. -/
def clampPerPage (perPage : Int) : Int := min (max perPage 1) 200

/-- The rows in front of the page, in the `i64` of the server. -/
def ListQuery.offset (query : ListQuery) : Int :=
  toI64 ((max query.page 1 - 1) * clampPerPage query.perPage)

/-- A statement and its parameters. -/
structure Statement where
  sql : String
  params : List String
deriving DecidableEq

def countStatement (query : ListQuery) : Statement :=
  let built := conditions query
  ⟨"select count(*) from _files " ++ whereClause built.1, built.2⟩

def pageStatement (query : ListQuery) : Statement :=
  let built := conditions query
  let parameters := built.2 ++ [toString (clampPerPage query.perPage), toString query.offset]
  ⟨"select " ++ columns ++ " from _files " ++ whereClause built.1 ++
    " order by created_at desc, id desc limit $" ++ toString (parameters.length - 1) ++
    "::text::bigint offset $" ++ toString parameters.length ++ "::text::bigint", parameters⟩

/-! ### Reading -/

/-- The keys of `order by created_at desc, id desc`. -/
def FileRow.position (row : FileRow) : Lex (Int × String) := toLex (row.createdAt, row.id)

/-- `count(*)`, a `bigint`. -/
def count (rows : List FileRow) : Result Int :=
  if rows.length < 2 ^ 63 then .ok rows.length else .error (.internal "bigint out of range")

/-- One page of the library, newest first, with the total. -/
def ListQuery.list (query : ListQuery) (selects : FileRow → Bool) (table : List FileRow) :
    Result (List FileRow × Int) := do
  let rows := table.filter selects
  let total ← count rows
  failIf (query.offset < 0) (.internal "OFFSET must not be negative")
  .ok (((Paging.newest FileRow.position rows).drop query.offset.toNat).take
    (clampPerPage query.perPage).toNat, total)

/-- The query string of `GET /api/files`. -/
structure ListRequest where
  collection : Option String
  record : Option String
  field : Option String
  mime : Option String
  search : Option String
  page : Int
  perPage : Int

/-- What the request asks of the store. -/
def ListRequest.query (request : ListRequest) : ListQuery where
  page := max request.page 1
  perPage := clampPerPage request.perPage
  collection := request.collection
  record := request.record
  field := request.field
  mime := request.mime
  search := request.search
  origin := none
  status := none
  uploadedBy := none
  restriction := none

/-- The answer of `GET /api/files`. -/
structure Listed where
  items : List FileRow
  page : Int
  perPage : Int
  total : Int
  totalItems : Int
  totalPages : Int
deriving Inhabited

/-- `GET /api/files` -/
def listFiles (superuser : Bool) (rules : FileRules) (selects : FileRow → Bool) (table : List FileRow)
    (request : ListRequest) : Result Listed := do
  let perPage := clampPerPage request.perPage
  let page := max request.page 1
  failIf (superuser = false ∧ rules.list = .superusersOnly)
    (.forbidden "Access denied by file listRule")
  let (files, total) ← request.query.list selects table
  .ok ⟨files, page, perPage, total, total, max (total / perPage) 1⟩

section Reading

theorem clampPerPage_spec (perPage : Int) : 1 ≤ clampPerPage perPage ∧ clampPerPage perPage ≤ 200 := by
  unfold clampPerPage
  omega

theorem clampPerPage_clampPerPage (perPage : Int) :
    clampPerPage (clampPerPage perPage) = clampPerPage perPage := by
  unfold clampPerPage
  omega

variable {superuser : Bool} {rules : FileRules} {selects : FileRow → Bool} {table : List FileRow}
  {request : ListRequest} {answer : Listed}

/-- What an answer says. -/
theorem listFiles_eq_ok (h : listFiles superuser rules selects table request = .ok answer) :
    ¬ (superuser = false ∧ rules.list = .superusersOnly) ∧
      (table.filter selects).length < 2 ^ 63 ∧
      answer.totalPages =
        max (((table.filter selects).length : Int) / clampPerPage request.perPage) 1 := by
  obtain ⟨_, hallowed, h⟩ := bind_eq_ok.mp h
  obtain ⟨found, hlist, h⟩ := bind_eq_ok.mp h
  obtain ⟨total, htotal, hlist⟩ := bind_eq_ok.mp hlist
  obtain ⟨-, -, hlist⟩ := bind_eq_ok.mp hlist
  obtain rfl := Except.ok.inj hlist
  obtain rfl := Except.ok.inj h
  unfold count at htotal
  split_ifs at htotal with hcount
  obtain rfl := Except.ok.inj htotal
  exact ⟨failIf_eq_ok.mp hallowed, hcount, rfl⟩

/-- The offset of the page behind `i` others, where it is a row number. -/
theorem offset_query {i : ℕ} (h : i * (clampPerPage request.perPage).toNat < 2 ^ 63) :
    ({ request with page := i + 1 } : ListRequest).query.offset =
      (i * (clampPerPage request.perPage).toNat : ℕ) := by
  obtain ⟨hpos, -⟩ := clampPerPage_spec request.perPage
  have hsize : ((clampPerPage request.perPage).toNat : Int) = clampPerPage request.perPage :=
    Int.toNat_of_nonneg (by omega)
  have hpage : max (max ((i : Int) + 1) 1) 1 - 1 = i := by omega
  rw [ListQuery.offset, ListRequest.query, clampPerPage_clampPerPage, hpage, Nat.cast_mul, hsize,
    toI64, Int.bmod_def]
  rw [← hsize, ← Nat.cast_mul]
  split_ifs <;> omega

/-- A page in reach: its rows. -/
theorem listFiles_page {i : ℕ} (hallowed : ¬ (superuser = false ∧ rules.list = .superusersOnly))
    (hcount : (table.filter selects).length < 2 ^ 63)
    (hreach : i * (clampPerPage request.perPage).toNat < 2 ^ 63) :
    ∃ answer, listFiles superuser rules selects table { request with page := i + 1 } = .ok answer ∧
      answer.items = Paging.page (clampPerPage request.perPage).toNat
        (Paging.newest FileRow.position (table.filter selects)) i := by
  have hoffset := offset_query hreach
  have hnonneg : ¬ ({ request with page := i + 1 } : ListRequest).query.offset < 0 := by
    rw [hoffset]
    omega
  have hlist : ({ request with page := i + 1 } : ListRequest).query.list selects table =
      .ok (Paging.page (clampPerPage request.perPage).toNat
        (Paging.newest FileRow.position (table.filter selects)) i, (table.filter selects).length) := by
    have hsize : clampPerPage ({ request with page := i + 1 } : ListRequest).query.perPage =
        clampPerPage request.perPage := clampPerPage_clampPerPage request.perPage
    rw [ListQuery.list, count, if_pos hcount, failIf, if_neg hnonneg, hsize, hoffset]
    rfl
  rw [listFiles, failIf, if_neg hallowed, hlist]
  exact ⟨_, rfl, rfl⟩

end Reading

/-! ### Every page -/

/-- The pages up to the reported number hold every row of the list once, and the page behind them is
empty. -/
structure ShowsEverything (answer : ℕ → Result Listed) (rows : List FileRow) (totalPages : Int) :
    Prop where
  pages : ∃ pages : List Listed,
    (List.range totalPages.toNat).map (fun i => answer (i + 1)) = pages.map .ok ∧
      (pages.flatMap Listed.items).Perm rows
  behind : ∃ last, answer (totalPages.toNat + 1) = .ok last ∧ last.items = []

/-- What the pages hold, where each of them is in reach. -/
theorem showsEverything_iff {answer : ℕ → Result Listed} {size n : ℕ} {sorted rows : List FileRow}
    (hsorted : sorted.Perm rows)
    (hpage : ∀ i ≤ n, ∃ listed,
      answer (i + 1) = .ok listed ∧ listed.items = Paging.page size sorted i) :
    ShowsEverything answer rows n ↔ rows.length ≤ n * size := by
  choose! listed hlisted hitems using hpage
  have hpages : (List.range n).map (fun i => answer (i + 1)) =
      ((List.range n).map listed).map .ok := by
    rw [List.map_map]
    exact List.map_congr_left fun i hi => hlisted i (List.mem_range.mp hi).le
  have hrows : ((List.range n).map listed).flatMap Listed.items =
      (List.range n).flatMap (Paging.page size sorted) := by
    rw [List.flatMap_map]
    exact List.flatMap_congr fun i hi => hitems i (List.mem_range.mp hi).le
  rw [← hsorted.length_eq, ← Paging.perm_flatMap_page_iff, ← hrows]
  constructor
  · rintro ⟨⟨pages, hmap, hperm⟩, -⟩
    rw [Int.toNat_natCast, hpages] at hmap
    have hsame := List.map_injective_iff.mpr (fun _ _ h => Except.ok.inj h) hmap
    rw [hsame]
    exact hperm.trans hsorted.symm
  · intro hperm
    refine ⟨⟨_, hpages, hperm.trans hsorted⟩, listed n, hlisted n le_rfl, ?_⟩
    rw [hitems n le_rfl]
    rw [hrows, Paging.perm_flatMap_page_iff] at hperm
    exact Paging.page_eq_nil hperm

/-- **When the pages show everything.** The number of pages is rounded down: the pages that are
reported hold every row that is selected, each once, exactly where there is no more than one page of
them or the last page is full. In whichever order the database reads the table, the pages agree. -/
theorem pages_show_everything_iff {superuser : Bool} {rules : FileRules} {selects : FileRow → Bool}
    {table : FileTable} {request : ListRequest} {first : Listed}
    (h : listFiles superuser rules selects table.rows request = .ok first)
    {scan : ℕ → List FileRow} (hscan : ∀ p, (scan p).Perm table.rows) :
    ShowsEverything
        (fun p => listFiles superuser rules selects (scan p) { request with page := p })
        (table.rows.filter selects) first.totalPages ↔
      ((table.rows.filter selects).length : Int) ≤ clampPerPage request.perPage ∨
        clampPerPage request.perPage ∣ (table.rows.filter selects).length := by
  obtain ⟨hallowed, hcount, htotal⟩ := listFiles_eq_ok h
  obtain ⟨size, hsize⟩ : ∃ size : ℕ, clampPerPage request.perPage = size :=
    Int.eq_ofNat_of_zero_le (by have := clampPerPage_spec request.perPage; omega)
  have hpos : 0 < size := by
    have := clampPerPage_spec request.perPage
    omega
  have hsmall : size ≤ 200 := by
    have := clampPerPage_spec request.perPage
    omega
  have hperm (p : ℕ) : ((scan p).filter selects).Perm (table.rows.filter selects) :=
    (hscan p).filter selects
  have hids : ∀ a ∈ table.rows.filter selects, ∀ b ∈ table.rows.filter selects,
      FileRow.position a = FileRow.position b → a = b := by
    intro a ha b hb hposition
    have hid : a.id = b.id := congrArg (fun p => (ofLex p).2) hposition
    exact List.inj_on_of_nodup_map table.nodup (List.mem_of_mem_filter ha)
      (List.mem_of_mem_filter hb) hid
  generalize hrows : table.rows.filter selects = rows at hcount htotal hperm hids
  have hpages : first.totalPages = (max (rows.length / size) 1 : ℕ) := by
    rw [htotal, hsize]
    norm_cast
  have hfloor : rows.length / size * size ≤ rows.length := Nat.div_mul_le_self _ _
  have hpage : ∀ i ≤ max (rows.length / size) 1, ∃ listed,
      listFiles superuser rules selects (scan (i + 1)) { request with page := (i + 1 : ℕ) } =
          .ok listed ∧
        listed.items = Paging.page size (Paging.newest FileRow.position rows) i := by
    intro i hi
    have hreach : i * size < 2 ^ 63 := by
      rcases le_max_iff.mp hi with hle | hle
      · exact (Nat.mul_le_mul_right size hle).trans_lt (hfloor.trans_lt hcount)
      · have hone := Nat.mul_le_mul_right size hle
        omega
    have hlength : ((scan (i + 1)).filter selects).length < 2 ^ 63 := by
      rw [(hperm (i + 1)).length_eq]
      exact hcount
    have hreach' : i * (clampPerPage request.perPage).toNat < 2 ^ 63 := by
      rw [hsize]
      exact hreach
    obtain ⟨listed, hlisted, hitems⟩ := listFiles_page hallowed hlength hreach'
    refine ⟨listed, hlisted, ?_⟩
    rw [hitems, hsize, Int.toNat_natCast, Paging.newest_eq_of_perm (hperm (i + 1)).symm hids]
  rw [hpages, showsEverything_iff (Paging.newest_perm FileRow.position rows) hpage,
    Paging.length_le_floor_iff hpos, hsize]
  norm_cast

/-- Uploads at one instant. -/
def uploads (ids : List String) (h : ids.Nodup) : FileTable where
  rows := ids.map fun id =>
    ⟨id, "image/png", 10, "local", "", "", "", .library, .pending, "", none, 0⟩
  nodup := by
    rw [List.map_map]
    exact (List.map_id ids).symm ▸ h

/-- The Studio asks for pages of two. -/
def inPairs : ListRequest := ⟨none, none, none, none, none, 1, 2⟩

/-- The pages of a library, whose rules leave it to superusers. -/
def pagesOf (table : FileTable) (p : ℕ) : Result Listed :=
  listFiles true ⟨.superusersOnly, .superusersOnly⟩ (fun _ => true) table.rows
    { inPairs with page := p }

/-- Four uploads at one instant are on the two pages that are reported. -/
theorem four_uploads_shown : ∃ first,
    pagesOf (uploads ["a", "b", "c", "d"] (by decide)) 1 = .ok first ∧
      ShowsEverything (pagesOf (uploads ["a", "b", "c", "d"] (by decide)))
        ((uploads ["a", "b", "c", "d"] (by decide)).rows.filter fun _ => true) first.totalPages := by
  have hscan (p : ℕ) : ((fun _ : ℕ => (uploads ["a", "b", "c", "d"] (by decide)).rows) p).Perm
      (uploads ["a", "b", "c", "d"] (by decide)).rows := .rfl
  exact ⟨_, rfl, (pages_show_everything_iff rfl hscan).mpr (.inr ⟨2, rfl⟩)⟩

/-- The third of three uploads is on no page that is reported. -/
theorem third_upload_not_shown : ∃ first,
    pagesOf (uploads ["a", "b", "c"] (by decide)) 1 = .ok first ∧
      ¬ ShowsEverything (pagesOf (uploads ["a", "b", "c"] (by decide)))
        ((uploads ["a", "b", "c"] (by decide)).rows.filter fun _ => true) first.totalPages := by
  refine ⟨_, rfl, ?_⟩
  rintro ⟨-, last, hlast, hempty⟩
  have hitems : (pagesOf (uploads ["a", "b", "c"] (by decide)) 2).toOption.map
      (fun listed => listed.items.length) = some 1 := by decide
  have hsecond : pagesOf (uploads ["a", "b", "c"] (by decide)) 2 = .ok last := hlast
  rw [hsecond] at hitems
  simp [Except.toOption, hempty] at hitems

end LazyPock.Files
