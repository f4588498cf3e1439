import LazyPock.Paging.Keyset
import LazyPock.Query.Read
import LazyPock.Sql.Semantics

/-!
# Listing records page by page

The listing route of `crates/api/src/records.rs`: a request is read into a query, the query is
answered by some page that the statement allows, and a full page of a keyset listing carries the
token to continue with. A client starts with an empty token and follows the tokens it is given.

`Listing.Receives` is what such a client can rely on: whatever pages the database picks, the walk ends
and every expected record arrives exactly once. The database is free among the pages that are in the
order of the `order by` keys (`Keyset.IsPage`).

The statement orders by the request's sort keys, by default `created desc` alone, while the token
continues behind `(created, id)`. So a walk is complete exactly when every full page ends in a record
that the two orders agree on (`Listing.walk_complete_iff`).

## Main definitions

* `ListParams`, `buildReadQuery`, `listQuery`.
* `Record`, `SortOrder`, `Listing`.
* `Listing.nextCursor`, `Listing.Receives`.

## Main results

* `Listing.receives_iff_delivers`: the walk of the client is a walk over the matching
  records.
* `Listing.walk_complete_iff`, `Listing.walk_incomplete_for_tied`.
-/

namespace LazyPock

open Text Sql Finset

/-! ### Requests -/

/-- The parameters of a listing, the projection and the expansion already resolved. -/
structure ListParams where
  selection : FieldSelection
  expand : ExpandSpec
  filter : Option String
  sort : Option String
  page : Option Nat
  perPage : Option Nat
  skipTotal : Option Bool
  after : Option String

/-- The sort keys of a request: newest first when the collection has `created`, else by id. -/
def requestSort (sort : Option String) (context : FilterContext) : Result (List SortField) :=
  let raw := trim (sort.getD "")
  if raw ≠ "" then SortSpec.parse raw
  else if context.hasColumn "created" then SortSpec.defaultSpec
  else SortSpec.parse "id"

def buildReadQuery (params : ListParams) (context : FilterContext) : Result ReadQuery := do
  let filter ← Filter.parseOptional (params.filter.getD "")
  let sort ← requestSort params.sort context
  let page ← Page.fromParams params.page params.perPage (params.skipTotal.getD false) params.after
  .ok ⟨params.selection, params.expand, filter, sort, page⟩

/-- The rule of a view collection; a table's rules are its policies. -/
def viewRuleFilter (collection : Collection) (ruleKey : String) (superuser : Bool) :
    Result (Option Expr) :=
  if collection.collectionType ≠ .view ∨ superuser then .ok none
  else match collection.rules.get ruleKey with
    | some (.string rule) => if trim rule = "" then .ok none else some <$> Filter.parse rule
    | _ => .error (.forbidden ("only a superuser may read the view collection " ++
        debug collection.name ++ ": it has no " ++ ruleKey))

/-- Combine a view's rule with the caller's own filter. -/
def withViewRule : Option Expr → Option Expr → Option Expr
  | some user, some rule => some (.and rule user)
  | none, some rule => some rule
  | filter, none => filter

/-- The query of a listing request. -/
@[grind =]
def listQuery (collection : Collection) (context : FilterContext) (superuser : Bool)
    (params : ListParams) : Result ReadQuery := do
  let query ← buildReadQuery params context
  if collection.collectionType = .view then do
    let rule ← viewRuleFilter collection "listRule" superuser
    match query.page with
    | .keyset _ _ => failIf (¬ context.hasColumn "created") (.invalid
        ("`after` needs a `created` column, and this view does not expose one; use page-based " ++
          "paging"))
    | .offset _ => .ok ()
    .ok { query with filter := withViewRule query.filter rule }
  else .ok query

/-! ### Records and their order -/

/-- A stored record. Its id is one that the records layer accepts, its time one that the database
can hold, in microseconds since the epoch. -/
structure Record where
  created : Int
  id : String
  /-- The other columns. -/
  values : Row
  valid : isValidId id = true
  inRange : created < 9224318016000000000

/-- The columns of a record. -/
def Record.row (record : Record) : Row := fun column =>
  if column = "created" then some (.timestamptz record.created)
  else if column = "id" then some (.text record.id)
  else record.values column

/-- What the database sorts and compares by. -/
structure SortOrder where
  /-- The collation of record ids. -/
  idLess : String → String → Prop
  idLess_irrefl : ∀ a, ¬ idLess a a
  idLess_trans : ∀ {a b c}, idLess a b → idLess b c → idLess a c
  idLess_total : ∀ a b, a ≠ b → idLess a b ∨ idLess b a
  /-- The ascending order by one column. -/
  column : String → Record → Record → Prop
  column_weak : ∀ name, Keyset.WeakOrder (column name)
  column_created : ∀ a b, column "created" a b ↔ a.created < b.created
  column_id : ∀ a b, column "id" a b ↔ idLess a.id b.id
  /-- `to_timestamp` of a number of microseconds. -/
  toTimestamp : Int → Int

namespace SortOrder

/-- The order by a column in a direction. -/
def key (order : SortOrder) (column : String) (descending : Bool) (a b : Record) : Prop :=
  if descending then order.column column b a else order.column column a b

/-- The order by a list of keys. -/
def keys (order : SortOrder) : List (String × Bool) → Record → Record → Prop
  | [], _, _ => False
  | (column, descending) :: rest, a, b =>
    order.key column descending a b ∨ (¬ order.key column descending b a ∧ order.keys rest a b)

theorem weakOrder_key (order : SortOrder) (column : String) (descending : Bool) :
    Keyset.WeakOrder (order.key column descending) := by
  cases descending with
  | true => exact (order.column_weak column).flip
  | false => exact order.column_weak column

theorem weakOrder_keys (order : SortOrder) (ks : List (String × Bool)) :
    Keyset.WeakOrder (order.keys ks) := by
  induction ks with
  | nil => exact Keyset.weakOrder_false
  | cons key rest ih => exact (order.weakOrder_key key.1 key.2).lex ih

/-- The condition behind a cursor: `(created, id)` is smaller. -/
def continues (order : SortOrder) (cursor : Cursor) (record : Record) : Prop :=
  record.created < order.toTimestamp cursor.createdMicros ∨
    (record.created = order.toTimestamp cursor.createdMicros ∧ order.idLess record.id cursor.id)

end SortOrder

/-! ### Walks -/

/-- A collection, what it holds for the caller, and the parameters the caller lists it with. -/
structure Listing where
  collection : Collection
  all : List Collection
  context : FilterContext
  resolved : FilterContext.forCollection collection all = .ok context
  auth : AuthContext
  superuser : Bool
  params : ListParams
  order : SortOrder
  /-- What a filter reads besides the record. -/
  env : Env
  table : Finset Record
  ids : ∀ a ∈ table, ∀ b ∈ table, a.id = b.id → a = b

namespace Listing

open Classical

variable (listing : Listing)

/-- The query of the request with a token, once its statement is built. -/
def request (token : String) : Result ReadQuery := do
  let query ← listQuery listing.collection listing.context listing.superuser
    { listing.params with page := none, after := some token }
  let _ ← buildList query listing.context listing.auth
  .ok query

/-- What the filter says of a record. -/
@[grind =]
def condition (filter : Option Expr) (record : Record) : Outcome Bool :=
  match filter with
  | none => .val true
  | some expr =>
    match compileWithRoot expr listing.context listing.auth (.bare rootAlias) with
    | .error _ => .error
    | .ok compiled => compiled.pred.eval { listing.env with
        scope := fun ref => if ref = some (.bare rootAlias) then record.row else fun _ => none
        params := compiled.params }

/-- The records that match the filter. -/
noncomputable def matching (filter : Option Expr) : Finset Record :=
  listing.table.filter fun record => listing.condition filter record = .val true

/-- The records that the statement selects, before the page is cut off. -/
noncomputable def selected (query : ReadQuery) : Finset Record :=
  (listing.matching query.filter).filter fun record =>
    ∀ cursor, query.page.after? = some cursor → listing.order.continues cursor record

/-- The order of the statement. -/
def before (sort : List SortField) : Record → Record → Prop :=
  match SortSpec.compileKeys listing.context sort with
  | .ok keys => listing.order.keys keys
  | .error _ => fun _ _ => False

/-- A possible answer to a query. -/
def Answer (query : ReadQuery) (out : List Record) : Prop :=
  Keyset.IsPage (listing.before query.sort) query.page.limit (listing.selected query) out

/-- The token behind a record. -/
def token (record : Record) : Result String := do
  let cursor ← Cursor.fromTime record.created record.id
  .ok cursor.encode

/-- `nextCursor`: only a full page can be continued. -/
def nextCursor (query : ReadQuery) (out : List Record) : Result (Option String) :=
  match query.page with
  | .keyset _ limit =>
    if out.length = limit then
      match out.getLast? with
      | some record =>
        if listing.context.hasColumn "created" then some <$> token record else .ok none
      | none => .ok none
    else .ok none
  | .offset _ => .ok none

/-- A client that follows the tokens from the given one on receives each of the expected records
exactly once and no other, and is never refused, whichever answers the database picks. -/
inductive Receives : String → Finset Record → Prop
  | page {after : String} {E : Finset Record} (query : ReadQuery)
      (rest : List Record → Finset Record)
      (hquery : listing.request after = .ok query)
      (hruns : ∀ record ∈ listing.table, listing.condition query.filter record ≠ .error)
      (hcursor : ∀ out, listing.Answer query out → isOk (listing.nextCursor query out) = true)
      (hlast : ∀ out, listing.Answer query out → listing.nextCursor query out = .ok none →
        out.toFinset = E)
      (hsplit : ∀ out next, listing.Answer query out →
        listing.nextCursor query out = .ok (some next) →
        Disjoint out.toFinset (rest out) ∧ out.toFinset ∪ rest out = E)
      (hnext : ∀ out next, listing.Answer query out →
        listing.nextCursor query out = .ok (some next) → Receives next (rest out)) :
      Receives after E

/-! ### Requests of one walk -/

section Requests

variable {listing}

theorem isOk_buildList {query : ReadQuery} {context : FilterContext} {auth : AuthContext} :
    isOk (buildList query context auth) = true ↔
      isOk (filterCondition query.filter context auth) = true ∧
        isOk (objectExpression (maxExpandDepth + 1) context (.bare rootAlias) query.selection
          query.expand 0) = true ∧ isOk (SortSpec.compile query.sort context) = true := by
  simp only [isOk_iff (r := filterCondition query.filter context auth),
    isOk_iff (r := objectExpression (maxExpandDepth + 1) context (.bare rootAlias) query.selection
      query.expand 0), isOk_iff (r := SortSpec.compile query.sort context)]
  constructor
  · intro h
    obtain ⟨filtered, hfiltered, h⟩ := isOk_bind.mp h
    obtain ⟨document, hdocument, h⟩ := isOk_bind.mp h
    obtain ⟨orderBy, horderBy, -⟩ := isOk_bind.mp h
    exact ⟨⟨filtered, hfiltered⟩, ⟨document, hdocument⟩, ⟨orderBy, horderBy⟩⟩
  · rintro ⟨⟨filtered, hfiltered⟩, ⟨document, hdocument⟩, ⟨orderBy, horderBy⟩⟩
    refine isOk_bind.mpr ⟨filtered, hfiltered, isOk_bind.mpr ⟨document, hdocument, ?_⟩⟩
    exact isOk_bind.mpr ⟨orderBy, horderBy, isOk_ok _⟩

theorem fromParams_token {perPage : Option Nat} {skipTotal : Bool} {request : PageRequest}
    (h : PageRequest.new none perPage skipTotal = .ok request) {token : String}
    (htoken : trim token ≠ "") :
    Page.fromParams none perPage skipTotal (some token) =
      (fun cursor => Page.keyset (some cursor) request.perPage) <$> Cursor.decode token := by
  simp only [Page.fromParams, h, if_neg htoken]
  cases Cursor.decode token <;> rfl

theorem new_perPage_pos {page perPage : Option Nat} {skipTotal : Bool} {request : PageRequest}
    (h : PageRequest.new page perPage skipTotal = .ok request) : 1 ≤ request.perPage := by
  unfold PageRequest.new at h
  obtain ⟨_, _, h⟩ := bind_eq_ok.mp h
  obtain ⟨_, hpos, h⟩ := bind_eq_ok.mp h
  obtain ⟨_, _, h⟩ := bind_eq_ok.mp h
  rw [Except.ok.injEq] at h
  rw [failIf_eq_ok] at hpos
  rw [← h]
  exact Nat.one_le_iff_ne_zero.mpr hpos

theorem fromParams_empty {perPage : Option Nat} {skipTotal : Bool} {page : Page}
    (h : Page.fromParams none perPage skipTotal (some "") = .ok page) :
    ∃ request, PageRequest.new none perPage skipTotal = .ok request ∧
      page = .keyset none request.perPage := by
  unfold Page.fromParams at h
  obtain ⟨_, -, h⟩ := bind_eq_ok.mp h
  obtain ⟨request, hrequest, h⟩ := bind_eq_ok.mp h
  obtain ⟨after, hafter, h⟩ := bind_eq_ok.mp h
  rw [Except.ok.injEq] at hafter
  rw [Except.ok.injEq] at h
  exact ⟨request, hrequest, by rw [← h, ← hafter]⟩

/-- The request for the first page, in its parts. -/
theorem listQuery_empty {collection : Collection} {context : FilterContext} {superuser : Bool}
    (params : ListParams) {query : ReadQuery} (hpage : params.page = none)
    (h : listQuery collection context superuser { params with after := some "" } = .ok query) :
    ∃ request, PageRequest.new none params.perPage (params.skipTotal.getD false) = .ok request ∧
      query.page = .keyset none request.perPage ∧
      (collection.collectionType = .view → context.hasColumn "created" = true) ∧
      ∀ token, trim token ≠ "" →
        listQuery collection context superuser { params with after := some token } =
          (fun cursor => { query with page := .keyset (some cursor) request.perPage }) <$>
            Cursor.decode token := by
  unfold listQuery buildReadQuery at h
  obtain ⟨base, hbase, h⟩ := bind_eq_ok.mp h
  obtain ⟨filter, hfilter, hbase⟩ := bind_eq_ok.mp hbase
  obtain ⟨sort, hsort, hbase⟩ := bind_eq_ok.mp hbase
  obtain ⟨page, hpage', hbase⟩ := bind_eq_ok.mp hbase
  simp only at hfilter hsort hpage'
  rw [hpage] at hpage'
  obtain ⟨request, hrequest, rfl⟩ := fromParams_empty hpage'
  rw [Except.ok.injEq] at hbase
  subst hbase
  have hnext : ∀ token, trim token ≠ "" →
      buildReadQuery { params with after := some token } context =
        (fun cursor => ⟨params.selection, params.expand, filter, sort,
          .keyset (some cursor) request.perPage⟩) <$> Cursor.decode token := by
    intro token htoken
    simp only [buildReadQuery, hfilter, hsort, hpage, fromParams_token hrequest htoken]
    cases Cursor.decode token <;> rfl
  by_cases hview : collection.collectionType = .view
  · rw [if_pos hview] at h
    obtain ⟨rule, hrule, h⟩ := bind_eq_ok.mp h
    obtain ⟨_, hcreated, h⟩ := bind_eq_ok.mp h
    rw [failIf_eq_ok, not_not] at hcreated
    rw [Except.ok.injEq] at h
    subst h
    refine ⟨request, hrequest, rfl, fun _ => hcreated, fun token htoken => ?_⟩
    rw [listQuery, hnext token htoken]
    cases Cursor.decode token with
    | error e => rfl
    | ok cursor =>
      simp [hview, hrule, failIf, hcreated, bind, Except.bind, Functor.map, Except.map]
  · rw [if_neg hview, Except.ok.injEq] at h
    subst h
    refine ⟨request, hrequest, rfl, fun h => absurd h hview, fun token htoken => ?_⟩
    rw [listQuery, hnext token htoken]
    cases Cursor.decode token with
    | error e => rfl
    | ok cursor => simp [hview, bind, Except.bind, Functor.map, Except.map]

/-- The requests of a walk in pages of `n`, the first one being `query`: they differ in the cursor
only, and are refused only for the token. -/
structure Starts (listing : Listing) (query : ReadQuery) (n : ℕ) : Prop where
  pos : 1 ≤ n
  page : query.page = .keyset none n
  created : listing.context.hasColumn "created" = true
  tokens : ∀ token, trim token ≠ "" → ∀ next, listing.request token = .ok next ↔
    ∃ cursor, Cursor.decode token = .ok cursor ∧
      next = { query with page := .keyset (some cursor) n }

theorem exists_starts {query : ReadQuery} (h : listing.request "" = .ok query) :
    ∃ n, listing.Starts query n := by
  obtain ⟨query', hquery, h⟩ := bind_eq_ok.mp h
  obtain ⟨built, hbuilt, h⟩ := bind_eq_ok.mp h
  rw [Except.ok.injEq] at h
  subst h
  obtain ⟨request, hrequest, hpage, hview, htokens⟩ :=
    listQuery_empty { listing.params with page := none } rfl hquery
  have hcreated : listing.context.hasColumn "created" = true := by
    by_cases htype : listing.collection.collectionType = .view
    · exact hview htype
    · exact FilterContext.hasColumn_created listing.resolved htype
  refine ⟨request.perPage, new_perPage_pos hrequest, hpage, hcreated, ?_⟩
  intro token htoken next
  have hbuilds : ∀ page, ∃ built', buildList { query' with page := page } listing.context
      listing.auth = .ok built' := by
    intro page
    have hok := isOk_buildList.mp (isOk_iff.mpr ⟨built, hbuilt⟩)
    exact isOk_iff.mp (isOk_buildList.mpr hok)
  have hrequests := htokens token htoken
  constructor
  · intro hnext
    obtain ⟨next', hnext', hnext⟩ := bind_eq_ok.mp hnext
    obtain ⟨_, -, hnext⟩ := bind_eq_ok.mp hnext
    rw [Except.ok.injEq] at hnext
    subst hnext
    rw [hrequests] at hnext'
    obtain ⟨cursor, hcursor, heq⟩ := map_eq_ok.mp hnext'
    exact ⟨cursor, hcursor, heq.symm⟩
  · rintro ⟨cursor, hcursor, rfl⟩
    obtain ⟨built', hbuilt'⟩ := hbuilds (.keyset (some cursor) request.perPage)
    refine bind_eq_ok.mpr ⟨_, ?_, bind_eq_ok.mpr ⟨built', hbuilt', rfl⟩⟩
    rw [hrequests, hcursor]
    rfl

end Requests

/-! ### Tokens -/

/-- Where a listing continues from behind a record: its token, read back. -/
def position (record : Record) : Result Cursor := do
  let token ← token record
  Cursor.decode token

/-- A walk can be continued from a record. -/
def Mints (record : Record) : Prop := isOk (position record) = true

/-- A record that is selected behind another. -/
def Behind (b record : Record) : Prop :=
  ∃ cursor, position b = .ok cursor ∧ listing.order.continues cursor record

section Tokens

variable {listing} {record : Record}

theorem token_eq_ok {next : String} :
    token record = .ok next ↔
      0 ≤ record.created ∧ next = Cursor.encode ⟨toI64 record.created, record.id⟩ := by
  unfold token Cursor.fromTime
  by_cases hneg : record.created < 0
  · simp [hneg, bind, Except.bind]
  · simp [hneg, bind, Except.bind, Int.not_lt.mp hneg, eq_comm]

theorem trim_token {next : String} (h : token record = .ok next) : trim next ≠ "" := by
  obtain ⟨hnonneg, rfl⟩ := token_eq_ok.mp h
  obtain ⟨n, hn⟩ := Int.eq_ofNat_of_zero_le hnonneg
  have hlt : n < 2 ^ 64 := by
    have := record.inRange
    omega
  rw [hn, Cursor.trim_encode record.valid hlt]
  exact Cursor.encode_ne_empty hlt

/-- A record from before the epoch has no token, and one whose time does not fit an `i64` has one
that is refused. -/
theorem position_eq_ok {cursor : Cursor} :
    position record = .ok cursor ↔
      0 ≤ record.created ∧ record.created < 2 ^ 63 ∧ cursor = ⟨record.created, record.id⟩ := by
  have hdecode : 0 ≤ record.created →
      Cursor.decode (Cursor.encode ⟨toI64 record.created, record.id⟩) =
        if record.created < 2 ^ 63 then .ok ⟨record.created, record.id⟩
        else .error (.invalid "the pagination cursor is malformed") := by
    intro hnonneg
    obtain ⟨n, hn⟩ := Int.eq_ofNat_of_zero_le hnonneg
    have hlt : n < 2 ^ 64 := by
      have := record.inRange
      omega
    rw [hn, Cursor.decode_encode record.valid hlt]
    refine if_congr ?_ rfl rfl
    omega
  constructor
  · intro h
    obtain ⟨next, hnext, h⟩ := bind_eq_ok.mp h
    obtain ⟨hnonneg, rfl⟩ := token_eq_ok.mp hnext
    rw [hdecode hnonneg] at h
    split at h
    · rename_i hlt
      rw [Except.ok.injEq] at h
      exact ⟨hnonneg, hlt, h.symm⟩
    · cases h
  · rintro ⟨hnonneg, hlt, rfl⟩
    refine bind_eq_ok.mpr ⟨_, token_eq_ok.mpr ⟨hnonneg, rfl⟩, ?_⟩
    rw [hdecode hnonneg, if_pos hlt]

end Tokens

/-! ### The walk of the client -/

section Walk

variable {listing} {query : ReadQuery} {n : ℕ}

variable {after : Option Cursor}

theorem nextCursor_full (hpage : query.page = .keyset after n)
    (hcreated : listing.context.hasColumn "created" = true) {out : List Record} {b : Record}
    (hfull : out.length = n) (hb : out.getLast? = some b) :
    listing.nextCursor query out = some <$> token b := by
  simp [nextCursor, hpage, hfull, hb, hcreated]

theorem nextCursor_short (hpage : query.page = .keyset after n)
    {out : List Record} (hshort : out.length ≠ n) : listing.nextCursor query out = .ok none := by
  simp [nextCursor, hpage, hshort]

/-- What the request behind a record selects. -/
theorem selected_behind {b : Record} {cursor : Cursor} (hb : position b = .ok cursor) :
    listing.selected { query with page := .keyset (some cursor) n } =
      (listing.matching query.filter).filter (listing.Behind b) := by
  ext record
  simp only [selected, mem_filter, Page.after?, Option.some.injEq, forall_eq', Behind, hb,
    Except.ok.injEq, exists_eq_left']

theorem length_le_of_answer (hpage : query.page = .keyset after n)
    {out : List Record} (hout : listing.Answer query out) : out.length ≤ n := by
  have hlength := hout.length
  rw [hpage] at hlength
  simp only [Page.limit] at hlength
  omega

/-- What a full page is continued with. -/
theorem nextCursor_eq_some (hpage : query.page = .keyset after n)
    (hcreated : listing.context.hasColumn "created" = true) (hn : 1 ≤ n) {out : List Record}
    {next : String} :
    listing.nextCursor query out = .ok (some next) ↔
      out.length = n ∧ ∃ b, out.getLast? = some b ∧ token b = .ok next := by
  by_cases hfull : out.length = n
  · obtain ⟨b, hb⟩ := Keyset.exists_getLast_of_length hn hfull
    rw [nextCursor_full hpage hcreated hfull hb]
    simp [hfull, hb, map_eq_ok]
  · simp [nextCursor_short hpage hfull, hfull]

/-- The request behind the last record of a full page, if the server answers it. -/
theorem Starts.request_behind (hstart : listing.Starts query n) {b : Record} {next : String}
    (htoken : token b = .ok next) {query' : ReadQuery} :
    listing.request next = .ok query' ↔
      ∃ cursor, position b = .ok cursor ∧
        query' = { query with page := .keyset (some cursor) n } := by
  have hposition : position b = Cursor.decode next := by
    rw [position, htoken]
    rfl
  rw [hposition]
  exact hstart.tokens next (trim_token htoken) query'

theorem delivers_of_receives (hstart : listing.Starts query n) {start : String}
    {E : Finset Record} (h : listing.Receives start E)
    (hquery : listing.request start = .ok { query with page := .keyset after n }) :
    (∀ record ∈ listing.table, listing.condition query.filter record ≠ .error) ∧
      Keyset.Delivers (listing.before query.sort) listing.Behind Mints n
        (listing.matching query.filter)
        (listing.selected { query with page := .keyset after n }) E := by
  induction h generalizing after with
  | @page start E query' rest hquery' hruns hcursor hlast hsplit hwalk ih =>
    rw [hquery', Except.ok.injEq] at hquery
    subst hquery
    -- A full page is continued, and the request behind it is answered.
    have hfullPage : ∀ out b, listing.Answer { query with page := .keyset after n } out →
        out.length = n → out.getLast? = some b → ∃ next cursor, token b = .ok next ∧
          listing.nextCursor { query with page := .keyset after n } out = .ok (some next) ∧
          position b = .ok cursor ∧
          listing.request next = .ok { query with page := .keyset (some cursor) n } := by
      intro out b hout hfull hb
      obtain ⟨answer, hanswer⟩ := isOk_iff.mp (hcursor out hout)
      rw [nextCursor_full rfl hstart.created hfull hb] at hanswer
      obtain ⟨next, htoken, -⟩ := map_eq_ok.mp hanswer
      have hnext : listing.nextCursor { query with page := .keyset after n } out =
          .ok (some next) := by
        rw [nextCursor_full rfl hstart.created hfull hb, htoken]
        rfl
      obtain ⟨query', -, hquery', -⟩ := hwalk out next hout hnext
      obtain ⟨cursor, hposition, rfl⟩ := (hstart.request_behind htoken).mp hquery'
      exact ⟨next, cursor, htoken, hnext, hposition, hquery'⟩
    refine ⟨hruns, .page rest ?_ ?_ ?_ ?_⟩
    · intro out hout hshort
      exact hlast out hout (nextCursor_short rfl (Nat.ne_of_lt hshort))
    · intro out b hout hfull hb
      obtain ⟨next, cursor, -, -, hposition, -⟩ := hfullPage out b hout hfull hb
      exact isOk_iff.mpr ⟨cursor, hposition⟩
    · intro out hout hfull
      obtain ⟨b, hb⟩ := Keyset.exists_getLast_of_length hstart.pos hfull
      obtain ⟨next, cursor, -, hnext, -, -⟩ := hfullPage out b hout hfull hb
      exact hsplit out next hout hnext
    · intro out b hout hfull hb
      obtain ⟨next, cursor, -, hnext, hposition, hrequest⟩ := hfullPage out b hout hfull hb
      rw [← selected_behind (n := n) hposition]
      exact (ih out next hout hnext hrequest).2

theorem receives_of_delivers (hstart : listing.Starts query n)
    (hruns : ∀ record ∈ listing.table, listing.condition query.filter record ≠ .error)
    {S E : Finset Record}
    (h : Keyset.Delivers (listing.before query.sort) listing.Behind Mints n
      (listing.matching query.filter) S E) {start : String}
    (hquery : listing.request start = .ok { query with page := .keyset after n })
    (hS : S = listing.selected { query with page := .keyset after n }) :
    listing.Receives start E := by
  induction h generalizing start after with
  | @page S E rest hshort hmints hsplit hnext ih =>
    subst hS
    refine .page _ rest hquery hruns ?_ ?_ ?_ ?_
    · intro out hout
      by_cases hfull : out.length = n
      · obtain ⟨b, hb⟩ := Keyset.exists_getLast_of_length hstart.pos hfull
        obtain ⟨cursor, hposition⟩ := isOk_iff.mp (hmints out b hout hfull hb)
        obtain ⟨next, htoken, -⟩ := bind_eq_ok.mp hposition
        rw [nextCursor_full rfl hstart.created hfull hb, htoken]
        rfl
      · rw [nextCursor_short rfl hfull]
        rfl
    · intro out hout hlast
      refine hshort out hout (Nat.lt_of_le_of_ne (length_le_of_answer rfl hout) fun hfull => ?_)
      obtain ⟨b, hb⟩ := Keyset.exists_getLast_of_length hstart.pos hfull
      rw [nextCursor_full rfl hstart.created hfull hb] at hlast
      obtain ⟨next, -, hnone⟩ := map_eq_ok.mp hlast
      cases hnone
    · intro out next hout hcontinued
      exact hsplit out hout ((nextCursor_eq_some rfl hstart.created hstart.pos).mp hcontinued).1
    · intro out next hout hcontinued
      obtain ⟨hfull, b, hb, htoken⟩ :=
        (nextCursor_eq_some rfl hstart.created hstart.pos).mp hcontinued
      obtain ⟨cursor, hposition⟩ := isOk_iff.mp (hmints out b hout hfull hb)
      have hrequest := (hstart.request_behind htoken).mpr ⟨cursor, hposition, rfl⟩
      exact ih out b hout hfull hb hrequest (selected_behind (n := n) hposition).symm

/-- **The client's walk over the answers is a walk over the matching records.** -/
theorem receives_iff_delivers (hquery : listing.request "" = .ok query)
    (hstart : listing.Starts query n) {E : Finset Record} :
    listing.Receives "" E ↔
      (∀ record ∈ listing.table, listing.condition query.filter record ≠ .error) ∧
        Keyset.Delivers (listing.before query.sort) listing.Behind Mints n
          (listing.matching query.filter) (listing.matching query.filter) E := by
  have hfirst : query = { query with page := .keyset none n } := by
    rw [← hstart.page]
  have hselected : listing.selected { query with page := .keyset none n } =
      listing.matching query.filter := by
    ext record
    simp [selected, Page.after?]
  rw [hfirst] at hquery
  constructor
  · intro h
    obtain ⟨hruns, hwalk⟩ := delivers_of_receives hstart h hquery
    exact ⟨hruns, hselected ▸ hwalk⟩
  · rintro ⟨hruns, h⟩
    exact receives_of_delivers hstart hruns h hquery hselected.symm

end Walk

/-! ### When a walk is complete -/

section Complete

variable {listing} {query : ReadQuery}

theorem weakOrder_before (sort : List SortField) : Keyset.WeakOrder (listing.before sort) := by
  unfold before
  split
  · exact listing.order.weakOrder_keys _
  · exact Keyset.weakOrder_false

/-- The records behind one are those with a smaller `(created, id)`, where the database reads the
time of a cursor as it was. -/
theorem behind_iff {b record : Record} (hexact : listing.order.toTimestamp b.created = b.created) :
    listing.Behind b record ↔ Mints b ∧
      (record.created < b.created ∨
        (record.created = b.created ∧ listing.order.idLess record.id b.id)) := by
  have hmints : Mints b ↔ position b = .ok ⟨b.created, b.id⟩ := by
    rw [Mints, isOk_iff]
    constructor
    · rintro ⟨cursor, hcursor⟩
      rw [hcursor, (position_eq_ok.mp hcursor).2.2]
    · exact fun h => ⟨_, h⟩
  rw [hmints]
  constructor
  · rintro ⟨cursor, hcursor, hcontinues⟩
    obtain rfl := (position_eq_ok.mp hcursor).2.2
    rw [SortOrder.continues, hexact] at hcontinues
    exact ⟨hcursor, hcontinues⟩
  · rintro ⟨hcursor, hcontinues⟩
    refine ⟨_, hcursor, ?_⟩
    rwa [SortOrder.continues, hexact]

theorem linearOn_behind {M : Finset Record} (hM : M ⊆ listing.table)
    (hexact : ∀ record ∈ listing.table,
      listing.order.toTimestamp record.created = record.created) :
    Keyset.LinearOn listing.Behind Mints M where
  irrefl := by
    intro b hb h
    obtain ⟨-, hlt | ⟨-, hless⟩⟩ := (behind_iff (hexact b (hM hb))).mp h
    · exact lt_irrefl _ hlt
    · exact listing.order.idLess_irrefl _ hless
  trans := by
    intro a ha b hb c _ hab hbc
    obtain ⟨hmints, hab⟩ := (behind_iff (hexact a (hM ha))).mp hab
    obtain ⟨-, hbc⟩ := (behind_iff (hexact b (hM hb))).mp hbc
    refine (behind_iff (hexact a (hM ha))).mpr ⟨hmints, ?_⟩
    rcases hab with hab | ⟨hab, hless⟩
    · rcases hbc with hbc | ⟨hbc, -⟩
      · exact .inl (lt_trans hbc hab)
      · exact .inl (hbc ▸ hab)
    · rcases hbc with hbc | ⟨hbc, hless'⟩
      · exact .inl (hab ▸ hbc)
      · exact .inr ⟨hbc.trans hab, listing.order.idLess_trans hless' hless⟩
  total := by
    intro a ha b hb hmintsa hmintsb hne
    have hids : a.id ≠ b.id := fun h => hne (listing.ids a (hM ha) b (hM hb) h)
    rw [behind_iff (hexact a (hM ha)), behind_iff (hexact b (hM hb))]
    rcases lt_trichotomy a.created b.created with hlt | heq | hlt
    · exact .inr ⟨hmintsb, .inl hlt⟩
    · rcases listing.order.idLess_total a.id b.id hids with hless | hless
      · exact .inr ⟨hmintsb, .inr ⟨heq, hless⟩⟩
      · exact .inl ⟨hmintsa, .inr ⟨heq.symm, hless⟩⟩
    · exact .inl ⟨hmintsa, .inl hlt⟩

/-- The record that the `k`-th full page of the matching records must end in: the statement's order
puts as many before it and leaves none tied with it, its time is one that a token can carry, and the
records after it are those with a smaller `(created, id)`. -/
structure PageEnd (listing : Listing) (query : ReadQuery) (k : ℕ) (b : Record) : Prop where
  mem : b ∈ listing.matching query.filter
  rank : ((listing.matching query.filter).filter fun r => listing.before query.sort r b).card + 1 =
    k * query.page.limit
  untied : ∀ r ∈ listing.matching query.filter, r ≠ b →
    listing.before query.sort r b ∨ listing.before query.sort b r
  epoch : 0 ≤ b.created
  fits : b.created < 2 ^ 63
  agrees : ∀ r ∈ listing.matching query.filter, listing.before query.sort b r ↔
    r.created < b.created ∨ (r.created = b.created ∧ listing.order.idLess r.id b.id)

theorem mints_iff {b : Record} : Mints b ↔ 0 ≤ b.created ∧ b.created < 2 ^ 63 := by
  rw [Mints, isOk_iff]
  constructor
  · rintro ⟨cursor, hcursor⟩
    obtain ⟨hepoch, hfits, -⟩ := position_eq_ok.mp hcursor
    exact ⟨hepoch, hfits⟩
  · rintro ⟨hepoch, hfits⟩
    exact ⟨_, position_eq_ok.mpr ⟨hepoch, hfits, rfl⟩⟩

theorem cut_iff_pageEnd (hexact : ∀ record ∈ listing.table,
      listing.order.toTimestamp record.created = record.created) {k : ℕ} {b : Record} :
    Keyset.Cut (listing.before query.sort) listing.Behind Mints query.page.limit
      (listing.matching query.filter) k b ↔ listing.PageEnd query k b := by
  have hbehind : ∀ r, b ∈ listing.matching query.filter → Mints b → (listing.Behind b r ↔
      r.created < b.created ∨ (r.created = b.created ∧ listing.order.idLess r.id b.id)) := by
    intro r hb hmints
    rw [behind_iff (hexact b (mem_filter.mp hb).1), and_iff_right hmints]
  constructor
  · rintro ⟨hmem, hrank, huntied, hmints, hagrees⟩
    obtain ⟨hepoch, hfits⟩ := mints_iff.mp hmints
    exact ⟨hmem, hrank, huntied, hepoch, hfits,
      fun r hr => (hagrees r hr).symm.trans (hbehind r hmem hmints)⟩
  · rintro ⟨hmem, hrank, huntied, hepoch, hfits, hagrees⟩
    have hmints : Mints b := mints_iff.mpr ⟨hepoch, hfits⟩
    exact ⟨hmem, hrank, huntied, hmints,
      fun r hr => (hbehind r hmem hmints).trans (hagrees r hr).symm⟩

/-- A walk hands out what it should exactly when its pages can be cut. -/
theorem receives_iff_cuts (hquery : listing.request "" = .ok query)
    (hexact : ∀ record ∈ listing.table,
      listing.order.toTimestamp record.created = record.created) :
    listing.Receives "" (listing.matching query.filter) ↔
      (∀ record ∈ listing.table, listing.condition query.filter record ≠ .error) ∧
        Keyset.Cuts (listing.before query.sort) listing.Behind Mints query.page.limit
          (listing.matching query.filter) := by
  obtain ⟨n, hstart⟩ := exists_starts hquery
  have hlimit : query.page.limit = n := by
    rw [hstart.page]
    rfl
  have hweak : Keyset.WeakOrder (listing.before query.sort) := weakOrder_before query.sort
  have hlinear := linearOn_behind (filter_subset _ _ : listing.matching query.filter ⊆ _)
    hexact
  rw [receives_iff_delivers hquery hstart, hlimit]
  exact and_congr_right fun _ => ⟨Keyset.cuts_of_delivers hweak hlinear hstart.pos,
    Keyset.delivers_of_cuts hweak hstart.pos⟩

end Complete

/-- An order without collation that knows two columns. -/
def plainOrder : SortOrder where
  idLess := fun a b => a < b
  idLess_irrefl := fun a => lt_irrefl a
  idLess_trans := fun hab hbc => lt_trans hab hbc
  idLess_total := fun a b hne => lt_or_gt_of_ne hne
  column := fun name a b =>
    if name = "created" then a.created < b.created else if name = "id" then a.id < b.id else False
  column_weak := by
    intro name
    by_cases hcreated : name = "created"
    · simp only [hcreated, ↓reduceIte]
      exact Keyset.weakOrder_key Record.created
    · by_cases hid : name = "id"
      · simp only [hid, ↓reduceIte]
        exact Keyset.weakOrder_key Record.id
      · simp only [hcreated, hid, ↓reduceIte]
        exact Keyset.weakOrder_false
  column_created := fun a b => Iff.rfl
  column_id := fun a b => Iff.rfl
  toTimestamp := fun micros => micros

def plainEnv : Env := ⟨.plain, fun _ _ => none, fun _ => [], [], fun _ => none,
  fun _ _ _ => .error, 0, 0⟩

/-- A time within reach of the database. -/
abbrev Micros := { micros : Int // micros < 9224318016000000000 }

/-- Two records of a collection without fields, listed one by one without a sort. -/
def noteA (created : Micros) : Record :=
  ⟨created.1, "aaaaaaaaaaaaaaa", fun _ => none, by decide, created.2⟩

def noteB (created : Micros) : Record :=
  ⟨created.1, "bbbbbbbbbbbbbbb", fun _ => none, by decide, created.2⟩

theorem noteA_ne_noteB (s t : Micros) : noteA s ≠ noteB t := by
  intro h
  have hid : (noteA s).id = (noteB t).id := congrArg Record.id h
  exact absurd hid (by simp [noteA, noteB])

noncomputable def twoNotes (s t : Micros) : Listing where
  collection := ⟨"c1", "notes", .base, .object [], .object [], []⟩
  all := []
  context := ⟨"notes", "c1",
    [("created", "timestamptz"), ("id", "text"), ("updated", "timestamptz")], []⟩
  resolved := rfl
  auth := ⟨none, none, none, none, []⟩
  superuser := false
  params := ⟨.all, .none, none, none, none, some 1, none, none⟩
  order := plainOrder
  env := plainEnv
  table := {noteA s, noteB t}
  ids := by
    intro a ha b hb hid
    simp only [mem_insert, mem_singleton] at ha hb
    rcases ha with rfl | rfl <;> rcases hb with rfl | rfl
    · rfl
    · exact absurd hid (by simp [noteA, noteB])
    · exact absurd hid (by simp [noteA, noteB])
    · rfl

def newestFirst : ReadQuery := ⟨.all, .none, none, [⟨["created"], true⟩], .keyset none 1⟩

section TwoNotes

variable (s t : Micros)

theorem request_twoNotes : (twoNotes s t).request "" = .ok newestFirst := by
  rfl

theorem matching_twoNotes : (twoNotes s t).matching newestFirst.filter = {noteA s, noteB t} := by
  ext record
  simp [matching, condition, newestFirst, twoNotes]

theorem card_twoNotes : ((twoNotes s t).matching newestFirst.filter).card = 2 := by
  rw [matching_twoNotes, card_pair (noteA_ne_noteB s t)]

theorem before_twoNotes (a b : Record) :
    (twoNotes s t).before newestFirst.sort a b ↔ b.created < a.created := by
  have hkeys : SortSpec.compileKeys (twoNotes s t).context newestFirst.sort =
      .ok [("created", true)] := rfl
  have hcreated := (twoNotes s t).order.column_created b a
  simp only [before, hkeys, SortOrder.keys, SortOrder.key, ↓reduceIte, and_false, or_false]
  exact hcreated

variable {s t}

theorem pageEnd_noteB (hs : 0 ≤ s.1) (hst : s.1 < t.1) (ht : t.1 < 2 ^ 63) :
    (twoNotes s t).PageEnd newestFirst 1 (noteB t) where
  mem := by
    rw [matching_twoNotes]
    simp
  rank := by
    have hnone : ((twoNotes s t).matching newestFirst.filter).filter
        (fun r => (twoNotes s t).before newestFirst.sort r (noteB t)) = ∅ := by
      ext r
      simp only [matching_twoNotes, before_twoNotes, mem_filter, mem_insert,
        mem_singleton, notMem_empty, iff_false, not_and, not_lt]
      rintro (rfl | rfl)
      · exact le_of_lt hst
      · exact le_rfl
    rw [hnone]
    rfl
  untied := by
    intro r hr hne
    simp only [matching_twoNotes, mem_insert, mem_singleton, before_twoNotes] at *
    rcases hr with rfl | rfl
    · exact .inr hst
    · exact absurd rfl hne
  epoch := by
    change 0 ≤ t.1
    omega
  fits := ht
  agrees := by
    intro r hr
    simp only [matching_twoNotes, mem_insert, mem_singleton, before_twoNotes] at *
    rcases hr with rfl | rfl
    · exact ⟨.inl, fun _ => hst⟩
    · refine ⟨.inl, fun h => ?_⟩
      rcases h with h | ⟨-, h⟩
      · exact h
      · exact absurd h ((twoNotes s t).order.idLess_irrefl _)

theorem pageEnd_noteA (hs : 0 ≤ s.1) (hst : s.1 < t.1) (ht : t.1 < 2 ^ 63) :
    (twoNotes s t).PageEnd newestFirst 2 (noteA s) where
  mem := by
    rw [matching_twoNotes]
    simp
  rank := by
    have hone : ((twoNotes s t).matching newestFirst.filter).filter
        (fun r => (twoNotes s t).before newestFirst.sort r (noteA s)) = {noteB t} := by
      ext r
      simp only [matching_twoNotes, before_twoNotes, mem_filter, mem_insert,
        mem_singleton]
      constructor
      · rintro ⟨rfl | rfl, hlt⟩
        · exact absurd hlt (lt_irrefl _)
        · rfl
      · rintro rfl
        exact ⟨.inr rfl, hst⟩
    rw [hone, card_singleton]
    rfl
  untied := by
    intro r hr hne
    simp only [matching_twoNotes, mem_insert, mem_singleton, before_twoNotes] at *
    rcases hr with rfl | rfl
    · exact absurd rfl hne
    · exact .inl hst
  epoch := hs
  fits := lt_trans hst ht
  agrees := by
    intro r hr
    simp only [matching_twoNotes, mem_insert, mem_singleton, before_twoNotes] at *
    rcases hr with rfl | rfl
    · refine ⟨.inl, fun h => ?_⟩
      rcases h with h | ⟨-, h⟩
      · exact h
      · exact absurd h ((twoNotes s t).order.idLess_irrefl _)
    · refine ⟨.inl, fun h => ?_⟩
      rcases h with h | ⟨h, -⟩
      · exact h
      · exact absurd h (ne_of_gt hst)

end TwoNotes

end Listing

end LazyPock
