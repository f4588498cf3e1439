import LazyPock.Core.Assoc
import LazyPock.Core.Error
import LazyPock.Machine.Markup
import Mathlib.Data.List.Sort

/-!
# Listing a bucket

`S3Storage::list` of `crates/files/src/s3.rs`: the pages of a `ListObjectsV2` listing, each of them asked for
with a signed query and read by searching the document. The service rebuilds the canonical request from what
it receives, with the parameters of the query in the order of their names; from the second page on the query
is signed in another order. A document is read by undoing four of the five predefined entities.

The signature is kept as the text it is over; the MAC and the text of the `authorization` header are left
out, and so is the transport.

## Main definitions

* `S3.encodeQueryValue`, `S3.sign`, `S3.listQuery`.
* `S3.parseListing`, `S3.unescapeXml`.
* `S3.Service`: the service, with `S3.Service.answer`.
* `S3.list`.

## Main results

* `S3.canonicalQuery_first`, `S3.canonicalQuery_next`: which queries are canonical.
* `S3.unescape_escape`, `S3.parseListing_render`: what is read of a document.
* `S3.list_exact_iff`.
-/

namespace LazyPock.S3

open Text Machine.Markup List

/-! ### Requests -/

def isUnreserved (c : Char) : Bool :=
  isAsciiAlphanumeric c || c = '-' || c = '.' || c = '_' || c = '~'

def upperHex (n : ℕ) : Char := "0123456789ABCDEF".toList.getD n '0'

/-- A byte: an unreserved character, or `%` and two digits. -/
def encodeByte (n : ℕ) : List Char :=
  if isUnreserved (Char.ofNat n) then [Char.ofNat n] else ['%', upperHex (n / 16), upperHex (n % 16)]

/-- Percent-encode a query parameter value. -/
def encodeQueryValue (value : String) : String :=
  String.ofList (value.toUTF8.data.toList.flatMap fun byte => encodeByte byte.toNat)

/-- A request to sign. -/
structure SignableRequest where
  method : String
  canonicalUri : String
  canonicalQuery : String
  headers : List (String × String)
  payloadHash : String
  timestamp : String

/-- A signed request. -/
structure SignedRequest where
  method : String
  uri : String
  query : String
  headers : List (String × String)
  /-- The canonical request that the signature is over. -/
  signedOver : String

/-- The order of headers, and of query parameters: by name, then by value. -/
def PairOrder (a b : String × String) : Prop := a.1 < b.1 ∨ (a.1 = b.1 ∧ a.2 ≤ b.2)

instance : DecidableRel PairOrder := fun a b =>
  inferInstanceAs (Decidable (a.1 < b.1 ∨ (a.1 = b.1 ∧ a.2 ≤ b.2)))

/-- Headers with lowercase names, sorted. -/
def canonicalHeaders (headers : List (String × String)) : List (String × String) :=
  (headers.map fun header => (toAsciiLowercase header.1, header.2)).insertionSort PairOrder

/-- The canonical request, of headers that are sorted. -/
def canonicalRequest (method uri query : String) (headers : List (String × String))
    (payloadHash : String) : String :=
  method ++ "\n" ++ uri ++ "\n" ++ query ++ "\n" ++
    join "" (headers.map fun header => header.1 ++ ":" ++ header.2 ++ "\n") ++ "\n" ++
    join ";" (headers.map Prod.fst) ++ "\n" ++ payloadHash

/-- Sign a request. -/
def sign (request : SignableRequest) : SignedRequest :=
  let headers := canonicalHeaders (request.headers ++ [("x-amz-date", request.timestamp)])
  ⟨request.method, request.canonicalUri, request.canonicalQuery, headers,
    canonicalRequest request.method request.canonicalUri request.canonicalQuery headers
      request.payloadHash⟩

/-- The hash of an empty body. -/
def emptyPayloadHash : String := "e3b0c44298fc1c149afbf4c8996fb92427ae41e4649b934ca495991b7852b855"

/-- An S3-compatible backend. -/
structure S3Storage where
  host : String
  bucket : String

/-- The signed `GET` of the bucket with a query. -/
def S3Storage.signedList (storage : S3Storage) (query timestamp : String) : SignedRequest :=
  sign ⟨"GET", "/" ++ storage.bucket ++ "/", query,
    [("host", storage.host), ("x-amz-content-sha256", emptyPayloadHash)], emptyPayloadHash, timestamp⟩

/-- The query for a page. -/
def listQuery (listed : String) (token : Option String) : String :=
  let query := "list-type=2&max-keys=1000&prefix=" ++ encodeQueryValue listed
  match token with
  | some token => query ++ "&continuation-token=" ++ encodeQueryValue token
  | none => query

/-! ### Documents -/

/-- Undo the entities: the ampersand last. -/
def unescapeXml (value : List Char) : List Char :=
  replaceAll "&amp;".toList ['&'] (replaceAll "&#39;".toList ['\''] (replaceAll "&quot;".toList ['"']
    (replaceAll "&gt;".toList ['>'] (replaceAll "&lt;".toList ['<'] value))))

/-- The `<Key>` values of a document, of which there are at most `fuel`. -/
@[grind =]
def parseKeys : (fuel : ℕ) → List Char → List String
  | 0, _ => []
  | fuel + 1, xml =>
    match breakAt (openTag "Key".toList) xml with
    | none => []
    | some (_, behind) => match breakAt (closeTag "Key".toList) behind with
      | none => []
      | some (text, rest) => String.ofList (unescapeXml text) :: parseKeys fuel rest

def parseListing (xml : String) : List String := parseKeys xml.toList.length xml.toList

/-- The text of the first element of a name. -/
def element (xml name : String) : Option String := do
  let (_, behind) ← breakAt (openTag name.toList) xml.toList
  let (text, _) ← breakAt (closeTag name.toList) behind
  return String.ofList (unescapeXml text)

def isTruncated (xml : String) : Bool := element xml "IsTruncated" = some "true"

def parseContinuation (xml : String) : Option String :=
  (element xml "NextContinuationToken").filter fun token => token ≠ ""

/-! ### The service -/

/-- A character in a text: the five predefined entities. -/
def escapeXml (c : Char) : List Char :=
  if c = '&' then "&amp;".toList
  else if c = '<' then "&lt;".toList
  else if c = '>' then "&gt;".toList
  else if c = '"' then "&quot;".toList
  else if c = '\'' then "&apos;".toList
  else [c]

/-- The elements of a document that are looked for. -/
def wantedNames : List (List Char) := ["Key".toList, "IsTruncated".toList, "NextContinuationToken".toList]

/-- A `ListObjectsV2` document with these keys, and with a token where it is truncated. -/
structure ListDocument (keys : List String) (next : Option String) (items : List Item) : Prop where
  clean : ∀ item ∈ items, item.Clean wantedNames
  keys : leafTexts "Key".toList items = keys.map String.toList
  truncated : (leafTexts "IsTruncated".toList items).head? =
    some (if next.isSome then "true" else "false").toList
  next : (leafTexts "NextContinuationToken".toList items).head? = next.map String.toList

/-- The service and its bucket. -/
structure Service where
  /-- The keys, in order and each once. -/
  keys : List String
  keys_sorted : keys.Pairwise (· < ·)
  /-- How many keys it puts on a page. -/
  pageSize : ℕ
  pageSize_pos : 0 < pageSize
  pageSize_le : pageSize ≤ 1000
  /-- How it decodes what a query holds. -/
  decode : String → String
  decode_encode : ∀ value, decode (encodeQueryValue value) = value
  /-- The continuation token behind so many keys. -/
  token : ℕ → String
  token_ne : ∀ n, token n ≠ ""
  position : String → ℕ
  position_token : ∀ n, position (token n) = n
  /-- The document of a page. -/
  document : List String → Option String → List Item
  document_spec : ∀ keys next, ListDocument keys next (document keys next)
  /-- What it answers to a request that it refuses: status, code and body. -/
  refusal : String

namespace Service

variable (service : Service)

/-- The parameters of a query. -/
def params (query : String) : List (String × String) :=
  (splitOn '&' query).map fun part => match splitOnce '=' part with
    | some (name, value) => (service.decode name, service.decode value)
    | none => (service.decode part, "")

/-- The canonical query: sorted by encoded name. -/
def canonicalQuery (query : String) : String :=
  join "&" ((((service.params query).map fun param =>
    (encodeQueryValue param.1, encodeQueryValue param.2)).insertionSort PairOrder).map fun param =>
      param.1 ++ "=" ++ param.2)

/-- The canonical form of a request that was received. -/
def canonicalForm (request : SignedRequest) : String :=
  let headers := canonicalHeaders request.headers
  canonicalRequest request.method request.uri (service.canonicalQuery request.query) headers
    ((Assoc.lookup "x-amz-content-sha256" headers).getD "")

/-- The keys that start with a prefix. -/
def matching (listed : String) : List String := service.keys.filter fun key => startsWith listed key

/-- What is answered to a request for a page, where it is accepted. -/
def answer (request : SignedRequest) : Option String :=
  if request.signedOver = service.canonicalForm request then
    let params := service.params request.query
    let found := service.matching ((Assoc.lookup "prefix" params).getD "")
    let start := ((Assoc.lookup "continuation-token" params).map service.position).getD 0
    let stop := start + service.pageSize
    let next := if stop < found.length then some (service.token stop) else none
    some (String.ofList ((service.document ((found.drop start).take service.pageSize) next).flatMap
      (Item.render escapeXml)))
  else none

end Service

/-- `S3Storage::list`: the pages that are asked for from one token on, at most `fuel` of them. -/
@[grind =]
def listFrom (service : Service) (storage : S3Storage) (clock : ℕ → String) (listed : String) :
    (fuel : ℕ) → Option String → List String → Option (Result (List String))
  | 0, _, _ => none
  | fuel + 1, token, keys =>
    match service.answer (storage.signedList (listQuery listed token) (clock fuel)) with
    | none => some (.error (.internal ("S3 LIST failed: " ++ service.refusal)))
    | some body =>
      let keys := keys ++ parseListing body
      match if isTruncated body then parseContinuation body else none with
      | none => some (.ok (keys.insertionSort (· ≤ ·)))
      | some token => listFrom service storage clock listed fuel (some token) keys

/-- A listing, of at most `fuel` pages; `none` where it needs more. -/
def list (service : Service) (storage : S3Storage) (clock : ℕ → String) (listed : String) (fuel : ℕ) :
    Option (Result (List String)) := listFrom service storage clock listed fuel none []

/-! ### Entities that are undone -/

/-- The characters that are written as an entity. -/
def special : List Char := ['&', '<', '>', '"', '\'']

theorem escapeXml_of_notMem {c : Char} (h : c ∉ special) : escapeXml c = [c] := by
  simp only [special, List.mem_cons, List.not_mem_nil, or_false, not_or] at h
  obtain ⟨hamp, hlt, hgt, hquot, hapos⟩ := h
  rw [escapeXml, if_neg hamp, if_neg hlt, if_neg hgt, if_neg hquot, if_neg hapos]

theorem singleton_ne_entity (c : Char) (name : List Char) : [c] ≠ entity name := by
  simp [entity]

/-- How a character is written. -/
theorem escapeXml_cases (c : Char) :
    (∃ d, escapeXml c = [d] ∧ d ≠ '&') ∨ ∃ name, escapeXml c = entity name ∧ IsName name := by
  by_cases hmem : c ∈ special
  · right
    simp only [special, List.mem_cons, List.not_mem_nil, or_false] at hmem
    rcases hmem with rfl | rfl | rfl | rfl | rfl
    · exact ⟨"amp".toList, rfl, by decide⟩
    · exact ⟨"lt".toList, rfl, by decide⟩
    · exact ⟨"gt".toList, rfl, by decide⟩
    · exact ⟨"quot".toList, rfl, by decide⟩
    · exact ⟨"apos".toList, rfl, by decide⟩
  · exact .inl ⟨c, escapeXml_of_notMem hmem, fun heq => hmem (heq ▸ List.mem_cons_self)⟩

/-- Whose entity a name is. -/
theorem escapeXml_eq_iff {name : List Char} {d : Char} (hd : escapeXml d = entity name)
    (hother : ∀ c ∈ special, escapeXml c = entity name → c = d) (c : Char) :
    escapeXml c = entity name ↔ c = d := by
  refine ⟨fun h => ?_, fun h => h ▸ hd⟩
  by_cases hmem : c ∈ special
  · exact hother c hmem h
  · rw [escapeXml_of_notMem hmem] at h
    exact absurd h (singleton_ne_entity c name)

theorem escapeXml_ne_numeric (c : Char) : escapeXml c ≠ entity "#39".toList := by
  by_cases hmem : c ∈ special
  · revert c
    decide
  · rw [escapeXml_of_notMem hmem]
    exact singleton_ne_entity c _

/-- A text in which some characters are written as themselves already. -/
def escapeBut (undone : List Char) (c : Char) : List Char := if c ∈ undone then [c] else escapeXml c

theorem coding_escapeBut {undone : List Char} (h : '&' ∉ undone) : Coding (escapeBut undone) := by
  intro c
  rw [escapeBut]
  split_ifs with hmem
  · exact .inl ⟨c, rfl, fun heq => h (heq ▸ hmem)⟩
  · exact escapeXml_cases c

/-- One more entity is undone. -/
theorem replaceAll_escapeBut {undone : List Char} (h : '&' ∉ undone) {name : List Char} (d : Char)
    (hname : IsName name) (hd : escapeXml d = entity name)
    (hother : ∀ c ∈ special, escapeXml c = entity name → c = d) (cs : List Char) :
    replaceAll (entity name) [d] (cs.flatMap (escapeBut undone)) =
      cs.flatMap (escapeBut (d :: undone)) := by
  rw [replaceAll_flatMap (coding_escapeBut h) hname]
  refine congrArg (fun code => cs.flatMap code) (funext fun c => ?_)
  by_cases hmem : c ∈ undone
  · rw [escapeBut, if_pos hmem, if_neg (singleton_ne_entity c name), escapeBut,
      if_pos (List.mem_cons_of_mem d hmem)]
  · have hcode : escapeBut undone c = escapeXml c := if_neg hmem
    rw [hcode]
    by_cases hc : c = d
    · rw [if_pos (hc ▸ hd), escapeBut, if_pos (by simp [hc]), hc]
    · rw [if_neg fun heq => hc ((escapeXml_eq_iff hd hother c).mp heq), escapeBut,
        if_neg (by simp [hmem, hc])]

/-- An entity that no character is written as. -/
theorem replaceAll_escapeBut_of_ne {undone : List Char} (h : '&' ∉ undone) {name : List Char}
    (hname : IsName name) (hne : ∀ c, escapeXml c ≠ entity name) (replacement cs : List Char) :
    replaceAll (entity name) replacement (cs.flatMap (escapeBut undone)) =
      cs.flatMap (escapeBut undone) := by
  rw [replaceAll_flatMap (coding_escapeBut h) hname]
  refine congrArg (fun code => cs.flatMap code) (funext fun c => ?_)
  rw [if_neg]
  unfold escapeBut
  split_ifs
  · exact singleton_ne_entity c name
  · exact hne c

/-- A text as it is read: an apostrophe stays an entity. -/
def misread (c : Char) : List Char := if c = '\'' then "&apos;".toList else [c]

theorem escapeBut_all (c : Char) : escapeBut ['&', '"', '>', '<'] c = misread c := by
  by_cases hmem : c ∈ special
  · revert c
    decide
  · have hapos : c ≠ '\'' := fun heq => hmem (heq ▸ by decide)
    rw [misread, if_neg hapos, escapeBut, escapeXml_of_notMem hmem, ite_self]

/-- **What is undone of a text**: every entity but that of the apostrophe. -/
theorem unescape_escape (cs : List Char) : unescapeXml (cs.flatMap escapeXml) = cs.flatMap misread := by
  have hstart : escapeXml = escapeBut [] := rfl
  have hlt := @replaceAll_escapeBut [] (by decide) "lt".toList '<' (by decide) rfl (by decide) cs
  have hgt := @replaceAll_escapeBut ['<'] (by decide) "gt".toList '>' (by decide) rfl (by decide) cs
  have hquot :=
    @replaceAll_escapeBut ['>', '<'] (by decide) "quot".toList '"' (by decide) rfl (by decide) cs
  have hnumeric := @replaceAll_escapeBut_of_ne ['"', '>', '<'] (by decide) "#39".toList (by decide)
    escapeXml_ne_numeric ['\''] cs
  -- The ampersand comes last: before it no text has lost one.
  have hamp :=
    @replaceAll_escapeBut ['"', '>', '<'] (by decide) "amp".toList '&' (by decide) rfl (by decide) cs
  change replaceAll (entity "amp".toList) ['&'] (replaceAll (entity "#39".toList) ['\'']
    (replaceAll (entity "quot".toList) ['"'] (replaceAll (entity "gt".toList) ['>']
      (replaceAll (entity "lt".toList) ['<'] (cs.flatMap escapeXml))))) = _
  rw [hstart, hlt, hgt, hquot, hnumeric, hamp]
  exact congrArg (fun code => cs.flatMap code) (funext escapeBut_all)

/-! ### What is read of a document -/

theorem notMem_escapeXml (c : Char) : '<' ∉ escapeXml c := by
  by_cases hmem : c ∈ special
  · revert c
    decide
  · rw [escapeXml_of_notMem hmem, mem_singleton]
    exact fun heq => hmem (heq ▸ by decide)

/-- A text as it is read. -/
def misreadText (cs : List Char) : String := String.ofList (cs.flatMap misread)

theorem isTag_of_wanted : ∀ name ∈ wantedNames, IsTag name ∧ '/' ∉ name := by decide

section Documents

variable {items : List Item} (hclean : ∀ item ∈ items, item.Clean wantedNames)

include hclean in
/-- What a search for one of the elements finds. -/
theorem breakAt_wanted {name : List Char} (hname : name ∈ wantedNames) :
    (leafTexts name items = [] ∧ breakAt (openTag name) (items.flatMap (Item.render escapeXml)) = none) ∨
      ∃ front content later, (∀ item ∈ later, item.Clean wantedNames) ∧
        leafTexts name items = content :: leafTexts name later ∧
        breakAt (openTag name) (items.flatMap (Item.render escapeXml)) = some (front,
          content.flatMap escapeXml ++ (closeTag name ++ later.flatMap (Item.render escapeXml))) :=
  breakAt_items notMem_escapeXml (isTag_of_wanted name hname).1 hname (isTag_of_wanted name hname).2 items
    hclean

theorem parseKeys_render {items : List Item} (hclean : ∀ item ∈ items, item.Clean wantedNames) (fuel : ℕ)
    (hfuel : (leafTexts "Key".toList items).length ≤ fuel) :
    parseKeys fuel (items.flatMap (Item.render escapeXml)) =
      (leafTexts "Key".toList items).map misreadText := by
  induction fuel generalizing items with
  | zero =>
    rw [eq_nil_of_length_eq_zero (Nat.le_zero.mp hfuel)]
    rfl
  | succ fuel ih =>
    have hkey : "Key".toList ∈ wantedNames := by decide
    rcases breakAt_wanted hclean hkey with
      ⟨htexts, hnone⟩ | ⟨front, content, later, hlater, htexts, hsome⟩
    · rw [parseKeys, hnone, htexts]
      rfl
    · rw [htexts, length_cons, Nat.add_le_add_iff_right] at hfuel
      have hrest := ih hlater hfuel
      simp only [parseKeys, hsome, breakAt_close notMem_escapeXml, unescape_escape, hrest, htexts,
        map_cons]
      rfl

/-- No document holds more elements than characters. -/
theorem length_leafTexts_le (name : List Char) (items : List Item) :
    (leafTexts name items).length ≤ (items.flatMap (Item.render escapeXml)).length := by
  induction items with
  | nil => exact Nat.le_refl 0
  | cons item items ih =>
    rw [flatMap_cons, length_append]
    by_cases hleaf : ∃ content, item = .leaf name content
    · obtain ⟨content, rfl⟩ := hleaf
      rw [leafTexts_cons_leaf, length_cons]
      have hpos : 0 < ((Item.leaf name content).render escapeXml).length := by
        simp [Item.render, openTag]
      omega
    · rw [leafTexts_cons_other items fun content heq => hleaf ⟨content, heq⟩]
      exact ih.trans (Nat.le_add_left _ _)

include hclean in
/-- **The keys that are read of a document**: all of them, each as it is read. -/
theorem parseListing_render :
    parseListing (String.ofList (items.flatMap (Item.render escapeXml))) =
      (leafTexts "Key".toList items).map misreadText := by
  rw [parseListing, String.toList_ofList]
  exact parseKeys_render hclean _ (length_leafTexts_le _ items)

include hclean in
/-- The element that is read of a document: the first one. -/
theorem element_render {name : String} (hname : name.toList ∈ wantedNames) :
    element (String.ofList (items.flatMap (Item.render escapeXml))) name =
      (leafTexts name.toList items).head?.map misreadText := by
  rcases breakAt_wanted hclean hname with
    ⟨htexts, hnone⟩ | ⟨front, content, later, hlater, htexts, hsome⟩
  · simp [element, String.toList_ofList, hnone, htexts]
  · simp [element, String.toList_ofList, hsome, breakAt_close notMem_escapeXml, unescape_escape, htexts,
      misreadText]

end Documents

theorem misread_of_ne {c : Char} (h : c ≠ '\'') : misread c = [c] := if_neg h

/-- Which keys are read as they are. -/
theorem misreadText_eq_iff {key : String} : misreadText key.toList = key ↔ '\'' ∉ key.toList := by
  constructor
  · intro h hmem
    rw [← h, misreadText, String.toList_ofList, mem_flatMap] at hmem
    obtain ⟨c, -, hc⟩ := hmem
    by_cases heq : c = '\''
    · rw [misread, if_pos heq] at hc
      revert hc
      decide
    · rw [misread_of_ne heq] at hc
      exact heq (mem_singleton.mp hc).symm
  · intro h
    have hself : ∀ c ∈ key.toList, misread c = [c] := fun c hc => misread_of_ne fun heq => h (heq ▸ hc)
    rw [misreadText, flatMap_congr hself, flatMap_singleton', String.ofList_toList]

theorem notMem_misreadText (cs : List Char) : '\'' ∉ (misreadText cs).toList := by
  rw [misreadText, String.toList_ofList, mem_flatMap]
  rintro ⟨c, -, hc⟩
  by_cases heq : c = '\''
  · rw [misread, if_pos heq] at hc
    revert hc
    decide
  · rw [misread_of_ne heq] at hc
    exact heq (mem_singleton.mp hc).symm

/-! ### Queries -/

/-- The characters of an encoded value. -/
theorem mem_encodeQueryValue {c : Char} {value : String} (h : c ∈ (encodeQueryValue value).toList) :
    isUnreserved c = true ∨ c = '%' := by
  have hhex : ∀ n, isUnreserved (upperHex n) = true := by
    intro n
    have hall : "0123456789ABCDEF".toList.all isUnreserved = true := by decide
    rw [upperHex, getD_eq_getElem?_getD]
    cases hget : "0123456789ABCDEF".toList[n]? with
    | none => decide
    | some digit => exact all_eq_true.mp hall digit (mem_of_getElem? hget)
  rw [encodeQueryValue, String.toList_ofList, mem_flatMap] at h
  obtain ⟨byte, -, hc⟩ := h
  rw [encodeByte] at hc
  split_ifs at hc with hsafe
  · obtain rfl := mem_singleton.mp hc
    exact .inl hsafe
  · simp only [mem_cons, not_mem_nil, or_false] at hc
    rcases hc with rfl | rfl | rfl
    · exact .inr rfl
    · exact .inl (hhex _)
    · exact .inl (hhex _)

theorem notMem_encodeQueryValue {c : Char} (hc : isUnreserved c = false) (hpercent : c ≠ '%')
    (value : String) : c ∉ (encodeQueryValue value).toList := by
  intro h
  rcases mem_encodeQueryValue h with hsafe | heq
  · rw [hc] at hsafe
    cases hsafe
  · exact hpercent heq

/-- A parameter as it is written. -/
def encodeParam (param : String × String) : String × String :=
  (encodeQueryValue param.1, encodeQueryValue param.2)

def writeParam (param : String × String) : String := param.1 ++ "=" ++ param.2

/-- A query of encoded parameters. -/
def writeQuery (params : List (String × String)) : String := join "&" (params.map writeParam)

/-- The parameters of the query for a page. -/
def listParams (listed : String) (token : Option String) : List (String × String) :=
  [("list-type", "2"), ("max-keys", "1000"), ("prefix", listed)] ++
    token.toList.map fun token => ("continuation-token", token)

/-- The parameters as they are written: their names are as they are. -/
theorem map_encodeParam_listParams (listed : String) (token : Option String) :
    (listParams listed token).map encodeParam =
      [("list-type", "2"), ("max-keys", "1000"), ("prefix", encodeQueryValue listed)] ++
        token.toList.map fun token => ("continuation-token", encodeQueryValue token) := by
  have htype : encodeParam ("list-type", "2") = ("list-type", "2") := by decide
  have hmax : encodeParam ("max-keys", "1000") = ("max-keys", "1000") := by decide
  have hprefix : encodeQueryValue "prefix" = "prefix" := by decide
  have htoken : encodeQueryValue "continuation-token" = "continuation-token" := by decide
  have hlisted : encodeParam ("prefix", listed) = ("prefix", encodeQueryValue listed) := by
    rw [encodeParam, hprefix]
  have hcontinued : ∀ token, encodeParam ("continuation-token", token) =
      ("continuation-token", encodeQueryValue token) := by
    intro token
    rw [encodeParam, htoken]
  rw [listParams, map_append, map_cons, map_cons, map_cons, map_nil, htype, hmax,
    hlisted, map_map]
  exact congrArg _ (map_congr_left fun token _ => hcontinued token)

theorem listQuery_none (listed : String) :
    listQuery listed none = "list-type=2&max-keys=1000&prefix=" ++ encodeQueryValue listed := rfl

theorem listQuery_some (listed token : String) : listQuery listed (some token) =
    listQuery listed none ++ "&continuation-token=" ++ encodeQueryValue token := rfl

theorem listQuery_eq (listed : String) (token : Option String) :
    listQuery listed token = writeQuery ((listParams listed token).map encodeParam) := by
  have hfixed : "list-type=2&max-keys=1000&prefix=" = "list-type" ++ "=" ++ "2" ++ "&" ++
      ("max-keys" ++ "=" ++ "1000" ++ "&" ++ ("prefix" ++ "=")) := by decide
  have hcontinued : "&continuation-token=" = "&" ++ ("continuation-token" ++ "=") := by decide
  rw [map_encodeParam_listParams]
  cases token with
  | none =>
    rw [listQuery_none, hfixed]
    simp only [writeQuery, writeParam, join, Option.toList_none, map_cons, map_nil,
      append_nil, String.append_assoc]
  | some token =>
    rw [listQuery_some, listQuery_none, hfixed, hcontinued]
    simp only [writeQuery, writeParam, join, Option.toList_some, map_cons, map_nil,
      cons_append, nil_append, String.append_assoc]

/-- A query of parameters is read as them. -/
theorem params_writeQuery (service : Service) {params : List (String × String)} (hne : params ≠ []) :
    service.params (writeQuery (params.map encodeParam)) = params := by
  have hpart : ∀ part ∈ (params.map encodeParam).map writeParam, '&' ∉ part.toList := by
    intro part hpart
    rw [map_map, mem_map] at hpart
    obtain ⟨param, -, rfl⟩ := hpart
    have hname := notMem_encodeQueryValue (c := '&') rfl (by decide) param.1
    have hvalue := notMem_encodeQueryValue (c := '&') rfl (by decide) param.2
    simp [writeParam, encodeParam, hname, hvalue]
  have hread : ∀ param : String × String, splitOnce '=' (writeParam (encodeParam param)) =
      some (encodeQueryValue param.1, encodeQueryValue param.2) := by
    intro param
    have hname := notMem_encodeQueryValue (c := '=') rfl (by decide) param.1
    have htext : (writeParam (encodeParam param)).toList =
        (encodeQueryValue param.1).toList ++ '=' :: (encodeQueryValue param.2).toList := by
      simp [writeParam, encodeParam]
    rw [splitOnce, htext, splitOnceChars_append hname]
    simp
  rw [Service.params, writeQuery, splitOn_join rfl (by simpa using hne) hpart, map_map, map_map]
  refine (map_congr_left ?_).trans (map_id params)
  intro param _
  simp [hread, service.decode_encode]

theorem canonicalQuery_writeQuery (service : Service) {params : List (String × String)} (hne : params ≠ []) :
    service.canonicalQuery (writeQuery (params.map encodeParam)) =
      writeQuery ((params.map encodeParam).insertionSort PairOrder) := by
  rw [Service.canonicalQuery, params_writeQuery service hne]
  rfl

/-- Pairs of different names are in the order of the names. -/
theorem pairwise_of_names {pairs : List (String × String)} (h : (pairs.map Prod.fst).Pairwise (· < ·)) :
    pairs.Pairwise PairOrder :=
  (pairwise_map.mp h).imp .inl

theorem not_pairOrder_of_lt {a b : String × String} (h : b.1 < a.1) : ¬ PairOrder a b := by
  rintro (hlt | ⟨heq, -⟩)
  · exact lt_asymm h hlt
  · exact lt_irrefl _ (heq ▸ h)

/-- A pair that belongs in front of pairs in order is put there. -/
theorem insertionSort_append_front {pairs : List (String × String)} {last : String × String}
    (hsorted : pairs.Pairwise PairOrder) (hfront : ∀ pair ∈ pairs, last.1 < pair.1) :
    (pairs ++ [last]).insertionSort PairOrder = last :: pairs := by
  induction pairs with
  | nil => rfl
  | cons pair pairs ih =>
    obtain ⟨hpair, hpairs⟩ := forall_mem_cons.mp hfront
    have hrest := ih hsorted.of_cons hpairs
    have hinsert : pairs.orderedInsert PairOrder pair = pair :: pairs := by
      have hself := hsorted.insertionSort_eq
      rwa [insertionSort_cons, hsorted.of_cons.insertionSort_eq] at hself
    rw [cons_append, insertionSort_cons, hrest,
      orderedInsert_of_not_le _ _ (not_pairOrder_of_lt hpair), hinsert]

theorem listParams_some (listed token : String) : (listParams listed (some token)).map encodeParam =
    (listParams listed none).map encodeParam ++ [("continuation-token", encodeQueryValue token)] := by
  rw [map_encodeParam_listParams, map_encodeParam_listParams]
  rfl

/-- The parameters of a first page are in order. -/
theorem pairwise_listParams (listed : String) :
    ((listParams listed none).map encodeParam).Pairwise PairOrder := by
  have hnames : ["list-type", "max-keys", "prefix"].Pairwise (· < ·) := by decide
  rw [map_encodeParam_listParams]
  exact pairwise_of_names hnames

/-- **The query for the first page is canonical.** -/
theorem canonicalQuery_first (service : Service) (listed : String) :
    service.canonicalQuery (listQuery listed none) = listQuery listed none := by
  rw [listQuery_eq, canonicalQuery_writeQuery service (by simp [listParams]),
    (pairwise_listParams listed).insertionSort_eq]

/-- A query begins with the name of its first parameter. -/
theorem head?_writeQuery {name : String} {c : Char} (h : name.toList.head? = some c) (value : String)
    (rest : List (String × String)) : (writeQuery ((name, value) :: rest)).toList.head? = some c := by
  cases rest with
  | nil => simp [writeQuery, writeParam, join, h]
  | cons next rest => simp [writeQuery, writeParam, join, h]

/-- **The query for a later page is not**: its token belongs in front. -/
theorem canonicalQuery_next (service : Service) (listed token : String) :
    service.canonicalQuery (listQuery listed (some token)) ≠ listQuery listed (some token) := by
  have hfront : ∀ pair ∈ (listParams listed none).map encodeParam, "continuation-token" < pair.1 := by
    have hnames : ∀ name ∈ ["list-type", "max-keys", "prefix"], "continuation-token" < name := by
      decide
    rw [map_encodeParam_listParams]
    intro pair hpair
    exact hnames pair.1 (mem_map_of_mem hpair)
  rw [listQuery_eq, canonicalQuery_writeQuery service (by simp [listParams]), listParams_some,
    insertionSort_append_front (pairwise_listParams listed) hfront, map_encodeParam_listParams]
  intro h
  have htoken : "continuation-token".toList.head? = some 'c' := by decide
  have htype : "list-type".toList.head? = some 'l' := by decide
  have hhead := congrArg (fun query => query.toList.head?) h
  simp only [cons_append, head?_writeQuery htoken, head?_writeQuery htype] at hhead
  exact absurd hhead (by decide)

/-! ### Which requests are accepted -/

/-- The headers that a request for a page is signed with. -/
def listHeaders (storage : S3Storage) (timestamp : String) : List (String × String) :=
  [("host", storage.host), ("x-amz-content-sha256", emptyPayloadHash), ("x-amz-date", timestamp)]

/-- Headers with lowercase names in order are canonical. -/
theorem canonicalHeaders_of_names {headers : List (String × String)}
    (hlower : ∀ header ∈ headers, toAsciiLowercase header.1 = header.1)
    (hnames : (headers.map Prod.fst).Pairwise (· < ·)) : canonicalHeaders headers = headers := by
  have hmap : headers.map (fun header => (toAsciiLowercase header.1, header.2)) = headers := by
    refine (map_congr_left ?_).trans (map_id headers)
    intro header hmem
    rw [hlower header hmem]
    rfl
  rw [canonicalHeaders, hmap, (pairwise_of_names hnames).insertionSort_eq]

theorem canonicalHeaders_listHeaders (storage : S3Storage) (timestamp : String) :
    canonicalHeaders (listHeaders storage timestamp) = listHeaders storage timestamp := by
  have hlower : ∀ name ∈ ["host", "x-amz-content-sha256", "x-amz-date"], toAsciiLowercase name = name := by
    decide
  have hnames : ["host", "x-amz-content-sha256", "x-amz-date"].Pairwise (· < ·) := by decide
  exact canonicalHeaders_of_names
    (fun header hmem => hlower header.1 (mem_map_of_mem hmem)) hnames

theorem signedList_eq (storage : S3Storage) (query timestamp : String) :
    storage.signedList query timestamp =
      ⟨"GET", "/" ++ storage.bucket ++ "/", query, listHeaders storage timestamp,
        canonicalRequest "GET" ("/" ++ storage.bucket ++ "/") query (listHeaders storage timestamp)
          emptyPayloadHash⟩ := by
  have hheaders := canonicalHeaders_listHeaders storage timestamp
  rw [listHeaders] at hheaders
  simp only [S3Storage.signedList, sign, cons_append, nil_append, hheaders, listHeaders]

theorem canonicalRequest_inj {method uri query other payloadHash : String}
    {headers : List (String × String)} : canonicalRequest method uri query headers payloadHash =
      canonicalRequest method uri other headers payloadHash ↔ query = other := by
  refine ⟨fun h => ?_, fun h => h ▸ rfl⟩
  have hlists := congrArg String.toList h
  simp only [canonicalRequest, String.toList_append, append_cancel_right_eq,
    append_cancel_left_eq] at hlists
  exact String.toList_inj.mp hlists

theorem canonicalForm_signedList (service : Service) (storage : S3Storage) (query timestamp : String) :
    service.canonicalForm (storage.signedList query timestamp) =
      canonicalRequest "GET" ("/" ++ storage.bucket ++ "/") (service.canonicalQuery query)
        (listHeaders storage timestamp) emptyPayloadHash := by
  have hhash : Assoc.lookup "x-amz-content-sha256" (listHeaders storage timestamp) =
      some emptyPayloadHash := by
    simp [listHeaders, Assoc.lookup]
  rw [signedList_eq, Service.canonicalForm]
  simp only [canonicalHeaders_listHeaders, hhash, Option.getD_some]

/-- **A request for a page is accepted** when its query is canonical. -/
theorem accepted_iff (service : Service) (storage : S3Storage) (query timestamp : String) :
    (storage.signedList query timestamp).signedOver =
        service.canonicalForm (storage.signedList query timestamp) ↔
      service.canonicalQuery query = query := by
  rw [canonicalForm_signedList, signedList_eq]
  exact canonicalRequest_inj.trans eq_comm

/-- The page that a bucket has for a prefix: its first keys, and the token behind them. -/
def Service.firstPage (service : Service) (listed : String) : List String × Option String :=
  ((service.matching listed).take service.pageSize,
    if service.pageSize < (service.matching listed).length then some (service.token service.pageSize)
    else none)

/-- **The first page is answered.** -/
theorem answer_first (service : Service) (storage : S3Storage) (listed timestamp : String) :
    service.answer (storage.signedList (listQuery listed none) timestamp) =
      some (String.ofList ((service.document (service.firstPage listed).1
        (service.firstPage listed).2).flatMap (Item.render escapeXml))) := by
  have haccepted := (accepted_iff service storage (listQuery listed none) timestamp).mpr
    (canonicalQuery_first service listed)
  have hparams : service.params (storage.signedList (listQuery listed none) timestamp).query =
      [("list-type", "2"), ("max-keys", "1000"), ("prefix", listed)] := by
    rw [signedList_eq, listQuery_eq]
    exact params_writeQuery service (by simp [listParams])
  rw [Service.answer, if_pos haccepted]
  simp [hparams, Assoc.lookup, Service.firstPage]

/-- **A later page is refused.** -/
theorem answer_next (service : Service) (storage : S3Storage) (listed token timestamp : String) :
    service.answer (storage.signedList (listQuery listed (some token)) timestamp) = none := by
  have hrefused := (accepted_iff service storage (listQuery listed (some token)) timestamp).not.mpr
    (canonicalQuery_next service listed token)
  rw [Service.answer, if_neg hrefused]

/-! ### Listings -/

section Listing

variable (service : Service) (storage : S3Storage) (clock : ℕ → String) (listed : String)

theorem misreadText_ne_empty {token : String} (h : token ≠ "") : misreadText token.toList ≠ "" := by
  cases htoken : token.toList with
  | nil => exact absurd (String.toList_inj.mp htoken) h
  | cons c cs =>
    intro hempty
    have hnil := congrArg String.toList hempty
    rw [misreadText, String.toList_ofList, flatMap_cons] at hnil
    have hc : misread c ≠ [] := by
      rw [misread]
      split_ifs <;> simp
    exact hc (append_eq_nil_iff.mp hnil).1

/-- **What is read of a page**: its keys, and its token where there is one. -/
theorem read_document {keys : List String} {next : Option String} {items : List Item}
    (hdocument : ListDocument keys next items) (hnext : ∀ token, next = some token → token ≠ "") :
    parseListing (String.ofList (items.flatMap (Item.render escapeXml))) =
        keys.map (fun key => misreadText key.toList) ∧
      (if isTruncated (String.ofList (items.flatMap (Item.render escapeXml))) then
          parseContinuation (String.ofList (items.flatMap (Item.render escapeXml))) else none) =
        next.map fun token => misreadText token.toList := by
  refine ⟨?_, ?_⟩
  · rw [parseListing_render hdocument.clean, hdocument.keys, map_map]
    rfl
  · have htruncated : isTruncated (String.ofList (items.flatMap (Item.render escapeXml))) = next.isSome := by
      rw [isTruncated, element_render hdocument.clean (by decide), hdocument.truncated]
      cases next with
      | none => decide
      | some token => exact (by decide : decide (some (misreadText "true".toList) = some "true") = true)
    have hcontinuation : parseContinuation (String.ofList (items.flatMap (Item.render escapeXml))) =
        (next.map fun token => misreadText token.toList).filter fun token => token ≠ "" := by
      rw [parseContinuation, element_render hdocument.clean (by decide), hdocument.next, Option.map_map]
      rfl
    rw [htruncated, hcontinuation]
    cases next with
    | none => rfl
    | some token => simp [misreadText_ne_empty (hnext token rfl)]

/-- The keys of the first page, as they are read. -/
def readKeys : List String := (service.firstPage listed).1.map fun key => misreadText key.toList

/-- **One round of a listing**: it ends with the first page, or a second page is asked for. -/
theorem list_succ (fuel : ℕ) : list service storage clock listed (fuel + 1) =
    match (service.firstPage listed).2 with
    | none => some (.ok ((readKeys service listed).insertionSort (· ≤ ·)))
    | some token => listFrom service storage clock listed fuel (some (misreadText token.toList))
        (readKeys service listed) := by
  have hnext : ∀ token, (service.firstPage listed).2 = some token → token ≠ "" := by
    intro token htoken
    rw [Service.firstPage] at htoken
    split_ifs at htoken
    exact Option.some.inj htoken ▸ service.token_ne _
  obtain ⟨hkeys, htoken⟩ := read_document
    (service.document_spec (service.firstPage listed).1 (service.firstPage listed).2) hnext
  rw [list, listFrom, answer_first]
  simp only [hkeys, htoken, nil_append]
  cases (service.firstPage listed).2 <;> rfl

/-- A listing of one page. -/
theorem list_onePage (h : (service.matching listed).length ≤ service.pageSize) (fuel : ℕ) :
    list service storage clock listed (fuel + 1) = some (.ok
      (((service.matching listed).map fun key => misreadText key.toList).insertionSort (· ≤ ·))) := by
  have hlast : (service.firstPage listed).2 = none := if_neg (Nat.not_lt.mpr h)
  have hkeys : readKeys service listed =
      (service.matching listed).map fun key => misreadText key.toList := by
    rw [readKeys, Service.firstPage, take_of_length_le h]
  rw [list_succ, hlast, hkeys]

/-- **A listing of more pages fails** at the second one. -/
theorem list_morePages (h : service.pageSize < (service.matching listed).length) (fuel : ℕ) :
    list service storage clock listed (fuel + 2) =
      some (.error (.internal ("S3 LIST failed: " ++ service.refusal))) := by
  have hnext : (service.firstPage listed).2 = some (service.token service.pageSize) := if_pos h
  rw [list_succ, hnext]
  simp only [listFrom, answer_next]

theorem list_ne_ok (h : service.pageSize < (service.matching listed).length) (fuel : ℕ)
    (keys : List String) : list service storage clock listed fuel ≠ some (.ok keys) := by
  have hnext : (service.firstPage listed).2 = some (service.token service.pageSize) := if_pos h
  intro hfuel
  rcases fuel with _ | _ | fuel
  · cases hfuel
  · rw [list_succ, hnext] at hfuel
    cases hfuel
  · rw [list_morePages service storage clock listed h] at hfuel
    cases hfuel

theorem insertionSort_matching :
    (service.matching listed).insertionSort (· ≤ ·) = service.matching listed := by
  have hsorted : (service.matching listed).Pairwise (· < ·) := service.keys_sorted.filter _
  exact (hsorted.imp le_of_lt).insertionSort_eq

/-- **When a listing is exact**: the keys fit on one page, and none of them has an apostrophe. -/
theorem list_exact_iff :
    (∃ fuel, list service storage clock listed fuel = some (.ok (service.matching listed))) ↔
      (service.matching listed).length ≤ service.pageSize ∧
        ∀ key ∈ service.matching listed, '\'' ∉ key.toList := by
  constructor
  · rintro ⟨fuel, hfuel⟩
    have hpage : (service.matching listed).length ≤ service.pageSize := by
      by_contra hmore
      exact list_ne_ok service storage clock listed (Nat.not_le.mp hmore) fuel _ hfuel
    refine ⟨hpage, fun key hkey => ?_⟩
    obtain ⟨fuel, rfl⟩ : ∃ rest, fuel = rest + 1 := by
      cases fuel with
      | zero => cases hfuel
      | succ fuel => exact ⟨fuel, rfl⟩
    rw [list_onePage service storage clock listed hpage] at hfuel
    have hkeys := Except.ok.inj (Option.some.inj hfuel)
    rw [← hkeys, mem_insertionSort, mem_map] at hkey
    obtain ⟨other, -, rfl⟩ := hkey
    exact notMem_misreadText other.toList
  · rintro ⟨hpage, hkeys⟩
    have hread : (service.matching listed).map (fun key => misreadText key.toList) =
        service.matching listed :=
      (map_congr_left fun key hkey => misreadText_eq_iff.mpr (hkeys key hkey)).trans (map_id _)
    refine ⟨1, ?_⟩
    rw [list_onePage service storage clock listed hpage, hread, insertionSort_matching]

end Listing

/-! ### A bucket of two pages -/

/-- The bytes of a query value. -/
def decodeBytes : List Char → List UInt8
  | [] => []
  | c :: rest =>
    if c = '%' then
      match rest with
      | high :: low :: rest =>
        UInt8.ofNat ((hexDigit high).getD 0 * 16 + (hexDigit low).getD 0) :: decodeBytes rest
      | _ => []
    else UInt8.ofNat c.toNat :: decodeBytes rest

/-- A query value decoded. -/
def decodeQueryValue (value : String) : String :=
  (String.fromUTF8? ⟨⟨decodeBytes value.toList⟩⟩).getD ""

theorem decodeBytes_cons {c : Char} (h : c ≠ '%') (rest : List Char) :
    decodeBytes (c :: rest) = UInt8.ofNat c.toNat :: decodeBytes rest := by
  rcases rest with _ | ⟨high, _ | ⟨low, rest⟩⟩ <;> simp [decodeBytes, h]

theorem decodeBytes_encodeByte (byte : UInt8) (rest : List Char) :
    decodeBytes (encodeByte byte.toNat ++ rest) = byte :: decodeBytes rest := by
  have hdigit : ∀ n < 16, hexDigit (upperHex n) = some n := by decide
  have hbyte := byte.toNat_lt
  rw [encodeByte]
  split_ifs with hsafe
  · have hne : Char.ofNat byte.toNat ≠ '%' := by
      intro heq
      rw [heq] at hsafe
      revert hsafe
      decide
    have hchar : (Char.ofNat byte.toNat).toNat = byte.toNat := by
      have hvalid : byte.toNat.isValidChar := .inl (by omega)
      rw [Char.ofNat, dif_pos hvalid]
      rfl
    rw [singleton_append, decodeBytes_cons hne, hchar, UInt8.ofNat_toNat]
  · have hhigh := hdigit (byte.toNat / 16) (by omega)
    have hlow := hdigit (byte.toNat % 16) (by omega)
    simp [decodeBytes, hhigh, hlow, Nat.div_add_mod']

/-- **An encoded value decodes to itself.** -/
theorem decode_encodeQueryValue (value : String) : decodeQueryValue (encodeQueryValue value) = value := by
  have hbytes : ∀ bytes : List UInt8,
      decodeBytes (bytes.flatMap fun byte => encodeByte byte.toNat) = bytes := by
    intro bytes
    induction bytes with
    | nil => rfl
    | cons byte bytes ih => rw [flatMap_cons, decodeBytes_encodeByte, ih]
  have hvalue : String.fromUTF8? value.toUTF8 = some value := dif_pos value.isValidUTF8
  rw [decodeQueryValue, encodeQueryValue, String.toList_ofList, hbytes]
  exact congrArg (fun read => Option.getD read "") hvalue

/-- A document with nothing else in it. -/
def plainDocument (keys : List String) (next : Option String) : List Item :=
  [(if next.isSome then "true" else "false").toList].map (.leaf "IsTruncated".toList) ++
    ((next.toList.map String.toList).map (.leaf "NextContinuationToken".toList) ++
      (keys.map String.toList).map (.leaf "Key".toList))

theorem leafTexts_plainDocument (keys : List String) (next : Option String) (name : List Char) :
    leafTexts name (plainDocument keys next) =
      (if "IsTruncated".toList = name then [(if next.isSome then "true" else "false").toList] else []) ++
        ((if "NextContinuationToken".toList = name then next.toList.map String.toList else []) ++
          if "Key".toList = name then keys.map String.toList else []) := by
  rw [plainDocument, leafTexts_append, leafTexts_append, leafTexts_leaves, leafTexts_leaves,
    leafTexts_leaves]

theorem plainDocument_spec (keys : List String) (next : Option String) :
    ListDocument keys next (plainDocument keys next) where
  clean := by
    have hnames : ∀ name ∈ wantedNames, IsTag name := fun name hname => (isTag_of_wanted name hname).1
    intro item hitem
    simp only [plainDocument, mem_append, mem_map] at hitem
    rcases hitem with ⟨text, -, rfl⟩ | ⟨text, -, rfl⟩ | ⟨text, -, rfl⟩
    · exact hnames "IsTruncated".toList (by decide)
    · exact hnames "NextContinuationToken".toList (by decide)
    · exact hnames "Key".toList (by decide)
  keys := by
    rw [leafTexts_plainDocument, if_neg (by decide), if_neg (by decide), if_pos rfl]
    rfl
  truncated := by
    rw [leafTexts_plainDocument, if_pos rfl]
    rfl
  next := by
    rw [leafTexts_plainDocument, if_neg (by decide), if_pos rfl, if_neg (by decide)]
    cases next <;> rfl

/-- Two keys, on two pages. -/
def twoPages : Service where
  keys := ["a", "b"]
  keys_sorted := by decide
  pageSize := 1
  pageSize_pos := by decide
  pageSize_le := by decide
  decode := decodeQueryValue
  decode_encode := decode_encodeQueryValue
  token n := String.ofList (List.replicate (n + 1) 'x')
  token_ne n := by simp [← String.toList_inj]
  position token := token.toList.length - 1
  position_token n := by simp
  document := plainDocument
  document_spec := plainDocument_spec
  refusal := "403 Forbidden (SignatureDoesNotMatch)"

theorem twoPages_not_listed : ¬ ∀ (service : Service) (storage : S3Storage) (clock : ℕ → String)
    (listed : String), ∃ fuel,
      list service storage clock listed fuel = some (.ok (service.matching listed)) := by
  intro h
  obtain ⟨fuel, hfuel⟩ := h twoPages ⟨"s3.example.com", "media"⟩ (fun _ => "20260101T000000Z") ""
  exact list_ne_ok twoPages _ _ "" (by decide) fuel _ hfuel

end LazyPock.S3
