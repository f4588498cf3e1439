import LazyPock.Query.Pagination

/-!
# Cursors and the listing they continue

A full keyset page ends with the cursor of its last row (`crates/api/src/records.rs`), and the next
request hands that token back (`crates/db/src/query/pagination.rs`). Tables that were adopted,
imported or made from a query put no format on their ids, so the id behind the point is any text.

The token is trimmed before it is cut. What a row's time contributes are hexadecimal digits, which no
trimming touches; the id stands at the end and loses the whitespace it ends in.

## Main definitions

* `Cursor.IsHexI64`: the spellings of an `i64` in hexadecimal.
* `Cursor.IsToken`: the texts a cursor is read from.
* `Cursor.Survives`: the ids that come back from their token.

## Main results

* `Cursor.decode_eq_ok`: what `decode` accepts, and as which cursor.
* `Cursor.fromParams_encode`: the page behind the token of a row.
* `cursor_accepted_iff`: which rows can be continued from.
-/

namespace LazyPock.Cursor

open Text List

/-! ### Hexadecimal numbers -/

/-- The number a list of hexadecimal digit values stands for. -/
def hexNumber (values : List Nat) : Nat := values.foldl (fun n d => n * 16 + d) 0

/-- **A spelling of an `i64`.** An optional sign in front of hexadecimal digits, of either case, with
a value an `i64` has room for. -/
def IsHexI64 (cs : List Char) (value : Int) : Prop :=
  ∃ digits values, digits ≠ [] ∧ digits.mapM hexValue = some values ∧
    ((cs = digits ∨ cs = '+' :: digits) ∧ value = hexNumber values ∨
      cs = '-' :: digits ∧ value = -hexNumber values) ∧
    -2 ^ 63 ≤ value ∧ value < 2 ^ 63

theorem hexDigits_eq (acc : Nat) (cs : List Char) :
    hexDigits acc cs = (cs.mapM hexValue).map (List.foldl (fun n d => n * 16 + d) acc) := by
  induction cs generalizing acc with
  | nil => rfl
  | cons c cs ih =>
    rw [hexDigits, mapM_cons]
    cases hexValue c with
    | none => rfl
    | some d =>
      rw [Option.bind_some, ih]
      cases cs.mapM hexValue <;> rfl

/-- The digits behind a sign, read with that sign. -/
theorem parseHexI64_cases (cs : List Char) :
    (∃ rest, cs = '-' :: rest) ∨ (∃ rest, cs = '+' :: rest) ∨
      (∀ rest, cs ≠ '-' :: rest) ∧ ∀ rest, cs ≠ '+' :: rest := by
  by_cases hminus : ∃ rest, cs = '-' :: rest
  · exact .inl hminus
  · by_cases hplus : ∃ rest, cs = '+' :: rest
    · exact .inr (.inl hplus)
    · exact .inr (.inr ⟨not_exists.mp hminus, not_exists.mp hplus⟩)

/-- A run of digits, read behind the sign `negative`. -/
def signedHex (negative : Bool) (digits : List Char) : Option Int :=
  if digits = [] then none
  else (hexDigits 0 digits).bind fun n =>
    let value : Int := if negative then -n else n
    if -2 ^ 63 ≤ value ∧ value < 2 ^ 63 then some value else none

theorem parseHexI64_minus (rest : List Char) :
    parseHexI64 ('-' :: rest) = signedHex true rest := rfl

theorem parseHexI64_plus (rest : List Char) :
    parseHexI64 ('+' :: rest) = signedHex false rest := rfl

theorem parseHexI64_unsigned {cs : List Char} (hminus : ∀ rest, cs ≠ '-' :: rest)
    (hplus : ∀ rest, cs ≠ '+' :: rest) : parseHexI64 cs = signedHex false cs := by
  unfold parseHexI64
  split
  · next negative digits heq =>
    split at heq
    · next rest => exact absurd rfl (hminus rest)
    · next rest => exact absurd rfl (hplus rest)
    · obtain ⟨rfl, rfl⟩ := Prod.mk.inj heq
      rfl

theorem signedHex_eq_some {negative : Bool} {digits : List Char} {value : Int} :
    signedHex negative digits = some value ↔
      ∃ values, digits ≠ [] ∧ digits.mapM hexValue = some values ∧
        value = (if negative then -hexNumber values else hexNumber values : Int) ∧
        -2 ^ 63 ≤ value ∧ value < 2 ^ 63 := by
  rw [signedHex, hexDigits_eq]
  by_cases hnil : digits = []
  · simp [hnil]
  · rw [if_neg hnil]
    cases digits.mapM hexValue with
    | none => simp
    | some values =>
      simp only [Option.map_some, Option.bind_some, Option.ite_none_right_eq_some,
        Option.some.injEq, ne_eq, hnil, not_false_eq_true, true_and, exists_eq_left']
      constructor
      · rintro ⟨hrange, rfl⟩
        exact ⟨rfl, hrange⟩
      · rintro ⟨rfl, hrange⟩
        exact ⟨hrange, rfl⟩

/-- No sign is a digit. -/
theorem head_of_mapM {c : Char} {cs : List Char} {values : List Nat}
    (h : (c :: cs).mapM hexValue = some values) : hexValue c ≠ none := by
  rw [mapM_cons] at h
  intro hnone
  rw [hnone] at h
  exact absurd h (by simp)

/-- **`i64::from_str_radix` reads the spellings of an `i64`.** -/
theorem parseHexI64_eq_some {cs : List Char} {value : Int} :
    parseHexI64 cs = some value ↔ IsHexI64 cs value := by
  have hsign : ∀ {c rest digits values}, digits.mapM hexValue = some values →
      c :: rest = digits → hexValue c ≠ none := by
    rintro c rest _ values hvalues rfl
    exact head_of_mapM hvalues
  rcases parseHexI64_cases cs with ⟨rest, rfl⟩ | ⟨rest, rfl⟩ | ⟨hminus, hplus⟩
  · rw [parseHexI64_minus, signedHex_eq_some]
    constructor
    · rintro ⟨values, hne, hvalues, hvalue, hrange⟩
      exact ⟨rest, values, hne, hvalues, .inr ⟨rfl, by simpa using hvalue⟩, hrange⟩
    · rintro ⟨digits, values, hne, hvalues, ⟨hcs | hcs, -⟩ | ⟨hcs, hvalue⟩, hrange⟩
      · exact absurd (by decide) (hsign hvalues hcs)
      · exact absurd (List.cons.inj hcs).1 (by decide)
      · obtain rfl := (List.cons.inj hcs).2
        exact ⟨values, hne, hvalues, by simpa using hvalue, hrange⟩
  · rw [parseHexI64_plus, signedHex_eq_some]
    constructor
    · rintro ⟨values, hne, hvalues, hvalue, hrange⟩
      exact ⟨rest, values, hne, hvalues, .inl ⟨.inr rfl, by simpa using hvalue⟩, hrange⟩
    · rintro ⟨digits, values, hne, hvalues, ⟨hcs | hcs, hvalue⟩ | ⟨hcs, -⟩, hrange⟩
      · exact absurd (by decide) (hsign hvalues hcs)
      · obtain rfl := (List.cons.inj hcs).2
        exact ⟨values, hne, hvalues, by simpa using hvalue, hrange⟩
      · exact absurd (List.cons.inj hcs).1 (by decide)
  · rw [parseHexI64_unsigned hminus hplus, signedHex_eq_some]
    constructor
    · rintro ⟨values, hne, hvalues, hvalue, hrange⟩
      exact ⟨cs, values, hne, hvalues, .inl ⟨.inl rfl, by simpa using hvalue⟩, hrange⟩
    · rintro ⟨digits, values, hne, hvalues, ⟨rfl | hcs, hvalue⟩ | ⟨hcs, -⟩, hrange⟩
      · exact ⟨values, hne, hvalues, by simpa using hvalue, hrange⟩
      · exact absurd hcs (hplus digits)
      · exact absurd hcs (hminus digits)

/-! ### What is read as a cursor -/

/-- What `decode` asks of an id. -/
def FitsId (id : String) : Prop :=
  1 ≤ byteLen id ∧ byteLen id ≤ maxCursorIdLen ∧ ∀ c ∈ id.toList, isControl c = false

/-- **A token of a cursor.** A spelling of its time, the first point of the text, and its id. -/
def IsToken (raw : String) (cursor : Cursor) : Prop :=
  ∃ micros, raw.toList = micros ++ '.' :: cursor.id.toList ∧ '.' ∉ micros ∧
    IsHexI64 micros cursor.createdMicros ∧ FitsId cursor.id

theorem byteLen_eq_zero {s : String} : byteLen s = 0 ↔ s = "" := by
  rw [byteLen, ← String.toList_inj, String.toList_empty]
  cases s.toList with
  | nil => simp
  | cons c cs =>
    have hpos := Char.utf8Size_pos c
    simp only [map_cons, sum_cons, reduceCtorEq, iff_false]
    omega

theorem fitsId_iff {id : String} :
    FitsId id ↔ ¬ (id = "" ∨ maxCursorIdLen < byteLen id ∨ id.toList.any isControl = true) := by
  rw [FitsId, Nat.one_le_iff_ne_zero, Ne, byteLen_eq_zero, not_or, not_or, Nat.not_lt,
    Bool.not_eq_true, any_eq_false]
  simp only [Bool.not_eq_true]

/-- **What `decode` accepts.** It reads a cursor from the tokens of that cursor, once they are
trimmed, and from nothing else. -/
theorem decode_eq_ok {raw : String} {cursor : Cursor} :
    decode raw = .ok cursor ↔ IsToken (trim raw) cursor := by
  constructor
  · intro h
    obtain ⟨_, _, h⟩ := bind_eq_ok.mp h
    obtain ⟨⟨micros, id⟩, hsplit, h⟩ := bind_eq_ok.mp h
    obtain ⟨createdMicros, hmicros, h⟩ := bind_eq_ok.mp h
    obtain ⟨_, hid, h⟩ := bind_eq_ok.mp h
    obtain rfl := Except.ok.inj h
    obtain ⟨hlist, hdot⟩ := splitOnce_eq_some.mp (okOr_eq_ok.mp hsplit)
    exact ⟨micros.toList, hlist, hdot, parseHexI64_eq_some.mp (okOr_eq_ok.mp hmicros),
      fitsId_iff.mpr (failIf_eq_ok.mp hid)⟩
  · rintro ⟨micros, hlist, hdot, hmicros, hid⟩
    have hne : ¬ trim raw = "" := by
      intro hempty
      rw [hempty] at hlist
      exact absurd hlist (by simp)
    have hsplit : splitOnce '.' (trim raw) = some (String.ofList micros, cursor.id) :=
      splitOnce_eq_some.mpr ⟨by simpa using hlist, by simpa using hdot⟩
    simp only [decode, failIf, if_neg hne, hsplit, okOr_some, String.toList_ofList,
      parseHexI64_eq_some.mpr hmicros, if_neg (fitsId_iff.mp hid), bind, Except.bind]

/-! ### The token of a row -/

/-- `str::trim_end` -/
def trimEnd (s : String) : String :=
  String.ofList ((s.toList.reverse.dropWhile isWhitespace).reverse)

theorem trimEnd_eq_self {s : String} :
    trimEnd s = s ↔ ∀ c, s.toList.getLast? = some c → isWhitespace c = false := by
  rw [← String.toList_inj, trimEnd, String.toList_ofList, ← List.head?_reverse,
    reverse_eq_iff]
  cases s.toList.reverse with
  | nil => simp
  | cons c cs =>
    simp only [List.head?_cons, Option.some.injEq, forall_eq', dropWhile_cons]
    cases isWhitespace c with
    | false => simp
    | true =>
      refine ⟨fun h => ?_, fun h => absurd h (by decide)⟩
      have hlength := congrArg List.length h
      have hle := (dropWhile_suffix isWhitespace (l := cs)).length_le
      simp only [if_true, length_cons] at hlength
      omega

/-- A token loses what its id loses at the end. -/
theorem toList_trim_encode {n : Nat} (hlt : n < 2 ^ 64) (id : String) :
    (trim (encode ⟨toI64 n, id⟩)).toList =
      Nat.toDigits 16 n ++ '.' :: (trimEnd id).toList := by
  obtain ⟨c, cs, hdigits⟩ := exists_cons_of_ne_nil (Nat.toDigits_ne_nil (n := n) (b := 16))
  have hdigit : isWhitespace c = false := isWhitespace_of_isAsciiAlphanumeric
    (isAsciiAlphanumeric_of_mem_toDigits (by rw [hdigits]; exact mem_cons_self))
  have hstart : (Nat.toDigits 16 n ++ '.' :: id.toList).dropWhile isWhitespace =
      Nat.toDigits 16 n ++ '.' :: id.toList := by
    rw [hdigits, cons_append, dropWhile_cons_of_neg (by simp [hdigit])]
  rw [trim, toList_encode hlt, hstart, trimEnd, String.toList_ofList, String.toList_ofList]
  -- the point ends the trimming where the id has nothing left
  have hpoint : isWhitespace '.' = false := by decide
  simp only [reverse_append, reverse_cons, append_assoc]
  rw [dropWhile_append]
  split
  · next hempty =>
    rw [List.isEmpty_iff] at hempty
    simp [hempty, hpoint]
  · simp

theorem isHexI64_toDigits {n : Nat} (hn : n < 2 ^ 63) : IsHexI64 (Nat.toDigits 16 n) n := by
  rw [← parseHexI64_eq_some, parseHexI64_toDigits, if_pos hn]

/-- **The token of a row.** It is read back when its id, with the end trimmed, is one a cursor
carries, and then as the cursor of the trimmed id. -/
theorem decode_encode_eq_ok {n : Nat} (hn : n < 2 ^ 63) {id : String} {cursor : Cursor} :
    decode (encode ⟨toI64 n, id⟩) = .ok cursor ↔
      FitsId (trimEnd id) ∧ cursor = ⟨n, trimEnd id⟩ := by
  have hlist := toList_trim_encode (n := n) (by omega) id
  have hdot : '.' ∉ Nat.toDigits 16 n := fun hmem =>
    absurd (isAsciiAlphanumeric_of_mem_toDigits hmem) (by decide)
  rw [decode_eq_ok, IsToken, hlist]
  constructor
  · rintro ⟨micros, hcut, hmicros, hhex, hfits⟩
    -- both sides are cut at their first point
    have hsplit := congrArg (splitOnceChars '.') hcut
    rw [splitOnceChars_append hdot, splitOnceChars_append hmicros] at hsplit
    obtain ⟨hdigits, hid⟩ := Prod.mk.inj (Option.some.inj hsplit)
    rw [String.toList_inj] at hid
    rw [← hdigits, ← parseHexI64_eq_some, parseHexI64_toDigits, if_pos hn] at hhex
    obtain ⟨createdMicros, id'⟩ := cursor
    obtain rfl := hid
    obtain rfl := Option.some.inj hhex
    exact ⟨hfits, rfl⟩
  · rintro ⟨hfits, rfl⟩
    exact ⟨_, rfl, hdot, isHexI64_toDigits hn, hfits⟩

/-- An id that comes back from its token: it fits, and it does not end in whitespace. -/
def Survives (id : String) : Prop :=
  FitsId id ∧ ∀ c, id.toList.getLast? = some c → isWhitespace c = false

theorem fitsId_trimEnd_and_eq {id : String} :
    (FitsId (trimEnd id) ∧ id = trimEnd id) ↔ Survives id := by
  rw [Survives, ← trimEnd_eq_self]
  constructor
  · rintro ⟨hfits, heq⟩
    rw [← heq] at hfits
    exact ⟨hfits, heq.symm⟩
  · rintro ⟨hfits, heq⟩
    rw [heq]
    exact ⟨hfits, rfl⟩

/-- **The page behind a token.** -/
theorem fromParams_some {perPage : Option Nat} {skipTotal : Bool} {request : PageRequest}
    (hrequest : PageRequest.new none perPage skipTotal = .ok request) {raw : String}
    {cursor : Cursor} {limit : Nat} :
    Page.fromParams none perPage skipTotal (some raw) = .ok (.keyset (some cursor) limit) ↔
      trim raw ≠ "" ∧ decode raw = .ok cursor ∧ limit = request.perPage := by
  simp only [Page.fromParams, hrequest, failIf, Option.isSome_none, Bool.false_eq_true, if_false,
    bind, Except.bind]
  by_cases hempty : trim raw = ""
  · simp [hempty]
  · simp only [ne_eq, hempty, not_false_eq_true, true_and]
    cases decode raw with
    | error e => simp
    | ok c => simp [eq_comm]

/-- **Continuing from a row.** -/
theorem fromParams_encode {perPage : Option Nat} {skipTotal : Bool} {request : PageRequest}
    (hrequest : PageRequest.new none perPage skipTotal = .ok request) {n : Nat} (hn : n < 2 ^ 63)
    (id : String) :
    Page.fromParams none perPage skipTotal (some (encode ⟨toI64 n, id⟩)) =
        .ok (.keyset (some ⟨n, id⟩) request.perPage) ↔ Survives id := by
  have hne : trim (encode ⟨toI64 n, id⟩) ≠ "" := by
    intro hempty
    have hlist := toList_trim_encode (n := n) (by omega) id
    rw [hempty] at hlist
    exact absurd hlist (by simp)
  rw [fromParams_some hrequest, decode_encode_eq_ok hn, Cursor.mk.injEq, ← fitsId_trimEnd_and_eq]
  simp [hne]

end LazyPock.Cursor

namespace LazyPock

open Text

/-- **Which rows can be continued from.** What is read as a cursor is a hexadecimal `i64`, a point
and an id of 1 to 64 bytes without control characters, and nothing else is. The cursor of a row is
read back from its own token exactly when the row's id is such an id and does not end in
whitespace. -/
theorem cursor_accepted_iff (n : Nat) (id : String) (hn : n < 2 ^ 63) :
    (∀ raw cursor, Cursor.decode raw = .ok cursor ↔ Cursor.IsToken (trim raw) cursor) ∧
      ((∀ perPage skipTotal request, PageRequest.new none perPage skipTotal = .ok request →
          (Cursor.fromTime n id).bind (fun cursor =>
            Page.fromParams none perPage skipTotal (some cursor.encode)) =
            .ok (.keyset (some ⟨n, id⟩) request.perPage)) ↔
        Cursor.Survives id) := by
  refine ⟨fun raw cursor => Cursor.decode_eq_ok, ?_⟩
  have htime : Cursor.fromTime n id = .ok ⟨toI64 n, id⟩ :=
    if_neg (not_lt.mpr (Int.natCast_nonneg n))
  simp only [htime, Except.bind]
  constructor
  · intro h
    have hrequest := PageRequest.new_none_some (by decide : 1 ≤ 1) (by decide) false
    exact (Cursor.fromParams_encode hrequest hn id).mp (h _ _ _ hrequest)
  · intro hid perPage skipTotal request hrequest
    exact (Cursor.fromParams_encode hrequest hn id).mpr hid

theorem cursor_accepted_iff_short :
    (∀ perPage skipTotal request, PageRequest.new none perPage skipTotal = .ok request →
      (Cursor.fromTime (0 : Nat) "a").bind (fun cursor =>
        Page.fromParams none perPage skipTotal (some cursor.encode)) =
        .ok (.keyset (some ⟨(0 : Nat), "a"⟩) request.perPage)) ↔ Cursor.Survives "a" :=
  (cursor_accepted_iff 0 "a" (by decide)).2

/-- The row `"a "` at the epoch: the next page starts behind another row, and not behind this
one. -/
theorem cursor_trailing_space :
    (Cursor.fromTime (0 : Nat) "a ").bind (fun cursor =>
        Page.fromParams none none false (some cursor.encode)) =
        .ok (.keyset (some ⟨0, "a"⟩) 30) ∧
      (Cursor.fromTime (0 : Nat) "a ").bind (fun cursor =>
        Page.fromParams none none false (some cursor.encode)) ≠
        .ok (.keyset (some ⟨0, "a "⟩) 30) := by decide

end LazyPock
