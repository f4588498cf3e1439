import LazyPock.Records.Validation

/-!
# Array literals

A value of a multiple select or relation field is bound as a `text[]` literal (`pg_text_array` of
`crates/db/src/validation.rs`). The grammar that reads it is that of the database: one-dimensional, with
white space around elements, elements that are quoted or bare, and a backslash before any character. A bare
`NULL` in any case is no element.

## Main definitions

* `Validation.readQuoted`, `Validation.readBare`: one element.
* `Validation.parseArray`: the literal.

## Main results

* `Validation.parseArray_pgTextArray`: what is written is read back.
* `Validation.pgTextArray_faithful`.
-/

namespace LazyPock.Validation

open Text

/-! ### The grammar -/

/-- `array_isspace` -/
def isArraySpace (c : Char) : Bool := c ∈ [' ', '\t', '\n', '\r', '\x0b', '\x0c']

/-- The rest of a quoted element and what stands behind it. -/
@[grind =]
def readQuoted : List Char → Option (List Char × List Char)
  | [] => none
  | ['\\'] => none
  | '"' :: rest => some ([], rest)
  | '\\' :: c :: rest => (readQuoted rest).map fun read => (c :: read.1, read.2)
  | c :: rest => (readQuoted rest).map fun read => (c :: read.1, read.2)

/-- A bare element and what stands behind it: its characters, and whether a backslash stood before each. -/
def readBare : List Char → Option (List (Char × Bool) × List Char)
  | [] => none
  | ['\\'] => none
  | '\\' :: c :: rest => (readBare rest).map fun read => ((c, true) :: read.1, read.2)
  | c :: rest =>
    if c = ',' ∨ c = '\x7d' then some ([], c :: rest)
    else if c = '"' ∨ c = '\x7b' then none
    else (readBare rest).map fun read => ((c, false) :: read.1, read.2)

/-- A bare element without the white space behind it: it may not be empty, and `NULL` is no element. -/
def bareElement (read : List (Char × Bool)) : Option (Option String) :=
  let kept := read.rdropWhile fun c => !c.2 && isArraySpace c.1
  let text := String.ofList (kept.map Prod.fst)
  if kept = [] then none
  else if toAsciiLowercase text = "null" ∧ kept.all (fun c => !c.2) then some none
  else some (some text)

/-- An element and what stands behind it. -/
def readElement (cs : List Char) : Option (Option String × List Char) :=
  match cs.dropWhile isArraySpace with
  | '"' :: rest => (readQuoted rest).map fun read => (some (String.ofList read.1), read.2)
  | rest => (readBare rest).bind fun read => (bareElement read.1).map fun element => (element, read.2)

/-- The elements up to the closing brace, of which there are at most `fuel`. -/
@[grind =]
def readElements : (fuel : ℕ) → List Char → Option (List (Option String))
  | 0, _ => none
  | fuel + 1, cs => do
    let (element, rest) ← readElement cs
    match rest.dropWhile isArraySpace with
    | ',' :: rest => (readElements fuel rest).map (element :: ·)
    | '\x7d' :: rest => if rest.all isArraySpace then some [element] else none
    | _ => none

/-- A one-dimensional array literal; `none` among the elements is NULL. -/
def parseArray (s : String) : Option (List (Option String)) :=
  match s.toList.dropWhile isArraySpace with
  | '\x7b' :: rest =>
    match rest.dropWhile isArraySpace with
    | '\x7d' :: rest => if rest.all isArraySpace then some [] else none
    | rest => readElements rest.length rest
  | _ => none

example : parseArray "\x7ba, \"b,\\\"\" ,null,\"null\"\x7d" =
    some [some "a", some "b,\"", none, some "null"] := by decide

/-! ### What is written -/

/-- A character as it is written between quotes. -/
def escapeElement (c : Char) : List Char := if c = '\\' ∨ c = '"' then ['\\', c] else [c]

/-- An element as it is written. -/
def quoteElement (value : String) : List Char := '"' :: (value.toList.flatMap escapeElement ++ ['"'])

theorem toList_pgTextArray_cons (value : String) (rest : List String) :
    (pgTextArray (value :: rest)).toList =
      '\x7b' :: (quoteElement value ++ ((rest.flatMap fun next => ',' :: quoteElement next) ++ ['\x7d'])) := by
  let quoted (value : String) : String :=
    "\"" ++ String.ofList (value.toList.flatMap escapeElement) ++ "\""
  have hquoted (value : String) : (quoted value).toList = quoteElement value := by
    simp [quoted, quoteElement]
  have hjoin : (join "," ((value :: rest).map quoted)).toList =
      quoteElement value ++ rest.flatMap fun next => ',' :: quoteElement next := by
    induction rest generalizing value with
    | nil => simp [join, hquoted]
    | cons next rest ih =>
      rw [List.map_cons, List.map_cons, toList_join_cons_cons, ← List.map_cons, ih, hquoted]
      simp
  change ("\x7b" ++ join "," ((value :: rest).map quoted) ++ "\x7d").toList = _
  rw [String.toList_append, String.toList_append, hjoin]
  simp

theorem readQuoted_cons {c : Char} (hbackslash : c ≠ '\\') (hquote : c ≠ '"') (rest : List Char) :
    readQuoted (c :: rest) = (readQuoted rest).map fun read => (c :: read.1, read.2) := by
  rw [readQuoted]
  · exact fun h _ => hbackslash h
  · exact hquote
  · exact fun _ _ h _ => hbackslash h

/-- A quoted element is read back. -/
theorem readQuoted_escape (cs rest : List Char) :
    readQuoted (cs.flatMap escapeElement ++ '"' :: rest) = some (cs, rest) := by
  induction cs with
  | nil => simp [readQuoted]
  | cons c cs ih =>
    rw [List.flatMap_cons, List.append_assoc]
    by_cases hspecial : c = '\\' ∨ c = '"'
    · rw [escapeElement, if_pos hspecial]
      simp [readQuoted, ih]
    · obtain ⟨hbackslash, hquote⟩ := not_or.mp hspecial
      rw [escapeElement, if_neg hspecial, List.singleton_append, readQuoted_cons hbackslash hquote, ih]
      rfl

theorem readElement_quote (value : String) (rest : List Char) :
    readElement (quoteElement value ++ rest) = some (some value, rest) := by
  have hread := readQuoted_escape value.toList rest
  have hskip : (quoteElement value ++ rest).dropWhile isArraySpace =
      '"' :: (value.toList.flatMap escapeElement ++ '"' :: rest) := by
    simp [quoteElement, isArraySpace]
  rw [readElement, hskip]
  simp [hread]

/-- Elements that are written are read, one after the other. -/
theorem readElements_write (value : String) (rest : List String) {fuel : ℕ} (hfuel : rest.length < fuel) :
    readElements fuel (quoteElement value ++ ((rest.flatMap fun next => ',' :: quoteElement next) ++ ['\x7d'])) =
      some ((value :: rest).map some) := by
  induction rest generalizing value fuel with
  | nil =>
    obtain ⟨fuel, rfl⟩ := Nat.exists_eq_add_one_of_ne_zero (Nat.ne_zero_of_lt hfuel)
    rw [readElements, readElement_quote]
    rfl
  | cons next rest ih =>
    obtain ⟨fuel, rfl⟩ := Nat.exists_eq_add_one_of_ne_zero (Nat.ne_zero_of_lt hfuel)
    have hrest := @ih next fuel (by simpa using hfuel)
    rw [readElements, readElement_quote, List.flatMap_cons]
    simp [isArraySpace, hrest]

/-- **What is written is read back**, no element of it as NULL. -/
theorem parseArray_pgTextArray (values : List String) :
    parseArray (pgTextArray values) = some (values.map some) := by
  cases values with
  | nil => decide
  | cons value rest =>
    have hbrace : isArraySpace '\x7b' = false := by decide
    have hquote : isArraySpace '"' = false := by decide
    have hfuel : rest.length <
        (quoteElement value ++ ((rest.flatMap fun next => ',' :: quoteElement next) ++ ['\x7d'])).length := by
      have hrest : rest.length ≤ (rest.flatMap fun next => ',' :: quoteElement next).length := by
        induction rest with
        | nil => exact Nat.le_refl 0
        | cons next rest ih =>
          rw [List.flatMap_cons, List.length_append, List.length_cons, List.length_cons]
          omega
      rw [List.length_append, List.length_append, quoteElement, List.length_cons]
      omega
    have hread := readElements_write value rest hfuel
    rw [parseArray, toList_pgTextArray_cons, List.dropWhile_cons_of_neg (by simp [hbrace])]
    simp only [quoteElement, List.cons_append] at hread ⊢
    rw [List.dropWhile_cons_of_neg (by simp [hquote])]
    exact hread

/-- A list of texts is bound as its literal. -/
theorem encodeValue_strings {field : Field} (htype : field.fieldType = .select ∨ field.fieldType = .relation)
    (hmultiple : field.isMultiple = true) (items : List String) :
    encodeValue field (.array (items.map Json.string)) = .ok (some (pgTextArray items)) := by
  have hitems : requireStrList field (.array (items.map Json.string)) = .ok items := by
    refine bind_eq_ok.mpr ⟨items.map Json.string, rfl, ?_⟩
    induction items with
    | nil => rfl
    | cons first items ih =>
      rw [List.map_cons, List.mapM_cons, ih]
      rfl
  rw [encodeValue, if_neg (by simp [Json.isNull]), if_neg (by simp)]
  rcases htype with htype | htype <;>
  · simp only [htype, hmultiple, if_true, hitems]
    rfl

/-- **The encoding of a list of texts is faithful**: the literal is read as the list, different lists have
different literals, and a multiple select or relation value is stored element for element. -/
theorem pgTextArray_faithful :
    (∀ values, parseArray (pgTextArray values) = some (values.map some)) ∧
    Function.Injective pgTextArray ∧
    ∀ field : Field, (field.fieldType = .select ∨ field.fieldType = .relation) → field.isMultiple = true →
      ∀ items : List String, ∃ literal,
        encodeValue field (.array (items.map Json.string)) = .ok (some literal) ∧
          parseArray literal = some (items.map some) := by
  refine ⟨parseArray_pgTextArray, fun a b h => ?_, fun field htype hmultiple items => ?_⟩
  · have hread := parseArray_pgTextArray a
    rw [h, parseArray_pgTextArray b] at hread
    exact (List.map_injective_iff.mpr (Option.some_injective _) (Option.some.inj hread)).symm
  · exact ⟨_, encodeValue_strings htype hmultiple items, parseArray_pgTextArray items⟩

/-- A field of several values. -/
def tags : Field :=
  ⟨"tags", "posts", "tags", .select, false, false, .object [("maxSelect", .number (.posInt 3))], 0⟩

theorem tags_stored : tags.isMultiple = true ∧ ∃ literal,
    encodeValue tags (.array (["NULL", "", "\"\\,\x7d"].map Json.string)) = .ok (some literal) ∧
      parseArray literal = some [some "NULL", some "", some "\"\\,\x7d"] :=
  ⟨by decide, pgTextArray_faithful.2.2 tags (.inl rfl) (by decide) ["NULL", "", "\"\\,\x7d"]⟩

end LazyPock.Validation
