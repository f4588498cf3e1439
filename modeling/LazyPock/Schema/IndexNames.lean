import LazyPock.Query.Columns
import LazyPock.Schema.Database
import LazyPock.Schema.Indexes

/-!
# The names of declared indexes

What `parse_all` (`crates/db/src/indexes.rs`) resolves a list of declarations to. Each resolved name fits
an identifier and none is used twice. A name that is taken gets the hash of its declaration, and the
name with the hash is compared with the other declarations, but not with the names the collection
reserves for its own indexes. Where it is one of them, `create index if not exists` finds that index and
the declaration is not applied.

The hash is a parameter: any function to eight hexadecimal digits.

## Main definitions

* `Indexes.declarations`: the declarations of a list, under their own or generated names.
* `Indexes.Taken`: the names that are taken when a declaration is resolved.
* `Indexes.Collides`: a declaration whose name with the hash is reserved.
* `Indexes.Usable`: names an index can be created under.

## Main results

* `Indexes.reserved_of_parseAllFrom`: when a resolved name is reserved.
* `Indexes.indexes_of_createAll`: usable names make their indexes.
* `indexes_usable_iff`.
-/

namespace LazyPock.Indexes

open Text Ddl List

/-! ### Names of one-byte characters -/

/-- Every character takes one byte. -/
def OneByte (s : String) : Prop := ∀ c ∈ s.toList, c.utf8Size = 1

instance decidableOneByte (s : String) : Decidable (OneByte s) :=
  decidable_of_iff ((s.toList.all fun c => c.utf8Size = 1) = true) (by simp [OneByte])

theorem OneByte.byteLen_eq {s : String} (h : OneByte s) : byteLen s = s.toList.length := by
  rw [byteLen, map_congr_left h]
  simp

theorem OneByte.append {s t : String} (hs : OneByte s) (ht : OneByte t) : OneByte (s ++ t) := by
  intro c hc
  rw [String.toList_append, mem_append] at hc
  exact hc.elim (hs c) (ht c)

theorem OneByte.cut {s : String} (h : OneByte s) (n : Nat) : OneByte (cut s n) := by
  intro c hc
  rw [Ddl.cut, String.toList_ofList] at hc
  exact h c (mem_of_mem_take hc)

theorem OneByte.join {sep : String} (hsep : OneByte sep) {parts : List String}
    (h : ∀ part ∈ parts, OneByte part) : OneByte (join sep parts) := by
  fun_induction Text.join sep parts with
  | case1 => intro c hc; cases hc
  | case2 part => exact h part mem_cons_self
  | case3 part rest _ ih =>
    exact ((h part mem_cons_self).append hsep).append
      (ih fun other hother => h other (mem_cons_of_mem _ hother))

theorem length_cut_le (s : String) (n : Nat) : (cut s n).toList.length ≤ n := by
  rw [cut, String.toList_ofList, length_take]
  exact Nat.min_le_left _ _

theorem utf8Size_of_isAsciiAlphanumeric {c : Char} (h : isAsciiAlphanumeric c = true ∨ c = '_') :
    c.utf8Size = 1 := by
  have hle : c.val.toNat ≤ 127 := by
    rcases h with h | rfl
    · have hrange := toNat_of_isAsciiAlphanumeric h
      change c.toNat ≤ 127
      omega
    · decide
  rw [Char.utf8Size, if_pos (UInt32.le_iff_toNat_le.mpr hle)]

/-- A valid identifier is short and made of letters, digits and underscores. -/
theorem oneByte_of_validateIdentifier {kind name : String}
    (h : validateIdentifier kind name = .ok ()) :
    OneByte name ∧ byteLen name ≤ maxIdentifierLen :=
  have hchars := validateIdentifier_chars h
  ⟨fun c hc => utf8Size_of_isAsciiAlphanumeric (hchars.2 c hc), hchars.1⟩

/-! ### What a declaration parses to -/

/-- A parsed declaration has no name or a valid one, and columns of the collection. -/
structure Parsed (context : FilterContext) (spec : IndexSpec) : Prop where
  name : spec.name = "" ∨ validateIdentifier "index name" spec.name = .ok ()
  columns : ∀ column ∈ spec.columns, context.hasColumn column.name = true

section Parse

variable {table : String} {context : FilterContext}

theorem validateColumn_eq_ok {name column : String}
    (h : validateColumn table name context = .ok column) :
    column = name ∧ context.hasColumn name = true := by
  unfold validateColumn at h
  split_ifs at h with hcolumn
  exact ⟨(Except.ok.inj h).symm, hcolumn⟩

theorem columns_of_expressionColumns {all tokens : List Token} {expect : Expect}
    {columns : List IndexColumn}
    (h : expressionColumns table context all expect tokens = .ok columns) :
    ∀ column ∈ columns, context.hasColumn column.name = true := by
  fun_induction expressionColumns table context all expect tokens generalizing columns with
  | case1 => cases h
  | case2 => cases h
  | case3 token rest hkind ih => exact ih h
  | case4 name =>
    obtain ⟨column, hcolumn, h⟩ := bind_eq_ok.mp h
    obtain rfl := Except.ok.inj h
    obtain ⟨rfl, hhas⟩ := validateColumn_eq_ok hcolumn
    simpa using hhas
  | case5 name token rest ih₁ ih₂ =>
    obtain ⟨column, hcolumn, hrest⟩ := bind_eq_ok.mp h
    obtain ⟨rfl, hhas⟩ := validateColumn_eq_ok hcolumn
    clear h
    split_ifs at hrest
    · obtain ⟨others, hothers, heq⟩ := bind_eq_ok.mp hrest
      obtain rfl := Except.ok.inj heq
      exact forall_mem_cons.mpr ⟨hhas, ih₁ hothers⟩
    · obtain ⟨others, hothers, heq⟩ := bind_eq_ok.mp hrest
      obtain rfl := Except.ok.inj heq
      exact forall_mem_cons.mpr ⟨hhas, ih₂ hothers⟩
  | case6 =>
    obtain rfl := Except.ok.inj h
    simp
  | case7 token rest hcomma ih => exact ih h
  | case8 => cases h

theorem columns_of_statementColumns {name : String} {expect : Expect} {tokens after : List Token}
    {columns : List IndexColumn}
    (h : statementColumns table context name expect tokens = .ok (columns, after)) :
    ∀ column ∈ columns, context.hasColumn column.name = true := by
  fun_induction statementColumns table context name expect tokens generalizing columns after with
  | case1 => cases h
  | case2 => cases h
  | case3 => cases h
  | case4 token rest hparen hkind ih => exact ih h
  | case5 =>
    obtain ⟨_, -, h⟩ := bind_eq_ok.mp h
    cases h
  | case6 => cases h
  | case7 column token rest hkeyword ih₁ ih₂ =>
    obtain ⟨name, hcolumn, hrest⟩ := bind_eq_ok.mp h
    obtain ⟨rfl, hhas⟩ := validateColumn_eq_ok hcolumn
    clear h
    split_ifs at hrest
    · obtain ⟨⟨others, rest'⟩, hothers, heq⟩ := bind_eq_ok.mp hrest
      obtain ⟨rfl, rfl⟩ := Prod.mk.inj (Except.ok.inj heq)
      exact forall_mem_cons.mpr ⟨hhas, ih₁ hothers⟩
    · obtain ⟨⟨others, rest'⟩, hothers, heq⟩ := bind_eq_ok.mp hrest
      obtain ⟨rfl, rfl⟩ := Prod.mk.inj (Except.ok.inj heq)
      exact forall_mem_cons.mpr ⟨hhas, ih₂ hothers⟩
    · obtain ⟨rfl, rfl⟩ := Prod.mk.inj (Except.ok.inj hrest)
      simpa using hhas
  | case8 => cases h
  | case9 token rest hcomma ih => exact ih h
  | case10 token rest hcomma hparen =>
    obtain ⟨rfl, rfl⟩ := Prod.mk.inj (Except.ok.inj h)
    simp
  | case11 => cases h

/-- The parts of a statement from its name on. -/
theorem parseStatement_eq_ok {raw : String} {tokens : List Token} {spec : IndexSpec}
    (h : parseStatement table context raw tokens = .ok spec) :
    ∃ fromName afterName fromTarget fromColumns afterColumns,
      statementName table fromName = .ok (spec.name, afterName) ∧
      expectKeyword raw "ON" afterName = .ok fromTarget ∧
      statementTarget table spec.name fromTarget = .ok fromColumns ∧
      statementColumns table context spec.name .column fromColumns =
        .ok (spec.columns, afterColumns) ∧
      statementPredicate context spec.name afterColumns = .ok spec.predicate := by
  have hrest : ∀ (unique : Bool) (fromName : List Token),
      (do
        let named ← statementName table fromName
        let tokens ← expectKeyword raw "ON" named.2
        let tokens ← statementTarget table named.1 tokens
        let listed ← statementColumns table context named.1 .column tokens
        let predicate ← statementPredicate context named.1 listed.2
        Except.ok ⟨named.1, unique, listed.1, predicate⟩) = Except.ok spec →
      ∃ afterName fromTarget fromColumns afterColumns,
        statementName table fromName = .ok (spec.name, afterName) ∧
        expectKeyword raw "ON" afterName = .ok fromTarget ∧
        statementTarget table spec.name fromTarget = .ok fromColumns ∧
        statementColumns table context spec.name .column fromColumns =
          .ok (spec.columns, afterColumns) ∧
        statementPredicate context spec.name afterColumns = .ok spec.predicate := by
    intro unique fromName h
    obtain ⟨⟨name, afterName⟩, hname, h⟩ := bind_eq_ok.mp h
    obtain ⟨fromTarget, hon, h⟩ := bind_eq_ok.mp h
    obtain ⟨fromColumns, htarget, h⟩ := bind_eq_ok.mp h
    obtain ⟨⟨columns, afterColumns⟩, hcolumns, h⟩ := bind_eq_ok.mp h
    obtain ⟨predicate, hpredicate, h⟩ := bind_eq_ok.mp h
    obtain rfl := Except.ok.inj h
    exact ⟨afterName, fromTarget, fromColumns, afterColumns, hname, hon, htarget, hcolumns,
      hpredicate⟩
  obtain ⟨_, -, h⟩ := bind_eq_ok.mp h
  obtain ⟨_, -, h⟩ := bind_eq_ok.mp h
  split at h
  next guarded fromName _ =>
    cases guarded with
    | false => exact ⟨fromName, hrest _ fromName h⟩
    | true =>
      obtain ⟨_, -, h⟩ := bind_eq_ok.mp h
      obtain ⟨fromName, -, h⟩ := bind_eq_ok.mp h
      exact ⟨fromName, hrest _ fromName h⟩

/-- The name of a statement is a valid identifier. -/
theorem validate_of_statementName {name : String} {tokens after : List Token}
    (h : statementName table tokens = .ok (name, after)) :
    validateIdentifier "index name" name = .ok () := by
  unfold statementName at h
  split at h
  · cases h
  · split_ifs at h
    obtain ⟨⟨⟩, hvalid, h⟩ := bind_eq_ok.mp h
    obtain ⟨rfl, -⟩ := Prod.mk.inj (Except.ok.inj h)
    exact hvalid

/-- **What `parse_one` accepts.** -/
theorem parsed_of_parseOne {raw : String} {spec : IndexSpec}
    (h : parseOne table context raw = .ok spec) : Parsed context spec := by
  have hexpression : ∀ tokens, parseExpression table context tokens = .ok spec →
      Parsed context spec := by
    intro tokens h
    obtain ⟨columns, hcolumns, h⟩ := bind_eq_ok.mp h
    obtain rfl := Except.ok.inj h
    exact ⟨.inl rfl, columns_of_expressionColumns hcolumns⟩
  have hstatement : ∀ tokens, parseStatement table context raw tokens = .ok spec →
      Parsed context spec := by
    intro tokens h
    obtain ⟨_, _, _, _, _, hname, -, -, hcolumns, -⟩ := parseStatement_eq_ok h
    exact ⟨.inr (validate_of_statementName hname), columns_of_statementColumns hcolumns⟩
  obtain ⟨tokens, -, h⟩ := bind_eq_ok.mp h
  split at h
  · cases h
  · split_ifs at h
    · exact hstatement _ h
    · exact hexpression _ h
  · exact hexpression _ h

end Parse

/-! ### Lengths -/

/-- A function to eight hexadecimal digits. -/
def HexHash (sha : String → String) : Prop :=
  ∀ text, (sha text).toList.length = 8 ∧ ∀ c ∈ (sha text).toList, c ∈ "0123456789abcdef".toList

/-- A collection whose names were validated. -/
structure ValidNames (collection : Collection) : Prop where
  name : validateIdentifier "collection name" collection.name = .ok ()
  fields : ∀ field ∈ collection.fields,
    validateFieldName field.name collection.collectionType = .ok ()

section Lengths

variable {sha : String → String} {collection : Collection} {all : List Collection}
  {context : FilterContext}

theorem oneByte_sha (hsha : HexHash sha) (text : String) : OneByte (sha text) := by
  intro c hc
  have hsize : OneByte "0123456789abcdef" := by decide
  exact hsize c ((hsha text).2 c hc)

/-- A column of a collection is one it starts with or a field. -/
theorem column_of_buildFields {hop : Option (Collection → Result FilterContext)}
    {fields : List Field} {columns : List (String × String)}
    {relations : List (String × RelationTarget FilterContext)} {name : String}
    (h : FilterContext.buildFields collection hop all fields columns relations = .ok context)
    (hname : context.hasColumn name = true) :
    (Assoc.lookup name columns).isSome = true ∨ ∃ field ∈ fields, field.name = name := by
  induction fields generalizing columns relations with
  | nil =>
    rw [FilterContext.buildFields, Except.ok.injEq] at h
    rw [← h] at hname
    exact .inl hname
  | cons field rest ih =>
    rw [FilterContext.buildFields] at h
    split at h
    · rcases ih h with hlookup | ⟨f, hf, heq⟩
      · exact .inl hlookup
      · exact .inr ⟨f, mem_cons_of_mem _ hf, heq⟩
    · obtain ⟨columnType, -, h⟩ := bind_eq_ok.mp h
      obtain ⟨entry, -, h⟩ := bind_eq_ok.mp h
      rcases ih h with hlookup | ⟨f, hf, heq⟩
      · by_cases hsame : name = field.name
        · exact .inr ⟨field, mem_cons_self, hsame.symm⟩
        · rw [Assoc.lookup_insert_of_ne hsame] at hlookup
          exact .inl hlookup
      · exact .inr ⟨f, mem_cons_of_mem _ hf, heq⟩

/-- The columns of a collection with valid names have valid names. -/
theorem validateIdentifier_of_hasColumn (hvalid : ValidNames collection)
    (hcontext : FilterContext.forCollection collection all = .ok context) {name : String}
    (hname : context.hasColumn name = true) : validateIdentifier "field name" name = .ok () := by
  obtain ⟨hop, -, hbuild⟩ := FilterContext.exists_of_build hcontext
  rcases column_of_buildFields hbuild hname with hstart | ⟨field, hfield, rfl⟩
  · have hmem : name ∈ ["created", "email", "id", "updated", "verified"] := by
      obtain ⟨type, htype⟩ := Option.isSome_iff_exists.mp hstart
      have hentry := mem_map_of_mem (f := Prod.fst) (Assoc.mem_of_lookup htype)
      unfold FilterContext.startColumns at hentry
      split_ifs at hentry <;> simp only [map_cons, map_nil, List.mem_cons,
        List.not_mem_nil, or_false] at hentry ⊢ <;> tauto
    have hnames : ["created", "email", "id", "updated", "verified"].all fun name =>
        isOk (validateIdentifier "field name" name) := by decide
    obtain ⟨⟨⟩, hok⟩ := isOk_iff.mp (List.all_eq_true.mp hnames name hmem)
    exact hok
  · obtain ⟨⟨⟩, hok, -⟩ := bind_eq_ok.mp (hvalid.fields field hfield)
    exact hok

theorem oneByte_of_hasColumn (hvalid : ValidNames collection)
    (hcontext : FilterContext.forCollection collection all = .ok context) {name : String}
    (hname : context.hasColumn name = true) : OneByte name :=
  (oneByte_of_validateIdentifier (validateIdentifier_of_hasColumn hvalid hcontext hname)).1

theorem oneByte_indexName (hsha : HexHash sha) {table column : String} (htable : OneByte table)
    (hcolumn : OneByte column) : OneByte (indexName sha table column) := by
  have hunderscore : OneByte "_" := by decide
  have hbase : OneByte ("idx_" ++ table ++ "_" ++ column) :=
    (((show OneByte "idx_" by decide).append htable).append hunderscore).append hcolumn
  unfold indexName
  dsimp only
  split_ifs
  · exact hbase
  · exact ((hbase.cut _).append hunderscore).append (oneByte_sha hsha _)

theorem byteLen_cut_le {s : String} (h : OneByte s) (n : Nat) : byteLen (cut s n) ≤ n := by
  rw [(h.cut n).byteLen_eq]
  exact length_cut_le s n

/-- A declaration that is short and made of one-byte characters, as its columns are. -/
structure Short (spec : IndexSpec) : Prop where
  oneByte : OneByte spec.name
  byteLen_le : byteLen spec.name ≤ maxIdentifierLen

theorem short_named (hsha : HexHash sha) (hvalid : ValidNames collection)
    (hcontext : FilterContext.forCollection collection all = .ok context) {spec : IndexSpec}
    (hspec : Parsed context spec) : Short (named sha collection.name spec) := by
  have htable := (oneByte_of_validateIdentifier hvalid.name).1
  rcases hspec.name with hempty | hname
  · have hunderscore : OneByte "_" := by decide
    have hsuffix : OneByte (join "_" (spec.columns.map IndexColumn.name)) := by
      refine hunderscore.join fun part hpart => ?_
      obtain ⟨column, hcolumn, rfl⟩ := List.mem_map.mp hpart
      exact oneByte_of_hasColumn hvalid hcontext (hspec.columns column hcolumn)
    have hindex := oneByte_indexName hsha htable hsuffix
    rw [named, if_pos hempty]
    refine ⟨?_, ?_⟩
    · change OneByte (generatedName sha collection.name spec.columns)
      unfold generatedName
      dsimp only
      split_ifs
      · exact (((show OneByte "idx_" by decide).append htable).append hunderscore).append hsuffix
      · exact hindex.cut _
      · exact hindex
    · change byteLen (generatedName sha collection.name spec.columns) ≤ maxIdentifierLen
      unfold generatedName
      dsimp only
      split_ifs with hshort hlong
      · exact hshort
      · exact byteLen_cut_le hindex _
      · exact not_lt.mp hlong
  · have hvalidName := oneByte_of_validateIdentifier hname
    have hne : spec.name ≠ "" := by
      intro hempty
      rw [hempty] at hname
      cases hname
    rw [named, if_neg hne]
    exact ⟨hvalidName.1, hvalidName.2⟩

/-- A name with a hash of eight digits is at most 63 bytes long. -/
theorem byteLen_disambiguatedName {base hash : String} (hbase : OneByte base)
    (hhash : OneByte hash) (hlength : hash.toList.length = 8) :
    byteLen (disambiguatedName base hash) ≤ maxIdentifierLen := by
  have hsuffix : OneByte ("_" ++ hash) := (show OneByte "_" by decide).append hhash
  have hnine : byteLen ("_" ++ hash) = 9 := by
    rw [hsuffix.byteLen_eq, String.toList_append, length_append, hlength]
    rfl
  have hcut := byteLen_cut_le hbase (min (byteLen base) (maxIdentifierLen - 9))
  have hname := ((hbase.cut (min (byteLen base) (maxIdentifierLen - 9))).append hsuffix).byteLen_eq
  rw [String.toList_append, length_append, ← (hbase.cut _).byteLen_eq, ← hsuffix.byteLen_eq,
    hnine] at hname
  have hmax : maxIdentifierLen = 63 := rfl
  unfold disambiguatedName
  dsimp only
  rw [hnine, hname]
  omega

theorem short_disambiguated (hsha : HexHash sha) {spec : IndexSpec} (hspec : Short spec) :
    Short (disambiguated sha spec) := by
  have hhash (text : String) : OneByte ("_" ++ sha text) :=
    (show OneByte "_" by decide).append (oneByte_sha hsha text)
  exact ⟨(hspec.oneByte.cut _).append (hhash _),
    byteLen_disambiguatedName hspec.oneByte (oneByte_sha hsha _) (hsha _).1⟩

end Lengths

/-! ### Names that are taken -/

section Names

variable (sha : String → String)

/-- The declarations of a list, under their own names or the generated ones. -/
def declarations (table : String) (context : FilterContext) (declared : List String) :
    List IndexSpec :=
  declared.filterMap fun raw => (parseOne table context raw).toOption.map (named sha table)

/-- **A name that is taken** behind some declarations: the collection reserves it, one of them has it,
or one of them, whose own name was taken, got it with its hash. -/
inductive Taken (reserved : List String) : List IndexSpec → String → Prop
  | reserved {front : List IndexSpec} {name : String} (h : name ∈ reserved) :
      Taken reserved front name
  | repeated {front : List IndexSpec} {other : IndexSpec} (h : other ∈ front) :
      Taken reserved front other.name
  | hashed {front back : List IndexSpec} {other : IndexSpec}
      (h : Taken reserved front other.name) :
      Taken reserved (front ++ other :: back) (disambiguated sha other).name

variable {sha} {reserved : List String}

variable {front : List IndexSpec}

theorem Taken.append {name : String} (h : Taken sha reserved front name)
    (spec : IndexSpec) : Taken sha reserved (front ++ [spec]) name := by
  cases h with
  | reserved h => exact .reserved h
  | repeated h => exact .repeated (mem_append_left _ h)
  | hashed h =>
    rw [append_assoc, cons_append]
    exact .hashed h

/-- What is taken behind one more declaration. -/
theorem taken_append_iff {spec : IndexSpec} {name : String} :
    Taken sha reserved (front ++ [spec]) name ↔ Taken sha reserved front name ∨
      name = spec.name ∨
      (Taken sha reserved front spec.name ∧ name = (disambiguated sha spec).name) := by
  constructor
  · generalize hall : front ++ [spec] = whole
    intro h
    cases h with
    | reserved h => exact .inl (.reserved h)
    | @repeated _ other h =>
      rw [← hall, mem_append, List.mem_singleton] at h
      rcases h with h | rfl
      · exact .inl (.repeated h)
      · exact .inr (.inl rfl)
    | @hashed first back other h =>
      rcases eq_nil_or_concat back with rfl | ⟨back, last, rfl⟩
      · obtain ⟨rfl, hlast⟩ := append_inj' hall rfl
        obtain rfl := (List.cons.inj hlast).1
        exact .inr (.inr ⟨h, rfl⟩)
      · rw [concat_eq_append, ← cons_append, ← append_assoc] at hall
        obtain ⟨rfl, -⟩ := append_inj' hall rfl
        exact .inl (.hashed h)
  · rintro (h | rfl | ⟨h, rfl⟩)
    · exact h.append spec
    · exact .repeated (mem_append_right _ (mem_singleton_self _))
    · exact .hashed h

/-- Resolving a declaration takes its resolved name. -/
theorem taken_resolved_iff {taken : List String} {spec : IndexSpec}
    (htaken : ∀ name, name ∈ taken ↔ Taken sha reserved front name) (name : String) :
    name ∈ (if spec.name ∈ taken then disambiguated sha spec else spec).name :: taken ↔
      Taken sha reserved (front ++ [spec]) name := by
  rw [List.mem_cons, taken_append_iff]
  split_ifs with hspec
  · rw [htaken] at hspec ⊢
    constructor
    · rintro (rfl | h)
      · exact .inr (.inr ⟨hspec, rfl⟩)
      · exact .inl h
    · rintro (h | rfl | ⟨-, rfl⟩)
      · exact .inr h
      · exact .inr hspec
      · exact .inl rfl
  · rw [htaken] at hspec ⊢
    constructor
    · rintro (rfl | h)
      · exact .inr (.inl rfl)
      · exact .inl h
    · rintro (h | rfl | ⟨h, -⟩)
      · exact .inr h
      · exact .inl rfl
      · exact absurd h hspec

/-- A declaration behind `front` whose name is taken, and whose name with the hash is reserved. -/
def CollidesFrom (sha : String → String) (reserved : List String) (front specs : List IndexSpec) :
    Prop :=
  ∃ before spec after, specs = before ++ spec :: after ∧
    Taken sha reserved (front ++ before) spec.name ∧ (disambiguated sha spec).name ∈ reserved

theorem collidesFrom_cons {specs : List IndexSpec} {spec : IndexSpec} :
    CollidesFrom sha reserved front (spec :: specs) ↔
      (Taken sha reserved front spec.name ∧ (disambiguated sha spec).name ∈ reserved) ∨
        CollidesFrom sha reserved (front ++ [spec]) specs := by
  constructor
  · rintro ⟨before, other, after, hspecs, htaken, hreserved⟩
    cases before with
    | nil =>
      obtain ⟨rfl, -⟩ := List.cons.inj hspecs
      rw [append_nil] at htaken
      exact .inl ⟨htaken, hreserved⟩
    | cons first before =>
      obtain ⟨rfl, rfl⟩ := List.cons.inj hspecs
      refine .inr ⟨before, other, after, rfl, ?_, hreserved⟩
      rwa [append_assoc, singleton_append]
  · rintro (⟨htaken, hreserved⟩ | ⟨before, other, after, rfl, htaken, hreserved⟩)
    · exact ⟨[], spec, specs, rfl, by rwa [append_nil], hreserved⟩
    · refine ⟨spec :: before, other, after, rfl, ?_, hreserved⟩
      rwa [append_assoc, singleton_append] at htaken

/-- **When a resolved name is reserved.** -/
theorem reserved_of_parseAllFrom {table : String} {context : FilterContext}
    {specs resolved : List IndexSpec} {taken declared : List String}
    (htaken : ∀ name, name ∈ taken ↔ Taken sha reserved front name)
    (h : parseAllFrom sha table context taken specs declared = .ok resolved) :
    (∃ spec ∈ resolved, spec.name ∈ reserved) ↔ (∃ spec ∈ specs, spec.name ∈ reserved) ∨
      CollidesFrom sha reserved front (declarations sha table context declared) := by
  induction declared generalizing front taken specs with
  | nil =>
    rw [parseAllFrom, Except.ok.injEq] at h
    subst h
    refine ⟨.inl, ?_⟩
    rintro (h | ⟨before, spec, after, hspecs, -⟩)
    · exact h
    · exact absurd hspecs (by simp [declarations])
  | cons raw rest ih =>
    obtain ⟨parsed, hparsed, h⟩ := bind_eq_ok.mp h
    obtain ⟨_, -, h⟩ := bind_eq_ok.mp h
    have hdeclarations : declarations sha table context (raw :: rest) =
        named sha table parsed :: declarations sha table context rest := by
      rw [declarations, filterMap_cons, hparsed]
      rfl
    have hnew : (resolveName sha table taken parsed).name ∈ reserved ↔
        Taken sha reserved front (named sha table parsed).name ∧
          (disambiguated sha (named sha table parsed)).name ∈ reserved := by
      rw [resolveName, ← htaken]
      split_ifs with hin
      · exact (and_iff_right hin).symm
      · refine iff_of_false (fun hreserved => hin ?_) fun h => hin h.1
        exact (htaken _).mpr (.reserved hreserved)
    rw [ih (taken_resolved_iff htaken) h, hdeclarations, collidesFrom_cons, ← or_assoc, ← hnew]
    simp only [mem_append, List.mem_singleton, or_and_right, exists_or, exists_eq_left]

/-- What is taken before the first declaration. -/
theorem taken_nil_iff {name : String} : Taken sha reserved [] name ↔ name ∈ reserved := by
  constructor
  · generalize hnil : ([] : List IndexSpec) = front
    intro h
    cases h with
    | reserved h => exact h
    | repeated h =>
      subst hnil
      cases h
    | hashed h => exact absurd hnil (by simp)
  · exact .reserved

end Names

/-! ### Names an index can be created under -/

section Usable

variable (sha : String → String)

/-- **Usable names**: distinct, not too long, and none that the collection reserves. -/
structure Usable (collection : Collection) (specs : List IndexSpec) : Prop where
  nodup : (specs.map IndexSpec.name).Nodup
  short : ∀ spec ∈ specs, byteLen spec.name ≤ maxIdentifierLen
  free : ∀ spec ∈ specs, spec.name ∉ reservedNames sha collection

/-- Some declaration's name is taken, and with the hash it is reserved. -/
def Collides (collection : Collection) (context : FilterContext) (declared : List String) : Prop :=
  CollidesFrom sha (reservedNames sha collection) []
    (declarations sha collection.name context declared)

/-- Run the statements of the declarations. -/
def createAll (server : Server) (table : String) : List IndexSpec → Db → Option Db
  | [], db => some db
  | spec :: rest, db => (db.exec server (spec.createStatement table)).bind (createAll server table rest)

/-- **No statement is skipped.** In a database where no relation but the collection's own indexes has
one of the names, every declaration is an index afterwards. -/
def NeverSkips (collection : Collection) (specs : List IndexSpec) : Prop :=
  ∀ (server : Server) (db after : Db),
    (∀ spec ∈ specs, db.nameTaken spec.name = true → spec.name ∈ reservedNames sha collection) →
    createAll server collection.name specs db = some after →
    ∀ spec ∈ specs, after.indexes spec.name = some (spec.index collection.name)

variable {sha}

theorem nameTaken_setIndex {db : Db} {name other : String} {index : Index} (hne : other ≠ name) :
    (db.setIndex name (some index)).nameTaken other = db.nameTaken other := by
  rw [Db.nameTaken, Db.nameTaken, Db.tables_setIndex, Db.indexes_setIndex,
    Function.update_of_ne hne]

/-- **Names that are free make their indexes.** -/
theorem indexes_of_createAll {server : Server} {table : String} {specs : List IndexSpec} {db after : Db}
    (hnodup : (specs.map IndexSpec.name).Nodup)
    (hfree : ∀ spec ∈ specs, db.nameTaken spec.name = false)
    (h : createAll server table specs db = some after) :
    (∀ spec ∈ specs, after.indexes spec.name = some (spec.index table)) ∧
      ∀ name, name ∉ specs.map IndexSpec.name → after.indexes name = db.indexes name := by
  induction specs generalizing db with
  | nil =>
    obtain rfl := Option.some.inj h
    exact ⟨fun spec hspec => absurd hspec List.not_mem_nil, fun _ _ => rfl⟩
  | cons spec rest ih =>
    obtain ⟨hspec, hnodup⟩ := nodup_cons.mp hnodup
    obtain ⟨next, hnext, h⟩ := Option.bind_eq_some_iff.mp h
    have hname := hfree spec mem_cons_self
    rcases Db.exec_createIndex.mp hnext with ⟨htaken, -⟩ | ⟨-, -, -, -, -, rfl⟩
    · rw [hname] at htaken
      cases htaken
    · have hothers : ∀ other ∈ rest,
          (db.setIndex spec.name (some (spec.index table))).nameTaken other.name = false := by
        intro other hother
        have hne : other.name ≠ spec.name := fun heq =>
          hspec (heq ▸ mem_map_of_mem (f := IndexSpec.name) hother)
        rw [nameTaken_setIndex hne]
        exact hfree other (mem_cons_of_mem _ hother)
      obtain ⟨hmade, hsame⟩ := ih hnodup hothers h
      refine ⟨forall_mem_cons.mpr ⟨?_, hmade⟩, fun name hmem => ?_⟩
      · rw [hsame _ hspec]
        exact Function.update_self ..
      · rw [map_cons, List.mem_cons, not_or] at hmem
        rw [hsame _ hmem.2]
        exact Function.update_of_ne hmem.1 ..

theorem Usable.neverSkips {collection : Collection} {specs : List IndexSpec}
    (h : Usable sha collection specs) : NeverSkips sha collection specs := by
  intro server db after hdb hafter
  refine (indexes_of_createAll h.nodup (fun spec hspec => ?_) hafter).1
  exact Bool.eq_false_iff.mpr fun htaken => h.free spec hspec (hdb spec hspec htaken)

end Usable

/-- Every resolved declaration has a short name. -/
theorem short_of_parseAllFrom {sha : String → String} (hsha : HexHash sha)
    {collection : Collection} {all : List Collection} {context : FilterContext}
    (hvalid : ValidNames collection)
    (hcontext : FilterContext.forCollection collection all = .ok context) {taken : List String}
    {specs resolved : List IndexSpec} {declared : List String}
    (hspecs : ∀ spec ∈ specs, Short spec)
    (h : parseAllFrom sha collection.name context taken specs declared = .ok resolved) :
    ∀ spec ∈ resolved, Short spec := by
  induction declared generalizing taken specs with
  | nil =>
    rw [parseAllFrom, Except.ok.injEq] at h
    exact h ▸ hspecs
  | cons raw rest ih =>
    obtain ⟨parsed, hparsed, h⟩ := bind_eq_ok.mp h
    obtain ⟨_, -, h⟩ := bind_eq_ok.mp h
    refine ih (fun spec hspec => ?_) h
    rcases mem_append.mp hspec with hspec | hspec
    · exact hspecs spec hspec
    · obtain rfl := List.mem_singleton.mp hspec
      have hnamed := short_named hsha hvalid hcontext (parsed_of_parseOne hparsed)
      unfold resolveName
      dsimp only
      split_ifs
      · exact short_disambiguated hsha hnamed
      · exact hnamed

end LazyPock.Indexes

namespace LazyPock

open Indexes

/-- **When the declared indexes have usable names.** Resolved names are always distinct and short. They
are also free, and no declaration is skipped, exactly when no declaration whose name is taken has a
reserved name with its hash. -/
theorem indexes_usable_iff {sha : String → String} (hsha : HexHash sha) {collection : Collection}
    {all : List Collection} {context : FilterContext} {declared : List String}
    {specs : List IndexSpec} (hvalid : ValidNames collection)
    (hcontext : FilterContext.forCollection collection all = .ok context)
    (hspecs : parseAll sha collection declared context = .ok specs) :
    (Usable sha collection specs ∧ NeverSkips sha collection specs) ↔
      ¬ Collides sha collection context declared := by
  have hempty : ∀ name, name ∈ reservedNames sha collection ↔
      Taken sha (reservedNames sha collection) [] name := fun _ => taken_nil_iff.symm
  have hreserved := reserved_of_parseAllFrom hempty hspecs
  simp only [List.not_mem_nil, false_and, exists_false, false_or] at hreserved
  rw [Collides, ← hreserved]
  constructor
  · rintro ⟨husable, -⟩ ⟨spec, hspec, hname⟩
    exact husable.free spec hspec hname
  · intro hfree
    have husable : Usable sha collection specs :=
      ⟨parseAll_nodup sha hspecs,
        fun spec hspec => (short_of_parseAllFrom hsha hvalid hcontext (by simp) hspecs spec
          hspec).byteLen_le,
        fun spec hspec hname => hfree ⟨spec, hspec, hname⟩⟩
    exact ⟨husable, husable.neverSkips⟩

section Slugs

/-- A field that has an index of its own. -/
def uniqueText (name : String) : Field := ⟨name, "posts", name, .text, false, true, .object [], 0⟩

/-- A collection with a unique `slug`, and further unique fields. -/
def slugs (others : List String) : Collection where
  id := "posts"
  name := "posts"
  collectionType := .base
  options := .object []
  rules := .object []
  fields := ("slug" :: others).map uniqueText

theorem validNames_slugs {others : List String}
    (h : ∀ name ∈ others, validateFieldName name .base = .ok ()) : ValidNames (slugs others) := by
  have hposts : validateIdentifier "collection name" "posts" = .ok () := by decide
  refine ⟨hposts, fun field hfield => ?_⟩
  obtain ⟨name, hname, rfl⟩ := List.mem_map.mp hfield
  rcases List.mem_cons.mp hname with rfl | hname
  · change validateFieldName "slug" .base = .ok ()
    decide
  · exact h name hname

/-- A hash function. -/
def zeros : String → String := fun _ => "00000000"

theorem hexHash_zeros : HexHash zeros :=
  have hzeros : "00000000".toList.length = 8 ∧
      ("00000000".toList.all fun c => c ∈ "0123456789abcdef".toList) = true := by decide
  fun _ => ⟨hzeros.1, fun c hc => of_decide_eq_true (List.all_eq_true.mp hzeros.2 c hc)⟩

theorem indexes_usable_iff_slug :
    ∃ context specs, FilterContext.forCollection (slugs []) [slugs []] = .ok context ∧
      parseAll zeros (slugs []) ["slug"] context = .ok specs ∧
      ((Usable zeros (slugs []) specs ∧ NeverSkips zeros (slugs []) specs) ↔
        ¬ Collides zeros (slugs []) context ["slug"]) := by
  obtain ⟨context, hcontext, hparse⟩ := exists_ok_of_any
    (x := FilterContext.forCollection (slugs []) [slugs []])
    (P := fun context => isOk (parseAll zeros (slugs []) ["slug"] context) = true)
    (by decide)
  obtain ⟨specs, hspecs⟩ := isOk_iff.mp hparse
  exact ⟨context, specs, hcontext, hspecs, indexes_usable_iff hexHash_zeros
    (validNames_slugs (by simp)) hcontext hspecs⟩

/-- **A declaration that is never applied.** With unique fields `slug` and `slug_00000000`, the plain
index on `slug` resolves to the name of the index of the second field. -/
theorem index_name_collides :
    ¬ ∀ (sha : String → String) (collection : Collection) (all : List Collection)
      (context : FilterContext) (declared : List String) (specs : List IndexSpec), HexHash sha →
      ValidNames collection → FilterContext.forCollection collection all = .ok context →
      parseAll sha collection declared context = .ok specs →
      Usable sha collection specs ∧ NeverSkips sha collection specs := by
  intro hall
  obtain ⟨context, hcontext, hparse⟩ := exists_ok_of_any
    (x := FilterContext.forCollection (slugs ["slug_00000000"]) [slugs ["slug_00000000"]])
    (P := fun context => (parseAll zeros (slugs ["slug_00000000"]) ["slug"] context).toOption.any
      (fun specs => decide (∃ spec ∈ specs,
        spec.name ∈ reservedNames zeros (slugs ["slug_00000000"]))) = true) (by decide)
  obtain ⟨specs, hspecs, spec, hspec, hreserved⟩ := exists_ok_of_any hparse
  have hvalid : ValidNames (slugs ["slug_00000000"]) := validNames_slugs (by
    intro name hname
    rw [List.mem_singleton.mp hname]
    decide)
  exact (hall zeros _ _ context ["slug"] specs hexHash_zeros hvalid hcontext hspecs).1.free spec
    hspec hreserved

end Slugs

end LazyPock
