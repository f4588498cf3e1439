import LazyPock.Query.Context

/-!
# The schema snapshot

The request path reads collections from a snapshot (`crates/db/src/schema.rs`). A collection is found
by its name or by its id, a name first, and `resolve` of `crates/api/src/records.rs` builds the filter
context of what was found. So one collection has two spellings in a path.

## Main definitions

* `Schema`, `Schema.get`, `Schema.resolve`.

## Main results

* `Schema.get_spelling`: a collection is found under its name or its id, and no other way.
-/

namespace LazyPock

open Text

/-- An immutable snapshot of every collection. -/
structure Schema where
  collections : List Collection
deriving DecidableEq

/-- A resolved collection and its filter context. -/
structure Resolved where
  collection : Collection
  context : FilterContext

namespace Schema

variable (schema : Schema)

/-- The last of several collections with one key stays in a map built from them. -/
def last (p : Collection → Bool) : Option Collection := schema.collections.reverse.find? p

/-- Look a collection up by name or id. -/
def get (nameOrId : String) : Option Collection :=
  (schema.last fun collection => collection.name = nameOrId).or
    (schema.last fun collection => collection.id = nameOrId)

/-- The collection of a path, with its filter context. -/
def resolve (name : String) : Result Resolved := do
  let collection ← okOr (.notFound ("no collection named " ++ debug name)) (schema.get name)
  let context ← FilterContext.forCollection collection schema.collections
  .ok ⟨collection, context⟩

variable {schema}

/-- A collection is found under its name or its id, and no other way. -/
theorem get_spelling {nameOrId : String} {collection : Collection}
    (h : schema.get nameOrId = some collection) :
    collection ∈ schema.collections ∧
      (collection.name = nameOrId ∨ collection.id = nameOrId) := by
  rcases Option.or_eq_some_iff.mp h with hname | ⟨-, hid⟩
  · have hmem := List.mem_of_find?_eq_some hname
    exact ⟨List.mem_reverse.mp hmem, .inl (by simpa using List.find?_some hname)⟩
  · have hmem := List.mem_of_find?_eq_some hid
    exact ⟨List.mem_reverse.mp hmem, .inr (by simpa using List.find?_some hid)⟩

theorem resolve_eq_ok {name : String} {resolved : Resolved} :
    schema.resolve name = .ok resolved ↔ schema.get name = some resolved.collection ∧
      FilterContext.forCollection resolved.collection schema.collections = .ok resolved.context := by
  unfold resolve
  simp only [bind_eq_ok, okOr_eq_ok]
  constructor
  · rintro ⟨collection, hget, context, hcontext, h⟩
    obtain rfl := Except.ok.inj h
    exact ⟨hget, hcontext⟩
  · rintro ⟨hget, hcontext⟩
    exact ⟨resolved.collection, hget, resolved.context, hcontext, rfl⟩

end Schema

end LazyPock
