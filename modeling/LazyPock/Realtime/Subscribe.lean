import LazyPock.Realtime.Hub
import LazyPock.Schema.Cache

/-!
# What a client subscribes to

`GET /api/realtime` turns a list of specifiers into subscriptions (`crates/api/src/realtime.rs`). A
specifier names every collection, or one, by its name or its id, and perhaps a record of it. The
subscription is stored under the text of the specifier, and the events of a collection carry the name
of its table, so a subscription by id hears nothing.

One topic is not a table: the registry of collections, for superusers only. It shares its name with any
collection called `collections`, so a client that subscribes to everything is subscribed to the registry
where such a collection exists, and the specifier `collections` means the registry instead of it.
`Realtime.faithful_iff` says that nothing else goes wrong.

## Main definitions

* `Realtime.expand`, `Realtime.realtime`.
* `Realtime.named`: the collections a specifier names.
* `Realtime.Faithful`: the subscriptions are to what was named.
* `Realtime.SpelledByName`: when they are.

## Main results

* `Realtime.targeted_iff`: the events that a new subscription is a target of.
* `Realtime.faithful_iff`, `Realtime.id_subscription_is_silent`.
-/

namespace LazyPock.Realtime

open Text List

/-! ### Specifiers -/

/-- `REGISTRY_TOPIC` -/
def registryTopic : String := "collections"

/-- `is_superuser` -/
def isSuperuser (principal : Principal) : Bool := principal.claims.any fun claims => claims.superuser

/-- The collection and the record of a specifier. -/
def specParts (spec : String) : String × Option String :=
  match splitOnce '/' spec with
  | some (collection, recordId) => (collection, some recordId)
  | none => (spec, none)

/-- Turn one subscription specifier into concrete subscriptions. -/
def expand (schema : Schema) (spec : String) : Result (List (String × Option String)) :=
  if spec = registryTopic then .ok [(registryTopic, none)]
  else if spec = "*" then .ok (schema.collections.map fun collection => (collection.name, none))
  else do
    failIf ((specParts spec).1 = "") (.invalid ("`" ++ spec ++ "` does not name a collection"))
    -- A typo is not silently a subscription that never fires.
    let resolved ← okOr (.notFound ("no collection named " ++ debug (specParts spec).1))
      (schema.get (specParts spec).1)
    failIf (resolved.collectionType = .view)
      (.invalid ("the collection " ++ debug (specParts spec).1 ++
        " is a view: views deliver no realtime events"))
    return [specParts spec]

/-- The subscriptions of one specifier. One of a collection is a list, one of a record a view. -/
def subscriptionsOf (schema : Schema) (principal : Principal) (connectionId spec : String) :
    Result (List Subscription) := do
  failIf (spec = registryTopic ∧ isSuperuser principal = false)
    (.forbidden "the collection registry is only available to superusers")
  let expanded ← expand schema spec
  return expanded.map fun (collection, recordId) =>
    ⟨collection, recordId,
      ⟨principal.requestContext (if recordId.isSome then .view else .list), connectionId⟩, connectionId⟩

/-- The value of `subscribe`. -/
def requested (subscribe : Option String) : Result String :=
  match subscribe.map trim with
  | none | some "" =>
    .error (.invalid
      "`subscribe` is required, for example `subscribe=posts` or `subscribe=*`")
  | some value => .ok value

/-- `GET /api/realtime`: the subscriptions of a request. -/
def realtime (schema : Schema) (principal : Principal) (connectionId : String)
    (subscribe : Option String) : Result (List Subscription) := do
  let requested ← requested subscribe
  let lists ← (((splitOn ',' requested).map trim).filter fun spec => spec ≠ "").mapM
    (subscriptionsOf schema principal connectionId)
  failIf (lists.flatten = []) (.invalid "`subscribe` did not name any collection")
  return lists.flatten

/-! ### What a specifier names -/

/-- The collections that a specifier names, with the record where it names one. -/
def named (schema : Schema) (spec : String) : List (Collection × Option String) :=
  if spec = "*" then schema.collections.map fun collection => (collection, none)
  else ((schema.get (specParts spec).1).map fun collection =>
    (collection, (specParts spec).2)).toList

/-- The event is one of the collection, and of the record where there is one. -/
def EventOf (collection : Collection) (recordId : Option String) (event : ChangeEvent) : Prop :=
  event.collection = collection.name ∧ ∀ id ∈ recordId, event.recordId = id

/-- Once the hub has the subscription, every event of the collection that another connection caused is
sent its way. -/
def Fires (subscription : Subscription) (collection : Collection) (recordId : Option String) : Prop :=
  ∀ (hub : Hub) (event : ChangeEvent), EventOf collection recordId event →
    event.fromConnection subscription.connectionId = false →
    ∃ target ∈ targets ((hub.subscribe subscription).subscribers event.collection) event,
      target.id = hub.nextId

/-- **The subscriptions are to what the specifier names**, and to nothing else. -/
structure Faithful (schema : Schema) (principal : Principal) (spec : String)
    (subscriptions : List Subscription) : Prop where
  fires : spec ≠ registryTopic → List.Forall₂ (fun subscription pair =>
    Fires subscription pair.1 pair.2) subscriptions (named schema spec)
  /-- Only a superuser hears of the registry. -/
  guarded : isSuperuser principal = false →
    ∀ subscription ∈ subscriptions, subscription.collection ≠ registryTopic
  /-- What means the registry names no collection. -/
  unshadowed : spec = registryTopic → schema.get spec = none

/-- The specifier spells a collection by its name, and no collection is mistaken for the registry. -/
structure SpelledByName (schema : Schema) (principal : Principal) (spec : String) : Prop where
  byName : spec ≠ registryTopic → spec ≠ "*" →
    ∀ collection, schema.get (specParts spec).1 = some collection → collection.name = (specParts spec).1
  unmistaken : spec ≠ registryTopic → isSuperuser principal = false →
    ∀ pair ∈ named schema spec, pair.1.name ≠ registryTopic
  unshadowed : spec = registryTopic → schema.get spec = none

/-! ### Which events reach a subscription -/

section Targets

variable {hub : Hub} {subscription : Subscription} {event : ChangeEvent}

/-- **A new subscription is a target of the events under its topic** that it wants. -/
theorem targeted_iff (hhub : ∀ collection, ∀ subscriber ∈ hub.subscribers collection,
    subscriber.id ≠ hub.nextId) :
    (∃ target ∈ targets ((hub.subscribe subscription).subscribers event.collection) event,
      target.id = hub.nextId) ↔
      event.collection = subscription.collection ∧ subscription.wants event = true := by
  have hlist : (hub.subscribe subscription).subscribers event.collection =
      if event.collection = subscription.collection then
        hub.subscribers subscription.collection ++
          [{ subscription with id := hub.nextId, seen := [] }]
      else hub.subscribers event.collection := Function.update_apply _ _ _ _
  rw [hlist]
  constructor
  · rintro ⟨target, htarget, hid⟩
    obtain ⟨subscriber, hmem, rfl⟩ := mem_map.mp htarget
    obtain ⟨hsubscriber, hwants⟩ := mem_filter.mp hmem
    split_ifs at hsubscriber with htopic
    · rcases mem_append.mp hsubscriber with hold | hnew
      · exact absurd hid (hhub _ _ hold)
      · obtain rfl := mem_singleton.mp hnew
        exact ⟨htopic, hwants⟩
    · exact absurd hid (hhub _ _ hsubscriber)
  · rintro ⟨htopic, hwants⟩
    rw [if_pos htopic]
    exact ⟨_, mem_map_of_mem (mem_filter.mpr
      ⟨mem_append_right _ (mem_singleton_self _), hwants⟩), rfl⟩

/-- The subscription is among the targets, whatever the hub holds besides. -/
theorem exists_target (htopic : event.collection = subscription.collection)
    (hwants : subscription.wants event = true) :
    ∃ target ∈ targets ((hub.subscribe subscription).subscribers event.collection) event,
      target.id = hub.nextId := by
  have hlist : (hub.subscribe subscription).subscribers event.collection = _ :=
    Function.update_apply _ _ _ _
  rw [hlist, if_pos htopic]
  exact ⟨_, mem_map_of_mem (mem_filter.mpr
    ⟨mem_append_right _ (mem_singleton_self _), hwants⟩), rfl⟩

/-- A subscription to a record that a specifier named. -/
theorem wants_of_eventOf {collection : Collection} (h : EventOf collection subscription.recordId event)
    (hecho : event.fromConnection subscription.connectionId = false) :
    subscription.wants event = true := by
  unfold Subscription.wants
  rw [hecho, Bool.not_false, Bool.true_and, Bool.not_eq_true', Option.any_eq_false]
  intro id hid
  exact decide_eq_false (not_not.mpr (h.2 id hid).symm)

/-- **A subscription fires exactly when it is stored under the name of the collection.** -/
theorem fires_iff {collection : Collection} :
    Fires subscription collection subscription.recordId ↔
      subscription.collection = collection.name := by
  constructor
  · intro h
    have hevent : EventOf collection subscription.recordId
        ⟨0, collection.name, .update, subscription.recordId.getD "", none⟩ :=
      ⟨rfl, fun id hid => by rw [Option.mem_def.mp hid]; rfl⟩
    have hecho : (⟨0, collection.name, .update, subscription.recordId.getD "", none⟩ :
        ChangeEvent).fromConnection subscription.connectionId = false := by
      simp [ChangeEvent.fromConnection]
    obtain ⟨htopic, -⟩ := (targeted_iff fun _ _ hsubscriber => by cases hsubscriber).mp
      (h Hub.new _ hevent hecho)
    exact htopic.symm
  · intro htopic hub event hevent hecho
    exact exists_target (hevent.1.trans htopic.symm) (wants_of_eventOf hevent hecho)

end Targets

/-! ### Faithful subscriptions -/

section Faithful

variable {schema : Schema} {principal : Principal} {connectionId spec : String}
  {subscriptions : List Subscription}

theorem named_star : named schema "*" = schema.collections.map fun collection => (collection, none) :=
  if_pos rfl

/-- **What is accepted**: the registry by a superuser, everything, or one collection. -/
theorem subscriptionsOf_cases
    (h : subscriptionsOf schema principal connectionId spec = .ok subscriptions) :
    (spec = registryTopic ∧ isSuperuser principal = true) ∨
    (spec ≠ registryTopic ∧ spec = "*" ∧
      subscriptions.map (fun s => (s.collection, s.recordId)) =
        schema.collections.map fun collection => (collection.name, none)) ∨
    (spec ≠ registryTopic ∧ spec ≠ "*" ∧ ∃ collection,
      schema.get (specParts spec).1 = some collection ∧
      subscriptions.map (fun s => (s.collection, s.recordId)) = [specParts spec]) := by
  obtain ⟨_, hguard, h⟩ := bind_eq_ok.mp h
  obtain ⟨expanded, hexpand, h⟩ := bind_eq_ok.mp h
  obtain rfl := Except.ok.inj h
  rw [failIf_eq_ok] at hguard
  unfold expand at hexpand
  have hparts : (expanded.map fun (collection, recordId) =>
      (⟨collection, recordId, ⟨principal.requestContext (if recordId.isSome then .view else .list),
        connectionId⟩, connectionId⟩ : Subscription)).map (fun s => (s.collection, s.recordId)) =
      expanded := by
    rw [map_map]
    exact map_id _
  split_ifs at hexpand with hregistry hstar
  · exact .inl ⟨hregistry, by simpa [hregistry] using hguard⟩
  · obtain rfl := Except.ok.inj hexpand
    exact .inr (.inl ⟨hregistry, hstar, hparts⟩)
  · obtain ⟨_, -, hexpand⟩ := bind_eq_ok.mp hexpand
    obtain ⟨collection, hget, hexpand⟩ := bind_eq_ok.mp hexpand
    obtain ⟨_, -, hexpand⟩ := bind_eq_ok.mp hexpand
    obtain rfl := Except.ok.inj hexpand
    exact .inr (.inr ⟨hregistry, hstar, collection, okOr_eq_ok.mp hget, hparts⟩)

/-- Subscriptions in the order of what was named. -/
theorem forall₂_of_map_eq (topic : Collection → String) {pairs : List (Collection × Option String)}
    (h : subscriptions.map (fun s => (s.collection, s.recordId)) =
      pairs.map fun pair => (topic pair.1, pair.2)) :
    List.Forall₂ (fun subscription pair => Fires subscription pair.1 pair.2) subscriptions pairs ↔
      ∀ pair ∈ pairs, topic pair.1 = pair.1.name := by
  induction pairs generalizing subscriptions with
  | nil =>
    obtain rfl := map_eq_nil_iff.mp h
    simp
  | cons pair pairs ih =>
    obtain ⟨subscription, rest, rfl, hhead, hrest⟩ := map_eq_cons_iff.mp h
    obtain ⟨htopic, hrecord⟩ := Prod.mk.inj hhead
    rw [List.forall₂_cons, ih hrest, forall_mem_cons, ← hrecord, fires_iff, htopic]

/-- **An accepted subscription fires, and only superusers hear of the registry, exactly when the
specifier spells a collection by its name** and no collection is mistaken for the registry. -/
theorem faithful_iff (h : subscriptionsOf schema principal connectionId spec = .ok subscriptions) :
    Faithful schema principal spec subscriptions ↔ SpelledByName schema principal spec := by
  have hguarded {pairs : List (Collection × Option String)}
      (hmap : subscriptions.map (fun s => (s.collection, s.recordId)) =
        pairs.map fun pair => (pair.1.name, pair.2)) :
      (∀ subscription ∈ subscriptions, subscription.collection ≠ registryTopic) ↔
        ∀ pair ∈ pairs, pair.1.name ≠ registryTopic := by
    have hnames := congrArg (List.map Prod.fst) hmap
    rw [map_map, map_map] at hnames
    have hmem (name : String) : (∃ s ∈ subscriptions, s.collection = name) ↔
        ∃ pair ∈ pairs, pair.1.name = name := by
      have hiff := congrArg (name ∈ ·) hnames
      simpa using hiff
    simpa using not_congr (hmem registryTopic)
  rcases subscriptionsOf_cases h with ⟨hregistry, hsuper⟩ | ⟨hregistry, rfl, hmap⟩ |
    ⟨hregistry, hstar, collection, hget, hmap⟩
  · constructor
    · exact fun hf => ⟨fun hne => absurd hregistry hne, fun hne => absurd hregistry hne, hf.unshadowed⟩
    · refine fun hs => ⟨fun hne => absurd hregistry hne, fun hnot => ?_, hs.unshadowed⟩
      rw [hsuper] at hnot
      cases hnot
  · have hpairs : subscriptions.map (fun s => (s.collection, s.recordId)) =
        (named schema "*").map fun pair => (pair.1.name, pair.2) := by
      rw [hmap, named_star, map_map]
      rfl
    have hfires := (forall₂_of_map_eq (fun c => c.name) hpairs).mpr fun _ _ => rfl
    constructor
    · exact fun hf => ⟨fun _ hne => absurd rfl hne,
        fun _ hnot => (hguarded hpairs).mp (hf.guarded hnot), hf.unshadowed⟩
    · exact fun hs => ⟨fun _ => hfires,
        fun hnot => (hguarded hpairs).mpr (hs.unmistaken hregistry hnot), hs.unshadowed⟩
  · have hnamed : named schema spec = [(collection, (specParts spec).2)] := by
      rw [named, if_neg hstar, hget]
      rfl
    have hpairs : subscriptions.map (fun s => (s.collection, s.recordId)) =
        (named schema spec).map fun pair => ((specParts spec).1, pair.2) := by
      rw [hmap, hnamed]
      rfl
    have hfires := forall₂_of_map_eq (fun _ => (specParts spec).1) hpairs
    have hbyName : (∀ pair ∈ named schema spec, (specParts spec).1 = pair.1.name) ↔
        collection.name = (specParts spec).1 := by
      rw [hnamed]
      simp [eq_comm]
    constructor
    · intro hf
      have hname := hbyName.mp (hfires.mp (hf.fires hregistry))
      refine ⟨fun _ _ other hother => ?_, fun _ hnot => (hguarded ?_).mp (hf.guarded hnot),
        hf.unshadowed⟩
      · obtain rfl := Option.some.inj (hget.symm.trans hother)
        exact hname
      · rw [hmap, hnamed, map_singleton, hname]
    · intro hs
      have hname := hs.byName hregistry hstar collection hget
      refine ⟨fun _ => hfires.mpr (hbyName.mpr hname),
        fun hnot => (hguarded ?_).mpr (hs.unmistaken hregistry hnot), hs.unshadowed⟩
      rw [hmap, hnamed, map_singleton, hname]

end Faithful

section Example

/-- A collection under its id. -/
def posts : Collection := ⟨"idOfThePosts001", "posts", .base, .object [], .object [], []⟩

def postsSchema : Schema := ⟨[posts]⟩

/-- **A subscription by id is accepted and never fires.** -/
theorem id_subscription_is_silent :
    ¬ ∀ (schema : Schema) (principal : Principal) (connectionId spec : String)
      (subscriptions : List Subscription),
      subscriptionsOf schema principal connectionId spec = .ok subscriptions →
        Faithful schema principal spec subscriptions := by
  intro hall
  have hfires := (hall postsSchema .anonymous "phone" "idOfThePosts001"
    [⟨"idOfThePosts001", none, ⟨Principal.anonymous.requestContext .list, "phone"⟩, "phone"⟩]
    (by decide)).fires (by decide)
  have hnamed : named postsSchema "idOfThePosts001" = [(posts, none)] := by decide
  rw [hnamed, List.forall₂_cons] at hfires
  exact absurd (fires_iff.mp hfires.1) (by decide)

/-- A subscription by name fires. -/
theorem name_subscription_fires : ∃ subscriptions : List Subscription,
    subscriptionsOf postsSchema .anonymous "phone" "posts/p1" = .ok subscriptions ∧
      (Faithful postsSchema .anonymous "posts/p1" subscriptions ↔
        SpelledByName postsSchema .anonymous "posts/p1") := by
  have haccepted : subscriptionsOf postsSchema .anonymous "phone" "posts/p1" =
      .ok [⟨"posts", some "p1", ⟨Principal.anonymous.requestContext .view, "phone"⟩, "phone"⟩] := by
    decide
  exact ⟨_, haccepted, faithful_iff haccepted⟩

end Example

end LazyPock.Realtime
