import LazyPock.Machine.Runs
import LazyPock.Rls.Identity
import Mathlib.Logic.Function.Basic

/-!
# The realtime hub

A node keeps the subscriptions of its clients and sends each change of a record to those that may see
it (`crates/realtime/src/hub.rs`). A dispatch copies its targets out of the registry, asks for the
record once under each identity, puts the event into the queues, and then remembers what it put there.
The registry is locked for the first and the last of these only, so clients subscribe, read and leave
while a dispatch is under way.

What a client may see is answered by the select policy of the collection, at the moment it is asked.
The answers are a parameter: anything may be visible to anybody at any time. A deletion leaves nothing
to ask about, so it goes to those who were shown the record before.

The notice about the registry of collections goes to a topic of its own and has no record; it is not
a dispatch.

## Main definitions

* `Realtime.ChangeEvent`, `Realtime.Subscriber`.
* `Realtime.Hub`, `Realtime.Action`, `Realtime.Hub.step`.
* `Realtime.Channel.Confined`: a queue that shows no more than a read would.

## Main results

* `Realtime.confined_of_run`: every queue is confined, whatever the clients do.
-/

namespace LazyPock

deriving instance DecidableEq for RequestContext

namespace Realtime

open Machine List

/-! ### Events and subscriptions -/

/-- What happened to a record. -/
inductive ChangeOp where
  | create
  | update
  | delete
deriving DecidableEq

/-- One change to one record. -/
structure ChangeEvent where
  /-- The `_rt_log` id. -/
  logId : Int
  collection : String
  op : ChangeOp
  recordId : String
  /-- The connection that caused the change, when a request did. -/
  origin : Option String
deriving DecidableEq

/-- Whether a connection is the one that caused this change. -/
def ChangeEvent.fromConnection (event : ChangeEvent) (connectionId : String) : Bool :=
  connectionId ≠ "" && event.origin = some connectionId

/-- What a request tells the database about itself, with its connection. -/
structure ClientContext extends RequestContext where
  connectionId : String
deriving DecidableEq

/-- An event on its way to a client. -/
structure Delivered where
  event : ChangeEvent
  /-- The record, when this client is allowed to see it. -/
  record : Option Json

/-- What a client subscribes to. -/
structure Subscription where
  collection : String
  /-- The single record this subscription is limited to, if any. -/
  recordId : Option String
  /-- What the client is allowed to see. -/
  context : ClientContext
  /-- The client's connection id, for echo suppression. -/
  connectionId : String
deriving DecidableEq

/-- A subscription in the registry. -/
structure Subscriber extends Subscription where
  id : ℕ
  /-- Record ids already delivered, newest last. -/
  seen : List String

/-- `CLIENT_QUEUE` -/
def clientQueue : ℕ := 256

/-- `RECENT_IDS` -/
def recentIds : ℕ := 256

/-- The filters that need no answer of the database: a client hears no echo of its own change, and a
subscription to one record hears of that record only. -/
def Subscription.wants (subscription : Subscription) (event : ChangeEvent) : Bool :=
  !event.fromConnection subscription.connectionId &&
    !subscription.recordId.any fun id => id ≠ event.recordId

/-- The oldest are forgotten beyond the bound. -/
def recent (seen : List String) : List String := seen.drop (seen.length - recentIds)

/-- Remember a delivered record id. -/
def Subscriber.remember (subscriber : Subscriber) (recordId : String) : Subscriber :=
  { subscriber with seen := recent (subscriber.seen ++ [recordId]) }

/-! ### A dispatch -/

/-- What the fan-out needs of a subscriber. -/
structure Target where
  id : ℕ
  context : ClientContext
  /-- Whether this subscriber has already been shown the record. -/
  known : Bool

/-- The targets of an event among the subscribers to its collection. -/
def targets (list : List Subscriber) (event : ChangeEvent) : List Target :=
  (list.filter fun subscriber => subscriber.wants event).map fun subscriber =>
    ⟨subscriber.id, subscriber.context, subscriber.seen.any fun id => id = event.recordId⟩

/-- The records as each identity may see them. -/
abbrev Documents : Type := List (ClientContext × Option Json)

/-- Whether the event goes to the target. -/
def Target.allowed (target : Target) (event : ChangeEvent) (documents : Documents) : Bool :=
  if event.op = .delete then
    -- The row is gone, so visibility cannot be re-checked.
    target.context.role = .owner || target.known
  else (documents.lookup target.context).any Option.isSome

/-- How far a dispatch has got. -/
inductive Phase where
  | idle
  /-- Identities are asked about; `rest` are the targets still to be looked at. -/
  | looking (event : ChangeEvent) (targets rest : List Target) (documents : Documents)
  /-- The event is put into the queues; `delivered` has it already. -/
  | sending (event : ChangeEvent) (rest : List Target) (documents : Documents) (delivered : List ℕ)

/-! ### The hub -/

/-- The channel of a subscription. -/
structure Channel extends Subscription where
  queue : List Delivered
  /-- The client still holds the receiving end. -/
  isOpen : Bool
  /-- Everything that was ever put into the queue, with the number of the dispatch that put it there. -/
  sent : List (ℕ × Delivered)

/-- Everything a node knows about live subscriptions. -/
structure Hub where
  subscribers : String → List Subscriber
  nextId : ℕ
  /-- Events dropped because a client could not keep up. -/
  dropped : ℕ
  channels : ℕ → Option Channel
  /-- The number of dispatches so far. -/
  dispatches : ℕ
  phase : Phase

/-- A hub for a node. -/
def Hub.new : Hub := ⟨fun _ => [], 1, 0, fun _ => none, 0, .idle⟩

/-- What clients and the bus do. -/
inductive Action where
  | subscribe (subscription : Subscription)
  | unsubscribe (collection : String) (id : ℕ)
  /-- A client reads the next event of its queue. -/
  | receive (id : ℕ)
  /-- A client drops its end of the channel. -/
  | close (id : ℕ)
  /-- A dispatch begins. -/
  | dispatch (event : ChangeEvent)
  /-- The dispatch under way goes on. -/
  | proceed

namespace Hub

/-- `subscribe` -/
def subscribe (hub : Hub) (subscription : Subscription) : Hub :=
  let subscriber : Subscriber := { subscription with id := hub.nextId, seen := [] }
  { hub with
    subscribers := Function.update hub.subscribers subscription.collection
      (hub.subscribers subscription.collection ++ [subscriber])
    nextId := hub.nextId + 1
    channels := Function.update hub.channels hub.nextId
      (some { subscription with queue := [], isOpen := true, sent := [] }) }

/-- `unsubscribe` -/
def unsubscribe (hub : Hub) (collection : String) (id : ℕ) : Hub :=
  { hub with
    subscribers := Function.update hub.subscribers collection
      ((hub.subscribers collection).filter fun subscriber => subscriber.id ≠ id) }

/-- Change a channel. -/
def onChannel (hub : Hub) (id : ℕ) (f : Channel → Channel) : Hub :=
  { hub with channels := Function.update hub.channels id ((hub.channels id).map f) }

/-- `try_send`: whether the queue took the delivery. -/
def trySend (hub : Hub) (id : ℕ) (delivery : Delivered) : Hub × Bool :=
  match hub.channels id with
  | none => (hub, false)
  | some channel =>
    if channel.isOpen = false then (hub, false)
    else if channel.queue.length < clientQueue then
      (hub.onChannel id fun channel => { channel with
        queue := channel.queue ++ [delivery]
        sent := channel.sent ++ [(hub.dispatches, delivery)] }, true)
    else ({ hub with dropped := hub.dropped + 1 }, false)

/-- Remember what was delivered, so a later delete can be trusted for it. -/
def remember (hub : Hub) (event : ChangeEvent) (delivered : List ℕ) : Hub :=
  { hub with
    subscribers := Function.update hub.subscribers event.collection
      ((hub.subscribers event.collection).map fun subscriber =>
        if subscriber.id ∈ delivered then subscriber.remember event.recordId else subscriber) }

/-- The first part of `dispatch`, under the lock. -/
def start (hub : Hub) (event : ChangeEvent) : Hub :=
  let list := targets (hub.subscribers event.collection) event
  { hub with
    dispatches := hub.dispatches + 1
    phase := if list.isEmpty then .idle
      else if event.op = .delete then .sending event list [] []
      else .looking event list list [] }

variable (documentFor : ℕ → String → String → ClientContext → Option Json) in
/-- The next part of the dispatch under way. `documentFor` says what the database answers in each
dispatch about a collection and a record, to an identity. -/
def proceed (hub : Hub) : Option Hub :=
  match hub.phase with
  | .idle => none
  | .looking event list [] documents => some { hub with phase := .sending event list documents [] }
  | .looking event list (target :: rest) documents =>
    -- One query per distinct identity rather than per subscription.
    let documents := if (documents.lookup target.context).isSome then documents
      else documents ++ [(target.context,
        documentFor hub.dispatches event.collection event.recordId target.context)]
    some { hub with phase := .looking event list rest documents }
  | .sending event (target :: rest) documents delivered =>
    if target.allowed event documents then
      let record := (documents.lookup target.context).join
      let (hub, taken) := hub.trySend target.id ⟨event, record⟩
      let delivered := if taken then delivered ++ [target.id] else delivered
      some { hub with phase := .sending event rest documents delivered }
    else some { hub with phase := .sending event rest documents delivered }
  | .sending event [] _ delivered => some { hub.remember event delivered with phase := .idle }

variable (documentFor : ℕ → String → String → ClientContext → Option Json) in
/-- One step. Dispatches do not overlap. -/
def step (hub : Hub) : Action → Option Hub
  | .subscribe subscription => some (hub.subscribe subscription)
  | .unsubscribe collection id => some (hub.unsubscribe collection id)
  | .receive id => some (hub.onChannel id fun channel => { channel with queue := channel.queue.tail })
  | .close id => some (hub.onChannel id fun channel => { channel with isOpen := false })
  | .dispatch event => match hub.phase with
    | .idle => some (hub.start event)
    | .looking .. | .sending .. => none
  | .proceed => hub.proceed documentFor

variable (documentFor : ℕ → String → String → ClientContext → Option Json) in
/-- The steps as a relation. -/
def Step (hub : Hub) (action : Action) (next : Hub) : Prop :=
  hub.step documentFor action = some next

end Hub

/-! ### Confined queues -/

variable (documentFor : ℕ → String → String → ClientContext → Option Json)

/-- **What is in a queue is no more than the client could read**: the queue of a subscription holds
events of its collection and its record only, none of its own connection, with the record as the
database showed it to the identity of the subscription; and a deletion only of a record that it was
told about before, unless the client sees everything. -/
structure Channel.Confined (channel : Channel) : Prop where
  queued : ∀ delivery ∈ channel.queue, ∃ n, (n, delivery) ∈ channel.sent
  topic : ∀ p ∈ channel.sent, p.2.event.collection = channel.collection
  record : ∀ id, channel.recordId = some id → ∀ p ∈ channel.sent, p.2.event.recordId = id
  echo : channel.connectionId ≠ "" →
    ∀ p ∈ channel.sent, p.2.event.origin ≠ some channel.connectionId
  visible : ∀ p ∈ channel.sent, p.2.event.op ≠ .delete → ∃ document, p.2.record = some document ∧
    documentFor p.1 p.2.event.collection p.2.event.recordId channel.context = some document
  shown : channel.context.role ≠ .owner → ∀ before p after, channel.sent = before ++ p :: after →
    p.2.event.op = .delete → ∃ q ∈ before, q.2.event.recordId = p.2.event.recordId

/-- The channel was told about the record. -/
def Channel.Told (channel : Channel) (recordId : String) : Prop :=
  ∃ p ∈ channel.sent, p.2.event.recordId = recordId

/-- The subscription's channel is there, and whatever holds of a channel does. -/
def Hub.Has (hub : Hub) (id : ℕ) (subscription : Subscription) (P : Channel → Prop) : Prop :=
  ∃ channel, hub.channels id = some channel ∧ channel.toSubscription = subscription ∧ P channel

/-- A target stands for a subscription that wants the event. -/
def Target.Sound (hub : Hub) (event : ChangeEvent) (target : Target) : Prop :=
  ∃ subscription : Subscription, subscription.collection = event.collection ∧
    subscription.context = target.context ∧ subscription.wants event = true ∧
    hub.Has target.id subscription fun channel => target.known = true → channel.Told event.recordId

/-- The documents of a dispatch are what the database answered in it. -/
def Documents.Sound (hub : Hub) (event : ChangeEvent) (documents : Documents) : Prop :=
  ∀ p ∈ documents,
    p.2 = documentFor hub.dispatches event.collection event.recordId p.1

/-- What holds of the dispatch under way. -/
def Phase.Sound (hub : Hub) : Phase → Prop
  | .idle => True
  | .looking event list _ documents =>
    (∀ target ∈ list, target.Sound hub event) ∧ documents.Sound documentFor hub event
  | .sending event rest documents delivered =>
    (∀ target ∈ rest, target.Sound hub event) ∧ documents.Sound documentFor hub event ∧
      ∀ id ∈ delivered, ∃ subscription, hub.Has id subscription fun channel =>
        channel.Told event.recordId

/-- A subscriber's channel carries what the subscriber asked for, and was told about what the
subscriber remembers. -/
def Subscriber.Sound (hub : Hub) (subscriber : Subscriber) : Prop :=
  hub.Has subscriber.id subscriber.toSubscription fun channel =>
    ∀ recordId ∈ subscriber.seen, channel.Told recordId

/-- What holds of a hub in between. -/
structure Hub.Sound (hub : Hub) : Prop where
  /-- Ids are handed out once. -/
  fresh : ∀ id, hub.nextId ≤ id → hub.channels id = none
  subscribers : ∀ collection, ∀ subscriber ∈ hub.subscribers collection,
    subscriber.collection = collection ∧ subscriber.Sound hub
  phase : hub.phase.Sound documentFor hub
  confined : ∀ id channel, hub.channels id = some channel → channel.Confined documentFor

/-- Channels only grow: a subscription stays what it is, and what was sent was sent. -/
def Hub.Grows (hub next : Hub) : Prop :=
  ∀ id channel, hub.channels id = some channel → ∃ channel', next.channels id = some channel' ∧
    channel'.toSubscription = channel.toSubscription ∧ channel.sent ⊆ channel'.sent

section Growth

variable {documentFor} {hub next : Hub}

theorem Channel.Told.mono {channel channel' : Channel} {recordId : String}
    (h : channel.Told recordId) (hsent : channel.sent ⊆ channel'.sent) : channel'.Told recordId := by
  obtain ⟨p, hp, hid⟩ := h
  exact ⟨p, hsent hp, hid⟩

theorem Hub.Grows.refl (hub : Hub) : hub.Grows hub :=
  fun _ channel h => ⟨channel, h, rfl, List.Subset.refl _⟩

theorem Hub.Grows.has (hgrows : hub.Grows next) {id : ℕ} {subscription : Subscription}
    {P Q : Channel → Prop} (h : hub.Has id subscription P)
    (hP : ∀ channel channel' : Channel, channel.sent ⊆ channel'.sent → P channel → Q channel') :
    next.Has id subscription Q := by
  obtain ⟨channel, hchannel, hsubscription, hp⟩ := h
  obtain ⟨channel', hchannel', hsame, hsent⟩ := hgrows id channel hchannel
  exact ⟨channel', hchannel', hsame.trans hsubscription, hP _ _ hsent hp⟩

theorem Hub.Grows.target (hgrows : hub.Grows next) {event : ChangeEvent} {target : Target}
    (h : target.Sound hub event) : target.Sound next event := by
  obtain ⟨subscription, hcollection, hcontext, hwants, hhas⟩ := h
  exact ⟨subscription, hcollection, hcontext, hwants, hgrows.has hhas
    fun _ _ hsent htold hknown => (htold hknown).mono hsent⟩

theorem Hub.Grows.subscriber (hgrows : hub.Grows next) {subscriber : Subscriber}
    (h : subscriber.Sound hub) : subscriber.Sound next :=
  hgrows.has h fun _ _ hsent htold recordId hrecord => (htold recordId hrecord).mono hsent

theorem Hub.Grows.phase (hgrows : hub.Grows next) (hdispatches : next.dispatches = hub.dispatches)
    {phase : Phase} (h : phase.Sound documentFor hub) : phase.Sound documentFor next := by
  cases phase with
  | idle => trivial
  | looking event list rest documents =>
    obtain ⟨htargets, hdocuments⟩ := h
    refine ⟨fun target htarget => hgrows.target (htargets target htarget), fun p hp => ?_⟩
    rw [hdispatches]
    exact hdocuments p hp
  | sending event rest documents delivered =>
    obtain ⟨htargets, hdocuments, hdelivered⟩ := h
    refine ⟨fun target htarget => hgrows.target (htargets target htarget), fun p hp => ?_,
      fun id hid => ?_⟩
    · rw [hdispatches]
      exact hdocuments p hp
    · obtain ⟨subscription, hhas⟩ := hdelivered id hid
      exact ⟨subscription, hgrows.has hhas fun _ _ hsent htold => htold.mono hsent⟩

end Growth

/-! ### What a step keeps -/

section Steps

variable {documentFor} {hub next : Hub}

/-- A step that changes channels only, and lets them grow. -/
theorem Hub.Sound.of_grows (h : hub.Sound documentFor) (hgrows : hub.Grows next)
    (hsubscribers : next.subscribers = hub.subscribers) (hnext : next.nextId = hub.nextId)
    (hdispatches : next.dispatches = hub.dispatches) (hphase : next.phase = hub.phase)
    (hfresh : ∀ id, hub.channels id = none → next.channels id = none)
    (hconfined : ∀ id channel, next.channels id = some channel → channel.Confined documentFor) :
    next.Sound documentFor where
  fresh id hid := hfresh id (h.fresh id (hnext ▸ hid))
  subscribers collection subscriber hsubscriber := by
    rw [hsubscribers] at hsubscriber
    obtain ⟨hcollection, hsound⟩ := h.subscribers collection subscriber hsubscriber
    exact ⟨hcollection, hgrows.subscriber hsound⟩
  phase := hphase ▸ hgrows.phase hdispatches h.phase
  confined := hconfined

theorem Hub.onChannel_channels {id other : ℕ} {f : Channel → Channel} :
    (hub.onChannel id f).channels other =
      if other = id then (hub.channels id).map f else hub.channels other := by
  simp only [Hub.onChannel, Function.update_apply]

/-- A change of one channel that keeps its subscription and what was sent. -/
theorem Hub.grows_onChannel {id : ℕ} {f : Channel → Channel}
    (hf : ∀ channel, (f channel).toSubscription = channel.toSubscription ∧
      channel.sent ⊆ (f channel).sent) : hub.Grows (hub.onChannel id f) := by
  intro other channel hchannel
  rw [Hub.onChannel_channels]
  split_ifs with hid
  · obtain rfl := hid
    exact ⟨f channel, by rw [hchannel]; rfl, hf channel⟩
  · exact ⟨channel, hchannel, rfl, List.Subset.refl _⟩

theorem Hub.Sound.onChannel (h : hub.Sound documentFor) {id : ℕ} {f : Channel → Channel}
    (hf : ∀ channel, (f channel).toSubscription = channel.toSubscription ∧
      channel.sent ⊆ (f channel).sent)
    (hconfined : ∀ channel, hub.channels id = some channel → (f channel).Confined documentFor) :
    (hub.onChannel id f).Sound documentFor := by
  refine h.of_grows (Hub.grows_onChannel hf) rfl rfl rfl rfl (fun other hnone => ?_)
    fun other channel hchannel => ?_
  · rw [Hub.onChannel_channels]
    split_ifs with hid
    · rw [← hid, hnone]
      rfl
    · exact hnone
  · rw [Hub.onChannel_channels] at hchannel
    split_ifs at hchannel
    · obtain ⟨before, hbefore, rfl⟩ := Option.map_eq_some_iff.mp hchannel
      exact hconfined before hbefore
    · exact h.confined other channel hchannel

/-- A client reads or leaves. -/
theorem Channel.Confined.of_queue {channel channel' : Channel} (h : channel.Confined documentFor)
    (hsubscription : channel'.toSubscription = channel.toSubscription)
    (hsent : channel'.sent = channel.sent) (hqueue : channel'.queue ⊆ channel.queue) :
    channel'.Confined documentFor := by
  obtain ⟨subscription, queue, isOpen, sent⟩ := channel
  obtain ⟨subscription', queue', isOpen', sent'⟩ := channel'
  obtain rfl : subscription' = subscription := hsubscription
  obtain rfl : sent' = sent := hsent
  exact ⟨fun delivery hdelivery => h.queued delivery (hqueue hdelivery), h.topic, h.record, h.echo,
    h.visible, h.shown⟩

variable {event : ChangeEvent}

theorem Subscription.wants_iff {subscription : Subscription} :
    subscription.wants event = true ↔
      (subscription.connectionId ≠ "" → event.origin ≠ some subscription.connectionId) ∧
      ∀ id, subscription.recordId = some id → event.recordId = id := by
  unfold Subscription.wants ChangeEvent.fromConnection
  cases subscription.recordId with
  | none => simp [or_iff_not_imp_left]
  | some id => simp [or_iff_not_imp_left, eq_comm (a := id)]

/-- **A delivery that the dispatch allows keeps the queue confined.** -/
theorem Channel.Confined.push {channel : Channel} {record : Option Json}
    {n : ℕ} (h : channel.Confined documentFor) (htopic : event.collection = channel.collection)
    (hwants : channel.wants event = true)
    (hvisible : event.op ≠ .delete → ∃ document, record = some document ∧
      documentFor n event.collection event.recordId channel.context = some document)
    (hshown : channel.context.role ≠ .owner → event.op = .delete → channel.Told event.recordId) :
    ({ channel with
      queue := channel.queue ++ [⟨event, record⟩]
      sent := channel.sent ++ [(n, ⟨event, record⟩)] } : Channel).Confined documentFor := by
  obtain ⟨hecho, hrecord⟩ := Subscription.wants_iff.mp hwants
  refine ⟨fun delivery hdelivery => ?_, fun p hp => ?_, fun id hid p hp => ?_, fun hne p hp => ?_,
    fun p hp hop => ?_, fun hrole before p after hsplit hop => ?_⟩
  · rcases mem_append.mp hdelivery with hold | hnew
    · obtain ⟨k, hk⟩ := h.queued delivery hold
      exact ⟨k, mem_append_left _ hk⟩
    · obtain rfl := mem_singleton.mp hnew
      exact ⟨n, mem_append_right _ (mem_singleton_self _)⟩
  · rcases mem_append.mp hp with hold | hnew
    · exact h.topic p hold
    · obtain rfl := mem_singleton.mp hnew
      exact htopic
  · rcases mem_append.mp hp with hold | hnew
    · exact h.record id hid p hold
    · obtain rfl := mem_singleton.mp hnew
      exact hrecord id hid
  · rcases mem_append.mp hp with hold | hnew
    · exact h.echo hne p hold
    · obtain rfl := mem_singleton.mp hnew
      exact hecho hne
  · rcases mem_append.mp hp with hold | hnew
    · exact h.visible p hold hop
    · obtain rfl := mem_singleton.mp hnew
      exact hvisible hop
  · -- Either the deletion is the new delivery, or it was in the queue before.
    rcases eq_nil_or_concat after with rfl | ⟨rest, last, rfl⟩
    · obtain ⟨hbefore, hp⟩ := append_inj' hsplit rfl
      obtain rfl := singleton_inj.mp hp
      obtain rfl := hbefore
      exact hshown hrole hop
    · rw [concat_eq_append, ← cons_append, ← append_assoc] at hsplit
      obtain ⟨hsent, -⟩ := append_inj' hsplit rfl
      exact h.shown hrole before p rest hsent hop

/-- What a target needs besides its filters: the event is visible, or was shown. -/
theorem Target.allowed_cases {target : Target} {documents : Documents}
    (hdocuments : documents.Sound documentFor hub event)
    (h : target.allowed event documents = true) :
    (event.op ≠ .delete → ∃ document, (documents.lookup target.context).join = some document ∧
      documentFor hub.dispatches event.collection event.recordId target.context = some document) ∧
    (event.op = .delete → target.context.role ≠ .owner → target.known = true) := by
  unfold Target.allowed at h
  split_ifs at h with hop
  · refine ⟨fun hne => absurd hop hne, fun _ hrole => ?_⟩
    simpa [hrole] using h
  · refine ⟨fun _ => ?_, fun hdelete => absurd hdelete hop⟩
    obtain ⟨answer, hlookup, hanswer⟩ := (Option.any_eq_true _ _).mp h
    obtain ⟨document, rfl⟩ := Option.isSome_iff_exists.mp hanswer
    refine ⟨document, by rw [hlookup]; rfl, ?_⟩
    obtain ⟨before, after, hsplit, -⟩ := lookup_eq_some_iff.mp hlookup
    have hmem : (target.context, some document) ∈ documents := by
      rw [hsplit]
      exact mem_append_right _ mem_cons_self
    exact (hdocuments _ hmem).symm

/-- `try_send` changes nothing, or puts the delivery into the queue. -/
theorem Hub.trySend_cases (hub : Hub) (id : ℕ) (delivery : Delivered) :
    (∃ n, hub.trySend id delivery = ({ hub with dropped := n }, false)) ∨
    hub.trySend id delivery = (hub.onChannel id fun channel => { channel with
      queue := channel.queue ++ [delivery]
      sent := channel.sent ++ [(hub.dispatches, delivery)] }, true) := by
  unfold Hub.trySend
  split
  · exact .inl ⟨hub.dropped, rfl⟩
  · split_ifs
    · exact .inl ⟨hub.dropped, rfl⟩
    · exact .inr rfl
    · exact .inl ⟨_, rfl⟩

/-- **Sending to a target that the dispatch allows.** -/
theorem Hub.Sound.trySend (h : hub.Sound documentFor) {target : Target}
    {documents : Documents} (htarget : target.Sound hub event)
    (hdocuments : documents.Sound documentFor hub event)
    (hallowed : target.allowed event documents = true) {taken : Bool}
    (hsend : hub.trySend target.id ⟨event, (documents.lookup target.context).join⟩ = (next, taken)) :
    next.Sound documentFor ∧ hub.Grows next ∧ next.dispatches = hub.dispatches ∧
      next.phase = hub.phase ∧ (taken = true → ∃ subscription, next.Has target.id subscription
        fun channel => channel.Told event.recordId) := by
  obtain ⟨subscription, hcollection, hcontext, hwants, hhas⟩ := htarget
  obtain ⟨hvisible, hknown⟩ := Target.allowed_cases hdocuments hallowed
  rcases hub.trySend_cases target.id ⟨event, (documents.lookup target.context).join⟩ with
    ⟨n, hnot⟩ | htook
  · obtain ⟨rfl, rfl⟩ := Prod.mk.inj (hnot.symm.trans hsend)
    refine ⟨?_, Hub.Grows.refl hub, rfl, rfl, fun htaken => by cases htaken⟩
    exact h.of_grows (Hub.Grows.refl hub) rfl rfl rfl rfl (fun _ hnone => hnone) h.confined
  · obtain ⟨rfl, rfl⟩ := Prod.mk.inj (htook.symm.trans hsend)
    have hgrows (channel : Channel) : channel.toSubscription = channel.toSubscription ∧
        channel.sent ⊆ channel.sent ++ [(hub.dispatches,
          (⟨event, (documents.lookup target.context).join⟩ : Delivered))] :=
      ⟨rfl, subset_append_left _ _⟩
    refine ⟨h.onChannel hgrows fun channel hchannel => ?_, Hub.grows_onChannel hgrows, rfl, rfl,
      fun _ => ⟨subscription, ?_⟩⟩
    · obtain ⟨same, hsame, rfl, htold⟩ := hhas
      obtain rfl := Option.some.inj (hchannel.symm.trans hsame)
      refine (h.confined _ _ hchannel).push hcollection.symm hwants ?_ fun hrole hop => ?_
      · rw [hcontext]
        exact hvisible
      · rw [hcontext] at hrole
        exact htold (hknown hop hrole)
    · obtain ⟨channel, hchannel, hsame, -⟩ := hhas
      refine ⟨_, (Hub.onChannel_channels.trans (if_pos rfl)).trans (congrArg _ hchannel), hsame, ?_⟩
      exact ⟨(hub.dispatches, _), mem_append_right _ (mem_singleton_self _), rfl⟩

/-- A change of the registry under one collection. -/
theorem Hub.Sound.of_subscribers (h : hub.Sound documentFor) {collection : String}
    {list : List Subscriber}
    (hlist : ∀ subscriber ∈ list, subscriber.collection = collection ∧ subscriber.Sound hub) :
    ({ hub with subscribers := Function.update hub.subscribers collection list } : Hub).Sound
      documentFor := by
  refine ⟨h.fresh, fun other subscriber hsubscriber => ?_,
    (Hub.Grows.refl hub).phase rfl h.phase, h.confined⟩
  dsimp only at hsubscriber
  rw [Function.update_apply] at hsubscriber
  split_ifs at hsubscriber with hother
  · obtain rfl := hother
    exact hlist subscriber hsubscriber
  · exact h.subscribers other subscriber hsubscriber

theorem Hub.Sound.subscribe (h : hub.Sound documentFor) (subscription : Subscription) :
    (hub.subscribe subscription).Sound documentFor := by
  have hchannels (id : ℕ) : (hub.subscribe subscription).channels id =
      if id = hub.nextId then some { subscription with queue := [], isOpen := true, sent := [] }
      else hub.channels id := Function.update_apply _ _ _ _
  have hgrows : hub.Grows (hub.subscribe subscription) := by
    intro id channel hchannel
    have hne : id ≠ hub.nextId := by
      rintro rfl
      rw [h.fresh _ le_rfl] at hchannel
      cases hchannel
    exact ⟨channel, (hchannels id).trans ((if_neg hne).trans hchannel), rfl, List.Subset.refl _⟩
  refine ⟨fun id hid => ?_, fun collection subscriber hsubscriber => ?_, hgrows.phase rfl h.phase,
    fun id channel hchannel => ?_⟩
  · have hlt : hub.nextId < id := hid
    rw [hchannels, if_neg (by omega)]
    exact h.fresh id hlt.le
  · rw [show (hub.subscribe subscription).subscribers collection = _ from
      Function.update_apply _ _ _ _] at hsubscriber
    split_ifs at hsubscriber with hsame
    · obtain rfl := hsame
      rcases mem_append.mp hsubscriber with hold | hnew
      · exact (h.subscribers _ _ hold).imp_right hgrows.subscriber
      · obtain rfl := mem_singleton.mp hnew
        exact ⟨rfl, _, (hchannels _).trans (if_pos rfl), rfl, fun recordId hrecord => by cases hrecord⟩
    · exact (h.subscribers _ _ hsubscriber).imp_right hgrows.subscriber
  · rw [hchannels] at hchannel
    split_ifs at hchannel
    · obtain rfl := Option.some.inj hchannel
      exact ⟨by simp, by simp, by simp, by simp, by simp, by simp⟩
    · exact h.confined id channel hchannel

/-- The targets of an event want it. -/
theorem Hub.Sound.targets (h : hub.Sound documentFor) {target : Target}
    (htarget : target ∈ targets (hub.subscribers event.collection) event) :
    target.Sound hub event := by
  obtain ⟨subscriber, hmem, rfl⟩ := mem_map.mp htarget
  obtain ⟨hsubscriber, hwants⟩ := mem_filter.mp hmem
  obtain ⟨hcollection, channel, hchannel, hsame, htold⟩ := h.subscribers _ _ hsubscriber
  refine ⟨subscriber.toSubscription, hcollection, rfl, hwants, channel, hchannel, hsame, ?_⟩
  intro hknown
  obtain ⟨recordId, hseen, hid⟩ := any_eq_true.mp hknown
  obtain rfl := of_decide_eq_true hid
  exact htold _ hseen

theorem Hub.Sound.start (h : hub.Sound documentFor) (event : ChangeEvent) :
    (hub.start event).Sound documentFor := by
  have hgrows : hub.Grows (hub.start event) := Hub.Grows.refl hub
  refine ⟨h.fresh, h.subscribers, ?_, h.confined⟩
  have htargets (target : Target)
      (htarget : target ∈ Realtime.targets (hub.subscribers event.collection) event) :
      target.Sound (hub.start event) event := hgrows.target (h.targets htarget)
  show Phase.Sound documentFor _ (if _ then _ else _)
  split_ifs
  · trivial
  · exact ⟨htargets, ⟨fun p hp => absurd hp not_mem_nil, fun id hid => absurd hid not_mem_nil⟩⟩
  · exact ⟨htargets, fun p hp => absurd hp not_mem_nil⟩

theorem Subscriber.remember_id (subscriber : Subscriber) (recordId : String) :
    (subscriber.remember recordId).id = subscriber.id := by
  simp only [Subscriber.remember]

theorem Subscriber.remember_toSubscription (subscriber : Subscriber) (recordId : String) :
    (subscriber.remember recordId).toSubscription = subscriber.toSubscription := by
  simp only [Subscriber.remember]

theorem Subscriber.mem_remember {subscriber : Subscriber} {recordId id : String}
    (h : id ∈ (subscriber.remember recordId).seen) : id ∈ subscriber.seen ∨ id = recordId := by
  simp only [Subscriber.remember, recent] at h
  rcases mem_append.mp (mem_of_mem_drop h) with hold | hlast
  · exact .inl hold
  · exact .inr (mem_singleton.mp hlast)

/-- The memory of the last deliveries. -/
theorem Hub.Sound.remember (h : hub.Sound documentFor) {delivered : List ℕ}
    (hdelivered : ∀ id ∈ delivered, ∃ subscription, hub.Has id subscription fun channel =>
      channel.Told event.recordId) : (hub.remember event delivered).Sound documentFor := by
  refine h.of_subscribers fun subscriber hsubscriber => ?_
  obtain ⟨before, hbefore, rfl⟩ := mem_map.mp hsubscriber
  obtain ⟨hcollection, hsound⟩ := h.subscribers _ before hbefore
  split_ifs with hid
  · rw [Subscriber.Sound, before.remember_id, before.remember_toSubscription]
    refine ⟨hcollection, ?_⟩
    obtain ⟨channel, hchannel, hsame, htold⟩ := hsound
    obtain ⟨_, same, hsame', -, hnew⟩ := hdelivered _ hid
    obtain rfl := Option.some.inj (hchannel.symm.trans hsame')
    have hmem (recordId : String) (hrecord : recordId ∈ (before.remember event.recordId).seen) :
        channel.Told recordId := by
      rcases Subscriber.mem_remember hrecord with hold | rfl
      · exact htold recordId hold
      · exact hnew
    exact ⟨channel, hchannel, hsame, hmem⟩
  · exact ⟨hcollection, hsound⟩

theorem Hub.Sound.set_phase (h : hub.Sound documentFor) {phase : Phase}
    (hphase : phase.Sound documentFor hub) :
    ({ hub with phase := phase } : Hub).Sound documentFor :=
  ⟨h.fresh, h.subscribers, (Hub.Grows.refl hub).phase rfl hphase, h.confined⟩

/-- **The next part of a dispatch keeps every queue confined.** -/
theorem Hub.Sound.proceed (h : hub.Sound documentFor)
    (hstep : hub.proceed documentFor = some next) : next.Sound documentFor := by
  unfold Hub.proceed at hstep
  have hphase := h.phase
  split at hstep
  · cases hstep
  · rename_i event list documents heq
    rw [heq] at hphase
    obtain rfl := Option.some.inj hstep
    exact h.set_phase ⟨hphase.1, hphase.2, fun id hid => by cases hid⟩
  · rename_i event list target rest documents heq
    rw [heq] at hphase
    obtain rfl := Option.some.inj hstep
    refine h.set_phase ⟨hphase.1, ?_⟩
    split_ifs
    · exact hphase.2
    · intro p hp
      rcases mem_append.mp hp with hold | hnew
      · exact hphase.2 p hold
      · obtain rfl := mem_singleton.mp hnew
        rfl
  · rename_i event target rest documents delivered heq
    rw [heq] at hphase
    obtain ⟨htargets, hdocuments, hdelivered⟩ := hphase
    obtain ⟨htarget, hrest⟩ := forall_mem_cons.mp htargets
    split_ifs at hstep with hallowed
    · cases hsend : hub.trySend target.id ⟨event, (documents.lookup target.context).join⟩ with
      | mk after taken =>
        obtain ⟨hafter, hgrows, hdispatches, -, htold⟩ :=
          h.trySend htarget hdocuments hallowed hsend
        simp only [hsend] at hstep
        obtain rfl := Option.some.inj hstep
        have hsending : (Phase.sending event rest documents delivered).Sound documentFor hub :=
          ⟨hrest, hdocuments, hdelivered⟩
        obtain ⟨hrest', hdocuments', hdelivered'⟩ := hgrows.phase hdispatches hsending
        refine hafter.set_phase ⟨hrest', hdocuments', fun id hid => ?_⟩
        cases taken with
        | false => exact hdelivered' id hid
        | true =>
          rcases mem_append.mp hid with hold | hnew
          · exact hdelivered' id hold
          · obtain rfl := mem_singleton.mp hnew
            exact htold rfl
    · obtain rfl := Option.some.inj hstep
      exact h.set_phase ⟨hrest, hdocuments, hdelivered⟩
  · rename_i event documents delivered heq
    rw [heq] at hphase
    obtain rfl := Option.some.inj hstep
    exact (h.remember hphase.2.2).set_phase trivial

/-- **What a step keeps.** -/
theorem Hub.Sound.step (h : hub.Sound documentFor) {action : Action}
    (hstep : Hub.Step documentFor hub action next) : next.Sound documentFor := by
  unfold Hub.Step Hub.step at hstep
  cases action with
  | subscribe subscription =>
    obtain rfl := Option.some.inj hstep
    exact h.subscribe subscription
  | unsubscribe collection id =>
    obtain rfl := Option.some.inj hstep
    exact h.of_subscribers fun subscriber hsubscriber =>
      h.subscribers _ _ (mem_of_mem_filter hsubscriber)
  | receive id =>
    obtain rfl := Option.some.inj hstep
    exact h.onChannel (fun channel => ⟨rfl, List.Subset.refl _⟩) fun channel hchannel =>
      (h.confined _ _ hchannel).of_queue rfl rfl (fun _ => mem_of_mem_tail)
  | close id =>
    obtain rfl := Option.some.inj hstep
    exact h.onChannel (fun channel => ⟨rfl, List.Subset.refl _⟩) fun channel hchannel =>
      (h.confined _ _ hchannel).of_queue rfl rfl (List.Subset.refl _)
  | dispatch event =>
    dsimp only at hstep
    split at hstep
    · obtain rfl := Option.some.inj hstep
      exact h.start event
    · cases hstep
    · cases hstep
  | proceed => exact h.proceed hstep

end Steps

/-! ### Runs -/

theorem Hub.sound_new : Hub.new.Sound documentFor where
  fresh _ _ := rfl
  subscribers _ _ hsubscriber := by cases hsubscriber
  phase := trivial
  confined _ _ hchannel := by cases hchannel

/-- **Live delivery never shows more than a read would**: in a run of subscriptions, departures and
dispatches, whatever the database answers, every queue is confined. -/
theorem confined_of_run {actions : List Action} {hub : Hub}
    (hrun : Run (Hub.Step documentFor) Hub.new actions hub) {id : ℕ} {channel : Channel}
    (hchannel : hub.channels id = some channel) : channel.Confined documentFor :=
  (hrun.invariant (I := Hub.Sound documentFor) (fun _ _ _ h hstep => h.step hstep)
    (Hub.sound_new documentFor)).confined id channel hchannel

section Example

/-- An anonymous client subscribes to the posts; one is created, and deleted again. -/
def postRun : List Action :=
  [.subscribe ⟨"posts", none, ⟨.anonymous, "phone"⟩, "phone"⟩,
    .dispatch ⟨1, "posts", .create, "p1", some "laptop"⟩, .proceed, .proceed, .proceed, .proceed,
    .dispatch ⟨2, "posts", .delete, "p1", none⟩, .proceed, .proceed]

/-- The client hears of both. -/
theorem post_delivered : ∃ channel : Channel, channel.queue.length = 2 ∧
    channel.Confined fun _ _ _ _ => some .null := by
  have hexec : ((exec (Hub.step fun _ _ _ _ => some .null) Hub.new postRun).any fun hub =>
      (hub.channels 1).any fun channel => channel.queue.length = 2) = true := by
    decide
  obtain ⟨hub, hhub, hexec⟩ := (Option.any_eq_true _ _).mp hexec
  obtain ⟨channel, hchannel, hqueue⟩ := (Option.any_eq_true _ _).mp hexec
  exact ⟨channel, of_decide_eq_true hqueue, confined_of_run _ (run_of_exec hhub) hchannel⟩

end Example

end Realtime

end LazyPock
