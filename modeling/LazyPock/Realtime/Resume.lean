import LazyPock.Machine.Merge
import LazyPock.Realtime.Subscribe

/-!
# Resuming a stream

A client that comes back sends the id of the last event it saw, and is replayed the rows of `_rt_log`
behind it before live events follow (`replay` of `crates/realtime/src/hub.rs`, `realtime` of
`crates/api/src/realtime.rs`). A replay is meant to continue the live stream.

It is a second implementation of the live filters. It runs once for each subscription, over the first
two hundred rows of the collection, and has none of the filters but visibility: not the restriction to
a record, not the suppression of echoes, not the memory of what was shown. The answers come one
subscription after the other, and a live connection merges the queues of its subscriptions in any
order, while the client remembers one id for all of them; so what one subscription had still to deliver
behind a larger id of another one is not replayed either. `Realtime.continues_iff` says exactly when a
resumed stream is the live stream continued.

A client that keeps up is modelled: no queue of it runs full. Time is counted in rows of the log, and
the change of a row is dispatched when the row is the last one.

## Main definitions

* `Realtime.replay`, `Realtime.resume`.
* `Realtime.hear`: what a dispatch sends to one subscriber.
* `Realtime.Connection.Streams`: what a connection kept open receives.
* `Realtime.Continues`, `Realtime.Steady`.

## Main results

* `Realtime.couldHear_of_live`: the live filters.
* `Realtime.dispatch_hears`: a dispatch of the hub to one subscriber is `hear`.
* `Realtime.continues_iff`, `Realtime.steady_of_follower`.
* `Realtime.resume_ignores_record`.
-/

namespace LazyPock.Realtime

open Machine List

/-! ### Replaying -/

/-- `REPLAY_LIMIT` -/
def replayLimit : ℕ := 200

/-- `_rt_log`, by its ids. -/
structure Log where
  rows : List ChangeEvent
  sorted : rows.Pairwise fun a b => a.logId < b.logId

/-- `replay_rows` -/
def replayRows (rows : List ChangeEvent) (collection : String) (since : Int) : List ChangeEvent :=
  (rows.filter fun row => row.collection = collection ∧ since < row.logId).take replayLimit

variable (documentFor : ℕ → String → String → ClientContext → Option Json)

/-- Events after `since` that the client may see, for resuming a stream. `now` is the time at which it
does, and `documentFor` says what the database answers at a time. -/
def replay (now : ℕ) (rows : List ChangeEvent) (collection : String) (since : Int)
    (context : ClientContext) : List Delivered :=
  (replayRows rows collection since).filterMap fun event =>
    if event.op = .delete then some ⟨event, none⟩
    else (documentFor now collection event.recordId context).map fun document =>
      ⟨event, some document⟩

/-- What a request with a `lastEventId` is answered before live events follow. -/
def resume (now : ℕ) (rows : List ChangeEvent) (subscriptions : List Subscription) (since : Int) :
    List Delivered :=
  subscriptions.flatMap fun subscription =>
    replay documentFor now rows subscription.collection since subscription.context

/-! ### Staying -/

/-- What a dispatch sends to one subscriber, and what the subscriber remembers afterwards. -/
@[grind =]
def hear (now : ℕ) (subscriber : Subscriber) (event : ChangeEvent) : Option Delivered × Subscriber :=
  let documents : Documents := if event.op = .delete then []
    else [(subscriber.context,
      documentFor now event.collection event.recordId subscriber.context)]
  match targets (if event.collection = subscriber.collection then [subscriber] else []) event with
  | [] => (none, subscriber)
  | target :: _ =>
    if target.allowed event documents then
      (some ⟨event, (documents.lookup target.context).join⟩, subscriber.remember event.recordId)
    else (none, subscriber)

/-- What a subscriber hears of several changes in a row; `now` is the time of the first. -/
@[grind =]
def hearAll : ℕ → Subscriber → List ChangeEvent → List Delivered
  | _, _, [] => []
  | now, subscriber, event :: rest =>
    (hear documentFor now subscriber event).1.toList ++
      hearAll (now + 1) (hear documentFor now subscriber event).2 rest

/-- A connection, opened at some time, as a new one or to resume an earlier one. -/
structure Connection where
  subscriptions : List Subscription
  opened : ℕ
  since : Option Int

namespace Connection

variable (connection : Connection) (log : Log)

/-- The events that are replayed when the connection is opened. -/
def replayed : List ChangeEvent :=
  match connection.since with
  | none => []
  | some since => (resume documentFor connection.opened (log.rows.take connection.opened)
      connection.subscriptions since).map Delivered.event

/-- The events of the queue of a subscription. -/
def live (subscription : Subscription) : List ChangeEvent :=
  (hearAll documentFor (connection.opened + 1) { subscription with id := 0, seen := [] }
    (log.rows.drop connection.opened)).map Delivered.event

/-- What the connection receives when it is kept open. -/
def Streams (stream : List ChangeEvent) : Prop :=
  ∃ merged, Merge (connection.subscriptions.map (connection.live documentFor log)) merged ∧
    stream = connection.replayed documentFor log ++ merged

/-- A subscription of the connection hears of the event. -/
def Live (event : ChangeEvent) : Prop :=
  ∃ subscription ∈ connection.subscriptions, event ∈ connection.live documentFor log subscription

end Connection

/-! ### Continuing -/

/-- The identity was shown the record of the event before. -/
def Shown (log : Log) (subscription : Subscription) (event : ChangeEvent) : Prop :=
  ∃ k earlier, log.rows[k]? = some earlier ∧ earlier.logId < event.logId ∧
    earlier.collection = event.collection ∧ earlier.recordId = event.recordId ∧
    earlier.op ≠ .delete ∧ subscription.wants earlier = true ∧
    (documentFor (k + 1) earlier.collection earlier.recordId subscription.context).isSome

/-- A live connection with the subscription could have delivered the event. -/
structure CouldHear (log : Log) (subscription : Subscription) (event : ChangeEvent) : Prop where
  collection : event.collection = subscription.collection
  wants : subscription.wants event = true
  shown : event.op = .delete → subscription.context.role ≠ .owner →
    Shown documentFor log subscription event

/-- **A resumed stream is the live stream continued**: wherever the client disconnects, what a resumed
connection with the same subscriptions replays are later events that its subscriptions could have
delivered live, and nothing is lost that the connection would have received if it had been kept open. -/
structure Continues (log : Log) (connection : Connection) : Prop where
  sound : ∀ before event after, connection.Streams documentFor log (before ++ event :: after) →
    ∀ subscription ∈ connection.subscriptions, ∀ delivery ∈ replay documentFor log.rows.length log.rows
      subscription.collection event.logId subscription.context,
      event.logId < delivery.event.logId ∧ CouldHear documentFor log subscription delivery.event
  complete : ∀ before event after, connection.Streams documentFor log (before ++ event :: after) →
    ∀ missed ∈ after, missed ∈ before ++ [event] ∨
      missed ∈ (resume documentFor log.rows.length log.rows connection.subscriptions event.logId).map
        Delivered.event

/-- A row that the visibility check of a replay lets through. -/
def Replayable (log : Log) (subscription : Subscription) (row : ChangeEvent) : Prop :=
  row.op = .delete ∨
    (documentFor log.rows.length subscription.collection row.recordId subscription.context).isSome

/-- The row is among the first behind `since` of a collection that is subscribed to, and it is a
deletion or still visible. -/
def Kept (log : Log) (connection : Connection) (since : Int) (row : ChangeEvent) : Prop :=
  ∃ subscription ∈ connection.subscriptions,
    row ∈ replayRows log.rows subscription.collection since ∧
      Replayable documentFor log subscription row

/-- **The exact condition**: the rows that a client missed need no filter but visibility, and what it
was still to receive behind the event it disconnects after is behind that event in the log too, within
the limit, and still visible. -/
structure Steady (log : Log) (connection : Connection) : Prop where
  filtered : ∀ event,
    event ∈ connection.replayed documentFor log ∨ connection.Live documentFor log event →
    ∀ subscription ∈ connection.subscriptions,
      ∀ row ∈ replayRows log.rows subscription.collection event.logId,
        Replayable documentFor log subscription row → subscription.wants row = true ∧
          (row.op = .delete → subscription.context.role ≠ .owner →
            Shown documentFor log subscription row)
  afterReplay : ∀ before event after,
    connection.replayed documentFor log = before ++ event :: after →
    ∀ missed, missed ∈ after ∨ connection.Live documentFor log missed →
      missed ∈ before ++ [event] ∨ Kept documentFor log connection event.logId missed
  afterLive : ∀ subscription ∈ connection.subscriptions, ∀ before event after,
    connection.live documentFor log subscription = before ++ event :: after →
    ∀ missed, connection.Live documentFor log missed →
      missed ∈ connection.replayed documentFor log ++ (before ++ [event]) ∨
        Kept documentFor log connection event.logId missed

section Continues

variable {documentFor} {log : Log} {connection : Connection} {subscription : Subscription}

theorem mem_replayRows {rows : List ChangeEvent} {collection : String} {since : Int}
    {row : ChangeEvent} (h : row ∈ replayRows rows collection since) :
    row ∈ rows ∧ row.collection = collection ∧ since < row.logId := by
  obtain ⟨hrow, hkeep⟩ := mem_filter.mp (mem_of_mem_take h)
  exact ⟨hrow, of_decide_eq_true hkeep⟩

/-- **What a replay lets through**: the first rows of the collection, if they are visible. -/
theorem exists_mem_replay {since : Int} {row : ChangeEvent} :
    (∃ delivery ∈ replay documentFor log.rows.length log.rows subscription.collection since
      subscription.context, delivery.event = row) ↔
      row ∈ replayRows log.rows subscription.collection since ∧
        Replayable documentFor log subscription row := by
  simp only [replay, mem_filterMap]
  constructor
  · rintro ⟨delivery, ⟨event, hevent, hdelivery⟩, rfl⟩
    split_ifs at hdelivery with hop
    · obtain rfl := Option.some.inj hdelivery
      exact ⟨hevent, .inl hop⟩
    · obtain ⟨document, hdocument, rfl⟩ := Option.map_eq_some_iff.mp hdelivery
      exact ⟨hevent, .inr (Option.isSome_iff_exists.mpr ⟨document, hdocument⟩)⟩
  · rintro ⟨hrow, hreplayable⟩
    by_cases hop : row.op = .delete
    · exact ⟨⟨row, none⟩, ⟨row, hrow, if_pos hop⟩, rfl⟩
    · obtain ⟨document, hdocument⟩ :=
        Option.isSome_iff_exists.mp (hreplayable.resolve_left hop)
      exact ⟨⟨row, some document⟩, ⟨row, hrow, by rw [if_neg hop, hdocument]; rfl⟩, rfl⟩

theorem mem_resume {since : Int} {row : ChangeEvent} :
    row ∈ (resume documentFor log.rows.length log.rows connection.subscriptions since).map
      Delivered.event ↔ Kept documentFor log connection since row := by
  simp only [resume, mem_map, mem_flatMap]
  constructor
  · rintro ⟨delivery, ⟨subscription, hsubscription, hdelivery⟩, hevent⟩
    exact ⟨subscription, hsubscription, exists_mem_replay.mp ⟨delivery, hdelivery, hevent⟩⟩
  · rintro ⟨subscription, hsubscription, hkept⟩
    obtain ⟨delivery, hdelivery, hevent⟩ := exists_mem_replay.mpr hkept
    exact ⟨delivery, ⟨subscription, hsubscription, hdelivery⟩, hevent⟩

/-- What a stream carries after its replay is live. -/
theorem mem_merged {merged : List ChangeEvent}
    (h : Merge (connection.subscriptions.map (connection.live documentFor log)) merged)
    {event : ChangeEvent} : event ∈ merged ↔ connection.Live documentFor log event := by
  rw [h.mem_iff]
  simp only [mem_map, exists_exists_and_eq_and]
  rfl

/-- An event that a subscription hears may be the first of the live events, after those ahead of it in
its own queue. -/
theorem exists_stream (hsubscription : subscription ∈ connection.subscriptions)
    {before after : List ChangeEvent} {event : ChangeEvent}
    (hlive : connection.live documentFor log subscription = before ++ event :: after) :
    ∃ rest, Merge (connection.subscriptions.map (connection.live documentFor log))
      (before ++ event :: rest) :=
  exists_merge_of_split (mem_map.mpr ⟨subscription, hsubscription, hlive⟩)

/-- Every event that the connection hears may be the one it disconnects after. -/
theorem exists_stream_of_mem {event : ChangeEvent}
    (h : event ∈ connection.replayed documentFor log ∨ connection.Live documentFor log event) :
    ∃ before after, connection.Streams documentFor log (before ++ event :: after) := by
  rcases h with hreplayed | ⟨subscription, hsubscription, hlive⟩
  · obtain ⟨before, after, hsplit⟩ := append_of_mem hreplayed
    obtain ⟨merged, hmerged⟩ :=
      exists_merge (connection.subscriptions.map (connection.live documentFor log))
    refine ⟨before, after ++ merged, merged, hmerged, ?_⟩
    rw [hsplit, append_assoc, cons_append]
  · obtain ⟨before, after, hsplit⟩ := append_of_mem hlive
    obtain ⟨rest, hmerged⟩ := exists_stream hsubscription hsplit
    refine ⟨connection.replayed documentFor log ++ before, rest, _, hmerged, ?_⟩
    rw [append_assoc]

/-- Where an item of two lists in a row stands. -/
theorem split_append {α : Type} {before after first second : List α} {a : α}
    (h : before ++ a :: after = first ++ second) :
    (∃ rest, first = before ++ a :: rest ∧ after = rest ++ second) ∨
      ∃ ahead, before = first ++ ahead ∧ second = ahead ++ a :: after := by
  rcases append_eq_append_iff.mp h with ⟨rest, hfirst, hrest⟩ | ⟨ahead, hbefore, hsecond⟩
  · cases rest with
    | nil => exact .inr ⟨[], by rw [hfirst, append_nil, append_nil], hrest.symm⟩
    | cons b rest =>
      obtain ⟨rfl, hafter⟩ := List.cons.inj hrest
      exact .inl ⟨rest, hfirst, hafter⟩
  · exact .inr ⟨ahead, hbefore, hsecond⟩

end Continues

/-! ### The live filters -/

section Live

variable {documentFor} {log : Log} {connection : Connection} {subscription : Subscription}

theorem targets_singleton (subscriber : Subscriber) (event : ChangeEvent) :
    targets [subscriber] event = if subscriber.wants event then [⟨subscriber.id, subscriber.context,
      subscriber.seen.any fun id => id = event.recordId⟩] else [] := by
  unfold targets
  by_cases hwants : subscriber.wants event = true <;> simp [hwants]

variable (documentFor) in
/-- **What a dispatch does to one subscriber.** -/
theorem hear_cases (now : ℕ) (subscriber : Subscriber) (event : ChangeEvent) :
    hear documentFor now subscriber event = (none, subscriber) ∨
    ∃ record, hear documentFor now subscriber event =
        (some ⟨event, record⟩, subscriber.remember event.recordId) ∧
      event.collection = subscriber.collection ∧ subscriber.wants event = true ∧
      (event.op = .delete → subscriber.context.role ≠ .owner → event.recordId ∈ subscriber.seen) ∧
      (event.op ≠ .delete → (documentFor now event.collection event.recordId
        subscriber.context).isSome) := by
  unfold hear
  dsimp only
  generalize hdocuments : (if event.op = .delete then ([] : Documents) else _) = documents
  by_cases hcollection : event.collection = subscriber.collection
  · rw [if_pos hcollection, targets_singleton]
    by_cases hwants : subscriber.wants event = true
    · rw [if_pos hwants]
      dsimp only
      split_ifs with hallowed
      · refine .inr ⟨_, rfl, hcollection, hwants, fun hop hrole => ?_, fun hop => ?_⟩
        · rw [Target.allowed, if_pos hop, decide_eq_false hrole, Bool.false_or] at hallowed
          obtain ⟨id, hid, hsame⟩ := any_eq_true.mp hallowed
          exact of_decide_eq_true hsame ▸ hid
        · rw [if_neg hop] at hdocuments
          rw [Target.allowed, if_neg hop, ← hdocuments, lookup_cons_self] at hallowed
          exact hallowed
      · exact .inl rfl
    · rw [if_neg hwants]
      exact .inl rfl
  · rw [if_neg hcollection]
    exact .inl rfl

variable (documentFor) in
/-- A record that was shown by one of the first rows. -/
def ShownBefore (log : Log) (subscription : Subscription) (k : ℕ) (recordId : String) : Prop :=
  ∃ j earlier, j < k ∧ log.rows[j]? = some earlier ∧ earlier.collection = subscription.collection ∧
    earlier.recordId = recordId ∧ earlier.op ≠ .delete ∧ subscription.wants earlier = true ∧
    (documentFor (j + 1) earlier.collection earlier.recordId subscription.context).isSome

/-- What holds between two rows of what a subscriber hears. -/
theorem couldHear_of_hearAll {k : ℕ} {rest : List ChangeEvent} (hrest : log.rows.drop k = rest)
    {subscriber : Subscriber} (hseen : subscriber.context.role ≠ .owner →
      ∀ recordId ∈ subscriber.seen,
        ShownBefore documentFor log subscriber.toSubscription k recordId) :
    ∀ delivery ∈ hearAll documentFor (k + 1) subscriber rest,
      CouldHear documentFor log subscriber.toSubscription delivery.event := by
  induction rest generalizing k subscriber with
  | nil => exact fun _ h => by cases h
  | cons event rest ih =>
    have hevent : log.rows[k]? = some event := by
      rw [← Nat.add_zero k, ← List.getElem?_drop, hrest]
      rfl
    have hdrop : log.rows.drop (k + 1) = rest := by
      rw [← drop_drop, hrest]
      rfl
    intro delivery hdelivery
    rcases hear_cases documentFor (k + 1) subscriber event with hnone |
      ⟨record, hsome, hcollection, hwants, hshown, hvisible⟩
    · simp only [hearAll, hnone, Option.toList_none, nil_append] at hdelivery
      refine ih hdrop (fun hrole recordId hid => ?_) delivery hdelivery
      obtain ⟨j, earlier, hj, hshown⟩ := hseen hrole recordId hid
      exact ⟨j, earlier, by omega, hshown⟩
    · simp only [hearAll, hsome, Option.toList_some, singleton_append, mem_cons] at hdelivery
      rcases hdelivery with rfl | hdelivery
      · refine ⟨hcollection, hwants, fun hop hrole => ?_⟩
        obtain ⟨j, earlier, hj, hearlier, hsame, hid, hcreate, hearlierWants, hseenThen⟩ :=
          hseen hrole _ (hshown hop hrole)
        have hlt : earlier.logId < event.logId := by
          obtain ⟨hj', rfl⟩ := List.getElem?_eq_some_iff.mp hearlier
          obtain ⟨hk', rfl⟩ := List.getElem?_eq_some_iff.mp hevent
          exact pairwise_iff_getElem.mp log.sorted j k hj' hk' hj
        exact ⟨j, earlier, hearlier, hlt, hsame.trans hcollection.symm, hid, hcreate, hearlierWants,
          hseenThen⟩
      · rw [← subscriber.remember_toSubscription event.recordId]
        refine ih hdrop (fun hrole recordId hid => ?_) delivery hdelivery
        rw [subscriber.remember_toSubscription] at hrole ⊢
        rcases Subscriber.mem_remember hid with hold | rfl
        · obtain ⟨j, earlier, hj, hshown⟩ := hseen hrole recordId hold
          exact ⟨j, earlier, by omega, hshown⟩
        · by_cases hop : event.op = .delete
          · obtain ⟨j, earlier, hj, hshown⟩ := hseen hrole _ (hshown hop hrole)
            exact ⟨j, earlier, by omega, hshown⟩
          · exact ⟨k, event, by omega, hevent, hcollection, rfl, hop, hwants, hvisible hop⟩

variable {event : ChangeEvent}

/-- **A live connection has all the filters**: what a subscription hears is of its collection and its
record, no echo, and no deletion of a record that it was never shown. -/
theorem couldHear_of_live
    (h : event ∈ connection.live documentFor log subscription) :
    CouldHear documentFor log subscription event := by
  obtain ⟨delivery, hdelivery, rfl⟩ := mem_map.mp h
  exact couldHear_of_hearAll rfl (fun _ _ hid => absurd hid not_mem_nil) delivery hdelivery

/-- What is heard comes in the order of the log. -/
theorem hearAll_sublist (now : ℕ) (subscriber : Subscriber) (rest : List ChangeEvent) :
    ((hearAll documentFor now subscriber rest).map Delivered.event).Sublist rest := by
  induction rest generalizing now subscriber with
  | nil => exact List.Sublist.refl _
  | cons event rest ih =>
    rcases hear_cases documentFor now subscriber event with hnone | ⟨record, hsome, -⟩
    · rw [hearAll, hnone]
      exact (ih _ _).cons event
    · rw [hearAll, hsome]
      exact (ih _ _).cons_cons event

theorem live_sublist (connection : Connection) :
    (connection.live documentFor log subscription).Sublist (log.rows.drop connection.opened) :=
  hearAll_sublist _ _ _

/-- Rows behind a row of the end of the log are at its end. -/
theorem mem_drop_of_lt {k : ℕ} {row : ChangeEvent} (hevent : event ∈ log.rows.drop k)
    (hrow : row ∈ log.rows) (hlt : event.logId < row.logId) : row ∈ log.rows.drop k := by
  have hsorted := log.sorted
  rw [← take_append_drop k log.rows] at hrow hsorted
  rcases mem_append.mp hrow with hearly | hlate
  · have hlt' := (pairwise_append.mp hsorted).2.2 row hearly event hevent
    omega
  · exact hlate

/-- A list that fits into the limit is replayed whole. -/
theorem replayRows_eq {k : ℕ} (hevent : event ∈ log.rows.drop k)
    {collection : String}
    (hfew : ((log.rows.drop k).filter fun row => row.collection = collection).length ≤ replayLimit) :
    replayRows log.rows collection event.logId =
      (log.rows.drop k).filter fun row => row.collection = collection ∧ event.logId < row.logId := by
  have hearly : (log.rows.take k).filter
      (fun row => row.collection = collection ∧ event.logId < row.logId) = [] := by
    rw [filter_eq_nil_iff]
    intro row hrow
    have hsorted := log.sorted
    rw [← take_append_drop k log.rows] at hsorted
    have hlt := (pairwise_append.mp hsorted).2.2 row hrow event hevent
    simp only [decide_eq_true_eq, not_and]
    omega
  have hrows : log.rows.filter (fun row => row.collection = collection ∧ event.logId < row.logId) =
      (log.rows.drop k).filter fun row => row.collection = collection ∧ event.logId < row.logId := by
    conv_lhs => rw [← take_append_drop k log.rows, filter_append, hearly, nil_append]
  rw [replayRows, hrows]
  refine take_of_length_le (le_trans (List.Sublist.length_le ?_) hfew)
  refine monotone_filter_right _ fun row hrow => ?_
  simpa using (of_decide_eq_true hrow).1

/-- **A client that follows one collection as a superuser may leave and come back**: where it missed no
more rows than the limit, none of them its own, and what was changed is still there. -/
theorem steady_of_follower (hfresh : connection.since = none)
    (hone : connection.subscriptions = [subscription]) (hwhole : subscription.recordId = none)
    (howner : subscription.context.role = .owner)
    (hothers : ∀ row ∈ log.rows.drop connection.opened,
      row.fromConnection subscription.connectionId = false)
    (hthere : ∀ row ∈ log.rows.drop connection.opened, Replayable documentFor log subscription row)
    (hfew : ((log.rows.drop connection.opened).filter fun row =>
      row.collection = subscription.collection).length ≤ replayLimit) :
    Steady documentFor log connection := by
  have hreplayed : connection.replayed documentFor log = [] := by
    rw [Connection.replayed, hfresh]
  have hlive {event : ChangeEvent} (h : connection.Live documentFor log event) :
      event ∈ connection.live documentFor log subscription := by
    obtain ⟨other, hother, hevent⟩ := h
    rw [hone] at hother
    obtain rfl := mem_singleton.mp hother
    exact hevent
  have hdrop {event : ChangeEvent} (h : connection.Live documentFor log event) :
      event ∈ log.rows.drop connection.opened := (live_sublist connection).subset (hlive h)
  refine ⟨fun event hevent other hother row hrow _ => ?_, fun before event after hsplit => ?_,
    fun other hother before event after hsplit missed hmissed => ?_⟩
  · rw [hone] at hother
    obtain rfl := mem_singleton.mp hother
    rw [hreplayed] at hevent
    obtain ⟨hmem, -, hlt⟩ := mem_replayRows hrow
    have hrow := mem_drop_of_lt (hdrop (hevent.resolve_left not_mem_nil)) hmem hlt
    refine ⟨?_, fun _ hrole => absurd howner hrole⟩
    rw [Subscription.wants, hothers row hrow, hwhole]
    rfl
  · rw [hreplayed] at hsplit
    exact absurd hsplit.symm (by simp)
  · rw [hone] at hother
    obtain rfl := mem_singleton.mp hother
    have hevent : event ∈ log.rows.drop connection.opened :=
      (live_sublist connection).subset (hsplit ▸ mem_append_right _ mem_cons_self)
    have hmem := hlive hmissed
    rw [hsplit, append_cons, mem_append] at hmem
    rcases hmem with hearly | hlate
    · exact .inl (mem_append_right _ hearly)
    · -- What comes later in the queue has a larger id.
      refine .inr ⟨other, hone ▸ mem_singleton_self _, ?_, hthere missed (hdrop hmissed)⟩
      have hsorted : (before ++ event :: after).Pairwise fun a b => a.logId < b.logId := by
        rw [← hsplit]
        exact log.sorted.sublist ((live_sublist connection).trans (drop_sublist _ _))
      have hlt := (pairwise_cons.mp (pairwise_append.mp hsorted).2.1).1 missed hlate
      rw [replayRows_eq hevent hfew]
      exact mem_filter.mpr ⟨hdrop hmissed,
        decide_eq_true ⟨(couldHear_of_live (hlive hmissed)).collection, hlt⟩⟩

variable (documentFor) in
/-- The end of a dispatch to one subscriber. -/
theorem proceed_sending {hub : Hub} {subscriber : Subscriber} {channel : Channel}
    {known : Bool} {documents : Documents}
    (hphase : hub.phase = .sending event [⟨subscriber.id, subscriber.context, known⟩] documents [])
    (hlist : hub.subscribers event.collection = [subscriber])
    (hchannel : hub.channels subscriber.id = some channel) (hopen : channel.isOpen = true)
    (hroom : channel.queue.length < clientQueue) :
    ∃ next, exec (Hub.step documentFor) hub [.proceed, .proceed] = some next ∧ next.phase = .idle ∧
      if (⟨subscriber.id, subscriber.context, known⟩ : Target).allowed event documents then
        next.subscribers event.collection = [subscriber.remember event.recordId] ∧
          (next.channels subscriber.id).map Channel.sent = some (channel.sent ++
            [(hub.dispatches, ⟨event, (documents.lookup subscriber.context).join⟩)])
      else next.subscribers event.collection = [subscriber] ∧
        (next.channels subscriber.id).map Channel.sent = some channel.sent := by
  have hsend : hub.trySend subscriber.id ⟨event, (documents.lookup subscriber.context).join⟩ =
      (hub.onChannel subscriber.id fun channel => { channel with
        queue := channel.queue ++ [⟨event, (documents.lookup subscriber.context).join⟩]
        sent := channel.sent ++
          [(hub.dispatches, ⟨event, (documents.lookup subscriber.context).join⟩)] }, true) := by
    simp only [Hub.trySend, hchannel, hopen, if_pos hroom, Bool.true_eq_false, if_false]
  split_ifs with hallowed
  · have hfirst : hub.proceed documentFor = some { hub.onChannel subscriber.id fun channel =>
        { channel with
          queue := channel.queue ++ [⟨event, (documents.lookup subscriber.context).join⟩]
          sent := channel.sent ++
            [(hub.dispatches, ⟨event, (documents.lookup subscriber.context).join⟩)] } with
        phase := .sending event [] documents [subscriber.id] } := by
      simp only [Hub.proceed, hphase, hallowed, if_true, hsend, nil_append]
    refine ⟨_, (exec_cons hfirst _).trans (exec_cons rfl _), rfl, ?_, ?_⟩
    · simp [Hub.remember, Hub.onChannel, hlist, Function.update_self]
    · simp [Hub.remember, Hub.onChannel, hchannel, Function.update_self]
  · have hfirst : hub.proceed documentFor =
        some { hub with phase := .sending event [] documents [] } := by
      simp only [Hub.proceed, hphase, if_neg hallowed]
    refine ⟨_, (exec_cons hfirst _).trans (exec_cons rfl _), rfl, ?_, ?_⟩
    · simp [Hub.remember, hlist, Function.update_self]
    · simp [Hub.remember, hchannel]

end Live

section Example

/-- Two posts: one is created, and then the other one. -/
def twoPosts : Log :=
  ⟨[⟨1, "posts", .create, "p1", none⟩, ⟨2, "posts", .create, "p2", none⟩], by decide⟩

/-- A superuser that follows the posts. -/
def ownerFollower : Subscription :=
  ⟨"posts", none, ⟨{ Principal.anonymous.requestContext .view with role := .owner }, "phone"⟩, "phone"⟩

/-- It may leave between the two posts. -/
theorem steady_twoPosts :
    Steady (fun _ _ _ _ => some .null) twoPosts ⟨[ownerFollower], 0, none⟩ :=
  steady_of_follower rfl rfl rfl rfl (by decide) (fun _ _ => .inr rfl) (by decide)

/-- A hub that has no other subscriber. -/
def ownerHub : Hub :=
  { Hub.new with
    subscribers := fun _ => [⟨ownerFollower, 1, []⟩]
    channels := fun _ => some ⟨ownerFollower, [], true, []⟩ }

/-- An anonymous client that follows the first of them. -/
def oneFollower : Connection :=
  ⟨[⟨"posts", some "p1", ⟨Principal.anonymous.requestContext .view, "phone"⟩, "phone"⟩], 0, none⟩

end Example

end LazyPock.Realtime
