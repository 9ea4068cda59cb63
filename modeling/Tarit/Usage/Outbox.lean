import Mathlib.Algebra.BigOperators.Group.List.Basic
import Mathlib.Algebra.Group.Int.Defs
import Mathlib.Algebra.Group.Nat.Defs
import Mathlib.Algebra.Group.Prod
import Mathlib.Data.List.Perm.Subperm
import Mathlib.Data.List.Sort
import Tarit.Fleet.Records
import Tarit.Lib.Table

/-!
# Usage events from the outbox to the primary store

Every host keeps its usage events in a local outbox. The meter writes runtime events to it. An
execution is metered through a channel in memory, whose writer puts the events into the outbox; a
channel that does not take the event is bypassed. A flusher reads the events not yet sent,
inserts them into the primary store one by one, and marks the batch as sent when all inserts have
succeeded; a failure at any point, or a restart, leaves the batch to be sent again. The primary
store drops an event whose VM, kind and end of window it has already.

An event is delivered when its row is in the primary store, and it is delivered at most once.
None is lost only as long as two events never share VM, kind and end of window, to the microsecond
that the primary store keeps, and none is lost on the way to the outbox: the writer only logs a
write that fails, and the channel ends with the process.
-/
namespace Tarit.Usage

open Lib Fleet Function List

/-! ## Events and stores -/

inductive UsageKind where
  | VmRuntime | Exec
  deriving DecidableEq

/-- `seconds` is a whole number of milliseconds, divided by 1000. -/
structure UsageEvent where
  id : Uuid
  api_key_id : String
  owner_key : String
  host_id : String
  vm_id : Uuid
  kind : UsageKind
  seconds : Option Int
  duration_ms : Option Int
  window_start : Timestamp
  window_end : Timestamp
  created_at : Timestamp
  deriving DecidableEq

structure OutboxRow where
  event : UsageEvent
  sent : Bool
  deriving DecidableEq

def OutboxRow.id (row : OutboxRow) : Uuid := row.event.id

abbrev Outbox := Table OutboxRow.id

def enqueueUsage (event : UsageEvent) (outbox : Outbox) : Outbox := outbox.insert ⟨event, false⟩

def listUnsentUsage (limit : Nat) (outbox : Outbox) : List UsageEvent :=
  (((outbox.rows.filter fun row => !row.sent).map OutboxRow.event).insertionSort
    fun left right => left.created_at ≤ right.created_at).take limit

def markUsageSent (ids : List Uuid) (outbox : Outbox) : Outbox :=
  outbox.update (fun row => ids.contains row.event.id) (fun row => { row with sent := true })
    fun _ => rfl

def pruneSentOutbox (older_than : Timestamp) (outbox : Outbox) : Outbox :=
  outbox.filter fun row => !(row.sent && row.event.created_at < older_than)

/-- What the primary store keeps of an event. -/
def stored (event : UsageEvent) : UsageEvent :=
  { event with
    window_start := normalizeTimestampForPostgres event.window_start
    window_end := normalizeTimestampForPostgres event.window_end
    created_at := normalizeTimestampForPostgres event.created_at }

/-- The constraint `usage_events_dedupe`. -/
def dedupeKey (event : UsageEvent) : Uuid × UsageKind × Timestamp :=
  (event.vm_id, event.kind, normalizeTimestampForPostgres event.window_end)

/-- `INSERT … ON CONFLICT (vm_id, kind, window_end) DO NOTHING`. Another row of the same id is
an error. -/
def insertUsageEvent (event : UsageEvent) (primary : List UsageEvent) : Option (List UsageEvent) :=
  if primary.any fun row => (row.vm_id, row.kind, row.window_end) = dedupeKey event then
    some primary
  else if primary.any fun row => row.id = event.id then none
  else some (primary ++ [stored event])

/-! ## Runs -/

/-- The flusher of a host between two inserts: the batch, and what is left of it. -/
structure Flush where
  batch : List UsageEvent
  rest : List UsageEvent

/-- `channel` holds the `StoreWrite::Usage` operations that the writer has not received yet. -/
structure Host where
  outbox : Outbox
  channel : List UsageEvent
  flush : Option Flush

/-- `enqueued` are all events that were ever metered. -/
structure State (H : Type) where
  hosts : H → Host
  primary : List UsageEvent
  enqueued : List UsageEvent

def flushBatch : Nat := 500

section Step

variable {H : Type} [DecidableEq H]

def State.setHost (s : State H) (h : H) (host : Host) : State H :=
  { s with hosts := update s.hosts h host }

theorem State.setHost_self (s : State H) (h : H) (host : Host) :
    (s.setHost h host).hosts h = host :=
  update_self ..

theorem State.setHost_of_ne (s : State H) {h h' : H} (hne : h' ≠ h) (host : Host) :
    (s.setHost h host).hosts h' = s.hosts h' :=
  update_of_ne hne ..

/-- What a condition on runs may speak about. -/
inductive Hazard where
  | meter (event : UsageEvent)
  /-- Events are given up on the way to the outbox. -/
  | lose (events : List UsageEvent)

/-- The id of an event is a fresh random one. -/
inductive Step (ok : State H → Hazard → Prop) : State H → State H → Prop where
  /-- `meter_exec`: the channel takes the event. -/
  | send {s : State H} (h : H) (event : UsageEvent) (hok : ok s (.meter event))
      (hid : ∀ e ∈ s.enqueued, e.id ≠ event.id) :
      Step ok s { s.setHost h { s.hosts h with channel := (s.hosts h).channel ++ [event] } with
        enqueued := event :: s.enqueued }
  /-- The meter, or `meter_exec` when the channel does not take the event. -/
  | enqueue {s : State H} (h : H) (event : UsageEvent) (hok : ok s (.meter event))
      (hid : ∀ e ∈ s.enqueued, e.id ≠ event.id) :
      Step ok s
        { s.setHost h { s.hosts h with outbox := enqueueUsage event (s.hosts h).outbox } with
        enqueued := event :: s.enqueued }
  /-- Neither the channel nor the outbox takes the event. -/
  | refuse {s : State H} (h : H) (event : UsageEvent) (hok : ok s (.meter event))
      (hlost : ok s (.lose [event])) (hid : ∀ e ∈ s.enqueued, e.id ≠ event.id) :
      Step ok s { s with enqueued := event :: s.enqueued }
  | write {s : State H} (h : H) {event : UsageEvent} {rest : List UsageEvent}
      (hchannel : (s.hosts h).channel = event :: rest) :
      Step ok s (s.setHost h { s.hosts h with
        outbox := enqueueUsage event (s.hosts h).outbox, channel := rest })
  /-- The writer logs an `enqueue_usage` that fails and goes on. -/
  | writeFails {s : State H} (h : H) {event : UsageEvent} {rest : List UsageEvent}
      (hchannel : (s.hosts h).channel = event :: rest) (hlost : ok s (.lose [event])) :
      Step ok s (s.setHost h { s.hosts h with channel := rest })
  | read {s : State H} (h : H) (hflush : (s.hosts h).flush = none) :
      Step ok s (s.setHost h { s.hosts h with
        flush := some ⟨listUnsentUsage flushBatch (s.hosts h).outbox,
          listUnsentUsage flushBatch (s.hosts h).outbox⟩ })
  | insert {s : State H} (h : H) {batch : List UsageEvent} {event : UsageEvent}
      {rest primary : List UsageEvent} (hflush : (s.hosts h).flush = some ⟨batch, event :: rest⟩)
      (hinsert : insertUsageEvent event s.primary = some primary) :
      Step ok s { s.setHost h { s.hosts h with flush := some ⟨batch, rest⟩ } with primary }
  | mark {s : State H} (h : H) {batch : List UsageEvent}
      (hflush : (s.hosts h).flush = some ⟨batch, []⟩) :
      Step ok s (s.setHost h { s.hosts h with
        outbox := markUsageSent (batch.map UsageEvent.id) (s.hosts h).outbox, flush := none })
  /-- A failed insert or mark ends the flush. An insert that has failed may have been made. -/
  | abandon {s : State H} (h : H) : Step ok s (s.setHost h { s.hosts h with flush := none })
  /-- The writer stops at a shutdown, and what is in the channel goes with the process. -/
  | restart {s : State H} (h : H) (hlost : ok s (.lose (s.hosts h).channel)) :
      Step ok s (s.setHost h { s.hosts h with channel := [], flush := none })
  | prune {s : State H} (h : H) (older_than : Timestamp) :
      Step ok s (s.setHost h
        { s.hosts h with outbox := pruneSentOutbox older_than (s.hosts h).outbox })

inductive Reaches (ok : State H → Hazard → Prop) : State H → Prop where
  | init : Reaches ok ⟨fun _ => ⟨∅, [], none⟩, [], []⟩
  | step {s s' : State H} : Reaches ok s → Step ok s s' → Reaches ok s'

/-- No event is left to be written or sent. -/
def Flushed (s : State H) : Prop :=
  ∀ h, (s.hosts h).channel = [] ∧ ∀ row ∈ (s.hosts h).outbox.rows, row.sent = true

/-- Milliseconds of runtime, milliseconds of execution, and the number of events. -/
def amount (event : UsageEvent) : Int × Int × Nat :=
  (event.seconds.getD 0, event.duration_ms.getD 0, 1)

def total (vm_id : Uuid) (kind : UsageKind) (events : List UsageEvent) : Int × Int × Nat :=
  ((events.filter fun event => event.vm_id = vm_id && event.kind = kind).map amount).sum

/-! ## The invariant -/

/-- The event is on its way to the primary store. -/
def Host.Holds (host : Host) (event : UsageEvent) : Prop :=
  event ∈ host.channel ∨ ⟨event, false⟩ ∈ host.outbox.rows

/-- What a host keeps was metered, and what it has marked as sent is delivered. -/
structure Host.Sound (host : Host) (enqueued delivered : List UsageEvent) : Prop where
  channel : host.channel.Nodup
  unwritten : ∀ e ∈ host.channel, e ∈ enqueued ∧ ∀ row ∈ host.outbox.rows, row.event ≠ e
  rows : ∀ row ∈ host.outbox.rows,
    row.event ∈ enqueued ∧ (row.sent = true → row.event ∈ delivered)
  flush : ∀ flush, host.flush = some flush →
    (∀ e ∈ flush.batch, e ∈ enqueued ∧ (e ∈ flush.rest ∨ e ∈ delivered)) ∧
      ∀ e ∈ flush.rest, e ∈ flush.batch

/-- `delivered` are the events in the primary store, in its order. -/
structure Invariant (s : State H) (delivered : List UsageEvent) : Prop where
  primary : s.primary = delivered.map stored
  nodup : delivered.Nodup
  enqueued : ∀ e ∈ delivered, e ∈ s.enqueued
  unique : s.enqueued.Nodup
  ids : ∀ e ∈ s.enqueued, ∀ e' ∈ s.enqueued, e.id = e'.id → e = e'
  keys : ∀ e ∈ s.enqueued, ∀ e' ∈ s.enqueued, dedupeKey e = dedupeKey e' → e = e'
  /-- No event is lost. -/
  kept : ∀ e ∈ s.enqueued, e ∈ delivered ∨ ∃ h, (s.hosts h).Holds e
  hosts : ∀ h, (s.hosts h).Sound s.enqueued delivered

/-- Distinct events differ in VM, kind or end of window, and no event is given up before it is in
the outbox. -/
def NoneLost (s : State H) : Hazard → Prop
  | .meter event => ∀ e ∈ s.enqueued, dedupeKey e ≠ dedupeKey event
  | .lose events => events = []

variable {s s' : State H} {delivered : List UsageEvent}

variable {event : UsageEvent}

theorem mem_listUnsentUsage {limit : Nat} {outbox : Outbox}
    (h : event ∈ listUnsentUsage limit outbox) : ∃ row ∈ outbox.rows, row.event = event := by
  have hsorted := mem_of_mem_take h
  rw [mem_insertionSort] at hsorted
  obtain ⟨row, hrow, hevent⟩ := mem_map.mp hsorted
  exact ⟨row, (mem_filter.mp hrow).1, hevent⟩

theorem Host.Sound.mono {host : Host} {enqueued enqueued' delivered delivered' : List UsageEvent}
    (h : host.Sound enqueued delivered) (henqueued : enqueued ⊆ enqueued')
    (hdelivered : delivered ⊆ delivered') : host.Sound enqueued' delivered' where
  channel := h.channel
  unwritten e he := ⟨henqueued (h.unwritten e he).1, (h.unwritten e he).2⟩
  rows row hrow := ⟨henqueued (h.rows row hrow).1, fun hsent =>
    hdelivered ((h.rows row hrow).2 hsent)⟩
  flush flush hf :=
    ⟨fun e he => ⟨henqueued ((h.flush flush hf).1 e he).1,
      ((h.flush flush hf).1 e he).2.imp_right fun he => hdelivered he⟩, (h.flush flush hf).2⟩

/-- One host changes, and what it held it still holds or has delivered. -/
theorem Invariant.setHost (hs : Invariant s delivered) (h : H) (host : Host)
    (hkept : ∀ e, (s.hosts h).Holds e → e ∈ delivered ∨ host.Holds e)
    (hsound : host.Sound s.enqueued delivered) : Invariant (s.setHost h host) delivered where
  primary := hs.primary
  nodup := hs.nodup
  enqueued := hs.enqueued
  unique := hs.unique
  ids := hs.ids
  keys := hs.keys
  kept e he := by
    obtain hdelivered | ⟨h', hholds⟩ := hs.kept e he
    · exact .inl hdelivered
    by_cases hh : h' = h
    · subst hh
      refine (hkept e hholds).imp_right fun hholds' => ⟨h', ?_⟩
      rw [State.setHost_self]
      exact hholds'
    · refine .inr ⟨h', ?_⟩
      rw [State.setHost_of_ne s hh]
      exact hholds
  hosts h' := by
    by_cases hh : h' = h
    · subst hh
      rw [State.setHost_self]
      exact hsound
    · rw [State.setHost_of_ne s hh]
      exact hs.hosts h'

omit [DecidableEq H] in
/-- An event that is new to the primary is stored there once. -/
theorem Invariant.deliver (hs : Invariant s delivered) (hevent : event ∈ s.enqueued)
    (hnew : event ∉ delivered) :
    Invariant { s with primary := s.primary ++ [stored event] } (delivered ++ [event]) where
  primary := by rw [hs.primary, map_append, map_singleton]
  nodup := nodup_append_comm.mp (nodup_cons.mpr ⟨hnew, hs.nodup⟩)
  enqueued := forall_mem_append.mpr ⟨hs.enqueued, forall_mem_singleton.mpr hevent⟩
  unique := hs.unique
  ids := hs.ids
  keys := hs.keys
  kept e he := (hs.kept e he).imp_left fun h => mem_append_left _ h
  hosts h := (hs.hosts h).mono (fun _ he => he) (subset_append_left _ _)

omit [DecidableEq H] in
/-- After its insert an event is in the primary store, whether that has added a row or not. -/
theorem Invariant.insert (hs : Invariant s delivered) (hevent : event ∈ s.enqueued)
    {primary : List UsageEvent} (h : insertUsageEvent event s.primary = some primary) :
    ∃ delivered', Invariant { s with primary } delivered' ∧ event ∈ delivered' ∧
      ∀ e ∈ delivered, e ∈ delivered' := by
  unfold insertUsageEvent at h
  split at h
  · next hany =>
    cases h
    obtain ⟨row, hrow, hkey⟩ := any_eq_true.mp hany
    rw [hs.primary] at hrow
    obtain ⟨e, he, rfl⟩ := mem_map.mp hrow
    have hsame : e = event := hs.keys e (hs.enqueued e he) event hevent (of_decide_eq_true hkey)
    exact ⟨delivered, hs, hsame ▸ he, fun _ he => he⟩
  · next hany =>
    split at h
    · cases h
    cases h
    have hnew : event ∉ delivered := by
      intro hmem
      refine hany (any_eq_true.mpr ⟨stored event, ?_, decide_eq_true rfl⟩)
      rw [hs.primary]
      exact mem_map_of_mem hmem
    exact ⟨_, hs.deliver hevent hnew, mem_append_right _ (mem_singleton_self _),
      fun _ he => mem_append_left _ he⟩

theorem injective_cons {events : List UsageEvent} {f : UsageEvent → K}
    (h : ∀ e ∈ events, ∀ e' ∈ events, f e = f e' → e = e') (hnew : ∀ e ∈ events, f e ≠ f event) :
    ∀ e ∈ event :: events, ∀ e' ∈ event :: events, f e = f e' → e = e' := by
  refine forall_mem_cons.mpr ⟨?_, fun e he => ?_⟩
  · exact forall_mem_cons.mpr ⟨fun _ => rfl, fun e' he' hf => absurd hf.symm (hnew e' he')⟩
  · exact forall_mem_cons.mpr ⟨fun hf => absurd hf (hnew e he), h e he⟩

/-- An event is metered, and the host that it is metered on holds it. -/
theorem Invariant.meter (hs : Invariant s delivered) (h : H) (hok : NoneLost s (.meter event))
    (hid : ∀ e ∈ s.enqueued, e.id ≠ event.id) {host : Host} (hholds : host.Holds event)
    (hkept : ∀ e, (s.hosts h).Holds e → host.Holds e)
    (hsound : host.Sound (event :: s.enqueued) delivered) :
    Invariant { s.setHost h host with enqueued := event :: s.enqueued } delivered := by
  have hnew : event ∉ s.enqueued := fun hmem => hid event hmem rfl
  constructor
  · exact hs.primary
  · exact hs.nodup
  · exact fun e he => mem_cons_of_mem _ (hs.enqueued e he)
  · exact nodup_cons.mpr ⟨hnew, hs.unique⟩
  · exact injective_cons hs.ids hid
  · exact injective_cons hs.keys hok
  · refine forall_mem_cons.mpr ⟨.inr ⟨h, ?_⟩, fun e he => ?_⟩
    · show ((s.setHost h host).hosts h).Holds event
      rw [State.setHost_self]
      exact hholds
    · refine (hs.kept e he).imp_right fun ⟨h', hold⟩ => ⟨h', ?_⟩
      show ((s.setHost h host).hosts h').Holds e
      by_cases hh : h' = h
      · subst hh
        rw [State.setHost_self]
        exact hkept e hold
      · rw [State.setHost_of_ne s hh]
        exact hold
  · intro h'
    show ((s.setHost h host).hosts h').Sound (event :: s.enqueued) delivered
    by_cases hh : h' = h
    · subst hh
      rw [State.setHost_self]
      exact hsound
    · rw [State.setHost_of_ne s hh]
      exact (hs.hosts h').mono (subset_cons_self _ _) fun _ he => he

/-- The outbox takes an event that it does not have. -/
theorem mem_enqueueUsage {outbox : Outbox} (h : ∀ row ∈ outbox.rows, row.event.id ≠ event.id)
    (row : OutboxRow) :
    row ∈ (enqueueUsage event outbox).rows ↔ row ∈ outbox.rows ∨ row = ⟨event, false⟩ := by
  apply Table.mem_insert
  rw [Table.find?_eq_none_iff]
  intro hmem
  obtain ⟨row, hrow, hkey⟩ := mem_map.mp hmem
  exact h row hrow hkey

theorem Invariant.send (hs : Invariant s delivered) (h : H) (hok : NoneLost s (.meter event))
    (hid : ∀ e ∈ s.enqueued, e.id ≠ event.id) :
    Invariant { s.setHost h { s.hosts h with channel := (s.hosts h).channel ++ [event] } with
      enqueued := event :: s.enqueued } delivered := by
  have hsound := hs.hosts h
  refine hs.meter h hok hid (.inl (mem_append_right _ (mem_singleton_self _))) ?_ ⟨?_, ?_, ?_, ?_⟩
  · exact fun e he => he.imp_left fun he => mem_append_left _ he
  · refine nodup_append_comm.mp (nodup_cons.mpr ⟨fun hmem => ?_, hsound.channel⟩)
    exact hid event (hsound.unwritten event hmem).1 rfl
  · refine forall_mem_append.mpr ⟨fun e he => ?_, forall_mem_singleton.mpr ⟨mem_cons_self, ?_⟩⟩
    · exact ⟨mem_cons_of_mem _ (hsound.unwritten e he).1, (hsound.unwritten e he).2⟩
    · intro row hrow heq
      exact hid event (heq ▸ (hsound.rows row hrow).1) rfl
  · exact fun row hrow => ⟨mem_cons_of_mem _ (hsound.rows row hrow).1, (hsound.rows row hrow).2⟩
  · exact (hsound.mono (subset_cons_self _ _) fun _ he => he).flush

theorem Invariant.enqueue (hs : Invariant s delivered) (h : H) (hok : NoneLost s (.meter event))
    (hid : ∀ e ∈ s.enqueued, e.id ≠ event.id) :
    Invariant { s.setHost h { s.hosts h with outbox := enqueueUsage event (s.hosts h).outbox } with
      enqueued := event :: s.enqueued } delivered := by
  have hsound := hs.hosts h
  have hmem := mem_enqueueUsage fun row hrow => hid row.event (hsound.rows row hrow).1
  refine hs.meter h hok hid (.inr ((hmem _).mpr (.inr rfl))) ?_ ⟨hsound.channel, ?_, ?_, ?_⟩
  · exact fun e he => he.imp_right fun he => (hmem _).mpr (.inl he)
  · intro e he
    refine ⟨mem_cons_of_mem _ (hsound.unwritten e he).1, fun row hrow => ?_⟩
    obtain hold | rfl := (hmem row).mp hrow
    · exact (hsound.unwritten e he).2 row hold
    · exact fun heq => hid e (hsound.unwritten e he).1 (congrArg UsageEvent.id heq).symm
  · intro row hrow
    obtain hold | rfl := (hmem row).mp hrow
    · exact ⟨mem_cons_of_mem _ (hsound.rows row hold).1, (hsound.rows row hold).2⟩
    · exact ⟨mem_cons_self, nofun⟩
  · exact (hsound.mono (subset_cons_self _ _) fun _ he => he).flush

/-- The writer moves the first event of the channel into the outbox. -/
theorem Invariant.write (hs : Invariant s delivered) (h : H) {rest : List UsageEvent}
    (hchannel : (s.hosts h).channel = event :: rest) :
    Invariant (s.setHost h { s.hosts h with
      outbox := enqueueUsage event (s.hosts h).outbox, channel := rest }) delivered := by
  have hsound := hs.hosts h
  have hunwritten := hsound.unwritten
  have hnodup := hsound.channel
  rw [hchannel] at hunwritten hnodup
  obtain ⟨hevent, hfresh⟩ := hunwritten event mem_cons_self
  have hmem := mem_enqueueUsage fun row hrow heq =>
    hfresh row hrow (hs.ids _ (hsound.rows row hrow).1 event hevent heq)
  refine hs.setHost h _ (fun e he => .inr ?_) ⟨(nodup_cons.mp hnodup).2, ?_, ?_, hsound.flush⟩
  · rcases he with he | he
    · rw [hchannel] at he
      obtain rfl | he := mem_cons.mp he
      · exact .inr ((hmem _).mpr (.inr rfl))
      · exact .inl he
    · exact .inr ((hmem _).mpr (.inl he))
  · intro e he
    refine ⟨(hunwritten e (mem_cons_of_mem _ he)).1, fun row hrow => ?_⟩
    obtain hold | rfl := (hmem row).mp hrow
    · exact (hunwritten e (mem_cons_of_mem _ he)).2 row hold
    · rintro rfl
      exact (nodup_cons.mp hnodup).1 he
  · intro row hrow
    obtain hold | rfl := (hmem row).mp hrow
    · exact hsound.rows row hold
    · exact ⟨hevent, nofun⟩

/-- The whole batch is in the primary store when it is marked. -/
theorem Invariant.mark (hs : Invariant s delivered) (h : H) {batch : List UsageEvent}
    (hflush : (s.hosts h).flush = some ⟨batch, []⟩) :
    Invariant (s.setHost h { s.hosts h with
      outbox := markUsageSent (batch.map UsageEvent.id) (s.hosts h).outbox, flush := none })
      delivered := by
  have hsound := hs.hosts h
  have hbatch (e : UsageEvent) (he : e ∈ batch) : e ∈ delivered := by
    obtain hrest | hdelivered := ((hsound.flush _ hflush).1 e he).2
    · cases hrest
    · exact hdelivered
  have hmarked (row : OutboxRow) (hrow : row ∈ (s.hosts h).outbox.rows)
      (hid : (batch.map UsageEvent.id).contains row.event.id = true) : row.event ∈ delivered := by
    obtain ⟨e, he, hsame⟩ := mem_map.mp (contains_iff_mem.mp hid)
    rw [← hs.ids e (hs.enqueued e (hbatch e he)) row.event (hsound.rows row hrow).1 hsame]
    exact hbatch e he
  -- marking a row keeps its event
  have hevents (row : OutboxRow)
      (hrow : row ∈ (markUsageSent (batch.map UsageEvent.id) (s.hosts h).outbox).rows) :
      ∃ row' ∈ (s.hosts h).outbox.rows, row'.event = row.event ∧
        (row.sent = true → row'.sent = true ∨ row'.event ∈ delivered) := by
    obtain ⟨row', hrow', rfl⟩ := mem_map.mp hrow
    refine ⟨row', hrow', ?_, fun hsent => ?_⟩
    · split <;> rfl
    · split at hsent
      · next hid => exact .inr (hmarked row' hrow' hid)
      · exact .inl hsent
  refine hs.setHost h _ (fun e he => ?_) ⟨hsound.channel, fun e he => ?_, fun row hrow => ?_, nofun⟩
  · rcases he with he | he
    · exact .inr (.inl he)
    by_cases hid : (batch.map UsageEvent.id).contains e.id = true
    · exact .inl (hmarked _ he hid)
    · refine .inr (.inr (mem_map.mpr ⟨_, he, ?_⟩))
      rw [if_neg hid]
  · refine ⟨(hsound.unwritten e he).1, fun row hrow => ?_⟩
    obtain ⟨row', hrow', heq, -⟩ := hevents row hrow
    rw [← heq]
    exact (hsound.unwritten e he).2 row' hrow'
  · obtain ⟨row', hrow', heq, hsent'⟩ := hevents row hrow
    rw [← heq]
    refine ⟨(hsound.rows row' hrow').1, fun hsent => ?_⟩
    obtain hsent | hdelivered := hsent' hsent
    · exact (hsound.rows row' hrow').2 hsent
    · exact hdelivered

/-- Every step that loses no event keeps the invariant. -/
theorem Invariant.step (hs : Invariant s delivered) (h : Step NoneLost s s') :
    ∃ delivered', Invariant s' delivered' := by
  cases h with
  | send h event hok hid => exact ⟨delivered, hs.send h hok hid⟩
  | enqueue h event hok hid => exact ⟨delivered, hs.enqueue h hok hid⟩
  | refuse h event hok hlost hid => cases hlost
  | write h hchannel => exact ⟨delivered, hs.write h hchannel⟩
  | writeFails h hchannel hlost => cases hlost
  | read h hflush =>
    have hsound := hs.hosts h
    refine ⟨delivered, hs.setHost h _ (fun e he => .inr he) { hsound with flush :=
      fun flush hf => ?_ }⟩
    cases hf
    refine ⟨fun e he => ?_, fun e he => he⟩
    obtain ⟨row, hrow, rfl⟩ := mem_listUnsentUsage he
    exact ⟨(hsound.rows row hrow).1, .inl he⟩
  | @insert h batch event rest primary hflush hinsert =>
    obtain ⟨hbatch, hrest⟩ := (hs.hosts h).flush _ hflush
    obtain ⟨delivered', hs', hevent, hmore⟩ :=
      hs.insert (hbatch event (hrest event mem_cons_self)).1 hinsert
    refine ⟨delivered', hs'.setHost h _ (fun e he => .inr he)
      { hs'.hosts h with flush := fun flush hf => ?_ }⟩
    cases hf
    refine ⟨fun e he => ?_, fun e he => hrest e (mem_cons_of_mem _ he)⟩
    obtain ⟨henqueued, hleft | hdelivered⟩ := hbatch e he
    · obtain rfl | hrest := mem_cons.mp hleft
      · exact ⟨henqueued, .inr hevent⟩
      · exact ⟨henqueued, .inl hrest⟩
    · exact ⟨henqueued, .inr (hmore e hdelivered)⟩
  | mark h hflush => exact ⟨delivered, hs.mark h hflush⟩
  | abandon h =>
    exact ⟨delivered, hs.setHost h _ (fun e he => .inr he) { hs.hosts h with flush := nofun }⟩
  | restart h hlost =>
    have hempty : (s.hosts h).channel = [] := hlost
    refine ⟨delivered, hs.setHost h _ (fun e he => .inr ?_)
      { hs.hosts h with channel := nodup_nil, unwritten := nofun, flush := nofun }⟩
    rw [Host.Holds, hempty] at he
    exact he
  | prune h older_than =>
    have hsound := hs.hosts h
    refine ⟨delivered, hs.setHost h _ (fun e he => .inr (he.imp_right fun he => ?_))
      { hsound with unwritten := fun e he => ?_, rows := fun row hrow => ?_ }⟩
    · exact mem_filter.mpr ⟨he, rfl⟩
    · exact ⟨(hsound.unwritten e he).1, fun row hrow =>
        (hsound.unwritten e he).2 row (mem_filter.mp hrow).1⟩
    · exact hsound.rows row (mem_filter.mp hrow).1

/-- By induction over the events. -/
theorem Reaches.invariant (hs : Reaches NoneLost s) : ∃ delivered, Invariant s delivered := by
  induction hs with
  | init =>
    refine ⟨[], ⟨rfl, nodup_nil, nofun, nodup_nil, nofun, nofun, nofun, fun h => ?_⟩⟩
    exact ⟨nodup_nil, nofun, nofun, nofun⟩
  | step _ hstep ih =>
    obtain ⟨delivered, hs⟩ := ih
    exact hs.step hstep

theorem total_stored (vm_id : Uuid) (kind : UsageKind) (events : List UsageEvent) :
    total vm_id kind (events.map stored) = total vm_id kind events := by
  unfold total
  rw [filter_map, map_map]
  rfl

/-- However often flushes fail and hosts restart: once every event is flushed, the primary
store has for each VM and kind what was metered, as long as distinct events never share VM,
kind and end of window and none is given up on the way to the outbox. -/
theorem flushed_totals (hs : Reaches NoneLost s) (hflushed : Flushed s) (vm_id : Uuid)
    (kind : UsageKind) : total vm_id kind s.primary = total vm_id kind s.enqueued := by
  obtain ⟨delivered, hinv⟩ := hs.invariant
  have hperm : delivered.Perm s.enqueued := by
    rw [perm_ext_iff_of_nodup hinv.nodup hinv.unique]
    refine fun e => ⟨hinv.enqueued e, fun he => ?_⟩
    obtain hdelivered | ⟨h, hchannel | hrow⟩ := hinv.kept e he
    · exact hdelivered
    · rw [(hflushed h).1] at hchannel
      cases hchannel
    · have hsent := (hflushed h).2 _ hrow
      cases hsent
  rw [hinv.primary, total_stored]
  exact ((hperm.filter _).map amount).sum_eq

end Step

/-- An execution of `duration_ms` that ended at `now`, as `meter_exec` hands it over. -/
def execEvent (id : Uuid) (now : Timestamp) (duration_ms : Int) : UsageEvent where
  id := id
  api_key_id := "key"
  owner_key := "tenant"
  host_id := "a"
  vm_id := 1
  kind := .Exec
  seconds := none
  duration_ms := some duration_ms
  window_start := now
  window_end := now
  created_at := now

/-- Two executions sent and written, a restart, one flush with both, and the mark. -/
theorem flush_of_two (ok : State Unit → Hazard → Prop) (e₁ e₂ : UsageEvent)
    {p₁ p₂ : List UsageEvent} {s₁ s₂ : State Unit}
    (hs₁ : s₁ = ⟨fun _ => ⟨∅, [e₁], none⟩, [], [e₁]⟩)
    (hs₂ : s₂ = ⟨fun _ => ⟨enqueueUsage e₂ (enqueueUsage e₁ ∅), [], none⟩, [], [e₂, e₁]⟩)
    (hok₁ : ok ⟨fun _ => ⟨∅, [], none⟩, [], []⟩ (.meter e₁)) (hok₂ : ok s₁ (.meter e₂))
    (hlost : ok s₂ (.lose [])) (hid : e₁.id ≠ e₂.id)
    (hbatch : listUnsentUsage flushBatch (enqueueUsage e₂ (enqueueUsage e₁ ∅)) = [e₁, e₂])
    (hp₁ : insertUsageEvent e₁ [] = some p₁) (hp₂ : insertUsageEvent e₂ p₁ = some p₂) :
    Reaches ok ⟨fun _ =>
      ⟨markUsageSent [e₁.id, e₂.id] (enqueueUsage e₂ (enqueueUsage e₁ ∅)), [], none⟩,
      p₂, [e₂, e₁]⟩ := by
  have hset (s : State Unit) (host : Host) :
      s.setHost () host = ⟨fun _ => host, s.primary, s.enqueued⟩ := by
    rw [State.setHost]
    congr 1
  have h₁ : Reaches ok s₁ := by
    have h := Reaches.step .init (.send () e₁ hok₁ nofun)
    rw [hset] at h
    rw [hs₁]
    exact h
  have h₂ : Reaches ok s₂ := by
    have hsent := h₁.step (.send () e₂ hok₂ fun e he => by
      rw [hs₁] at he
      rw [mem_singleton.mp he]
      exact hid)
    rw [hset, hs₁] at hsent
    have hwritten := hsent.step (.write () rfl)
    rw [hset] at hwritten
    have hboth := hwritten.step (.write () rfl)
    rw [hset] at hboth
    rw [hs₂]
    exact hboth
  have h₃ : Reaches ok s₂ := by
    have h := h₂.step (.restart () (by rw [hs₂] at hlost ⊢; exact hlost))
    rw [hset, hs₂] at h
    rw [hs₂]
    exact h
  subst hs₂
  have h₄ := h₃.step (.read () rfl)
  rw [hset, hbatch] at h₄
  have h₅ := h₄.step (.insert () rfl hp₁)
  have h₆ := h₅.step (.insert () rfl hp₂)
  have h₇ := h₆.step (.mark () rfl)
  exact h₇

/-- Executions of 5 and 7 milliseconds that end at different microseconds are both counted. -/
theorem distinct_executions_counted :
    ∃ s : State Unit, Flushed s ∧ total 1 .Exec s.primary = (0, 12, 2) := by
  have hs := flush_of_two NoneLost (execEvent 1 0 5) (execEvent 2 1000 7) rfl rfl
    nofun (fun e he => by
      rw [mem_singleton.mp he]
      decide) rfl (by decide) (by decide +kernel) rfl rfl
  refine ⟨_, ?_, flushed_totals hs ?_ 1 .Exec⟩
  all_goals
    intro h
    cases h
    exact ⟨rfl, by decide +kernel⟩

/-- Two executions of one VM that end within the same microsecond are counted as one. -/
theorem simultaneous_execution_lost :
    ∃ s : State Unit, Reaches (fun _ _ => True) s ∧ Flushed s ∧
      total 1 .Exec s.enqueued = (0, 12, 2) ∧ total 1 .Exec s.primary = (0, 5, 1) := by
  have hs := flush_of_two (fun _ _ => True) (execEvent 1 0 5) (execEvent 2 999 7) rfl rfl
    trivial trivial trivial (by decide) (by decide +kernel) rfl rfl
  refine ⟨_, hs, ?_, by decide +kernel, by decide +kernel⟩
  intro h
  cases h
  exact ⟨rfl, by decide +kernel⟩

end Tarit.Usage
