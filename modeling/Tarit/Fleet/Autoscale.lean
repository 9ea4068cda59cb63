import Mathlib.Data.UInt
import Mathlib.Logic.Function.Basic
import Tarit.Fleet.Records

/-!
# The autoscaler's leader lease

Each node with autoscaling on wakes up at a tick, asks the database for the leader lease and,
if it gets it, reads the hosts, decides, and runs the provider command. The lease is asked for
before the command and not renewed while it runs: another node gets the lease once it is
expired, whether the command is over or not.

The clock counts milliseconds. The nodes are named by their host ids.
-/
namespace Tarit.Autoscale

open Fleet Function

/-! ## Decisions -/

structure HostRecord where
  host_id : String
  sandbox_count : Nat
  free_vcpus : UInt64
  healthy : Bool
  last_heartbeat : Timestamp
  deriving DecidableEq

structure AutoscaleConfig where
  enabled : Bool
  min_nodes : Nat
  max_nodes : Nat
  scale_out_free_vcpus : UInt64
  scale_in_free_vcpus : UInt64
  provider_cmd : Option String
  deriving DecidableEq

inductive Action where
  | scale_out | scale_in
  deriving DecidableEq

structure ScaleDecision where
  action : Action
  target : Nat
  current : Nat
  free_vcpus : UInt64
  victim : Option String
  deriving DecidableEq

def LEADER_TTL_SECS : Nat := 30
def HOST_FRESH : Int := 15000
def COOLDOWN : Nat := 60000

/-- `now` and the heartbeats are in milliseconds too. -/
def isHealthy (now : Timestamp) (h : HostRecord) : Bool :=
  h.healthy && decide (0 ≤ now - h.last_heartbeat) && decide (now - h.last_heartbeat < HOST_FRESH)

/-- `min_by_key`, which takes the first of several minima. -/
def leastLoaded : List HostRecord → Option HostRecord
  | [] => none
  | h :: hosts =>
    match leastLoaded hosts with
    | none => some h
    | some least => if h.sandbox_count ≤ least.sandbox_count then some h else some least

def scaleDecision (a : AutoscaleConfig) (healthy : List HostRecord) : Option ScaleDecision :=
  let node_count := healthy.length
  let free_vcpus := (healthy.map (·.free_vcpus)).sum
  if free_vcpus < a.scale_out_free_vcpus ∧ node_count < a.max_nodes then
    some ⟨.scale_out, min (node_count + 1) a.max_nodes, node_count, free_vcpus, none⟩
  else if free_vcpus > a.scale_in_free_vcpus ∧ node_count > a.min_nodes then
    (leastLoaded healthy).map fun victim =>
      ⟨.scale_in, max (node_count - 1) a.min_nodes, node_count, free_vcpus, some victim.host_id⟩
  else none

/-! ## The lease -/

structure Lease where
  leader_id : String
  expires_at : Nat
  deriving DecidableEq

/-- The row that `try_acquire_leader` writes, if it writes one. `now` is the time at which its
statement was sent; the row may be locked until later. -/
def tryAcquireLeader (node_id : String) (ttl_secs now : Nat) (row : Option Lease) : Option Lease :=
  let lease : Lease := ⟨node_id, now + ttl_secs * 1000⟩
  match row with
  | none => some lease
  | some held => if held.leader_id = node_id ∨ held.expires_at < now then some lease else none

/-! ## Nodes -/

/-- Where the loop of a node is. `lease_end` is the end of the lease that it got in this round,
which the node does not keep. -/
inductive Phase where
  | waiting
  | acquiring (now : Nat)
  | elected (lease_end : Nat)
  | providing (lease_end : Nat) (decision : ScaleDecision)
  deriving DecidableEq

structure Node where
  phase : Phase
  last_action : Option Nat
  /-- Commands that outlived the daemon that started them, by the end of its lease. -/
  orphans : List Nat
  deriving DecidableEq

structure State where
  clock : Nat
  lease : Option Lease
  nodes : String → Node

def State.start : State := { clock := 0, lease := none, nodes := fun _ => ⟨.waiting, none, []⟩ }

def State.setNode (s : State) (n : String) (node : Node) : State :=
  { s with nodes := update s.nodes n node }

inductive Event where
  | pass (ms : Nat)
  | tick (n : String)
  /-- The statement of `try_acquire_leader` runs; if `lost`, it answers with an error. -/
  | statement (n : String) (lost : Bool)
  | fails (n : String)
  /-- The node reads the hosts and decides. `starts` says whether the command can be started:
  no shutdown is under way, admission is open and the process is spawned. -/
  | listHosts (n : String) (hosts : List HostRecord) (now : Timestamp) (starts : Bool)
  | exits (n : String)
  /-- The daemon goes away and comes back; a command that it was running goes on. -/
  | restart (n : String)
  | orphanExits (n : String) (i : Nat)

def coolingDown (clock : Nat) (last_action : Option Nat) : Bool :=
  match last_action with
  | none => false
  | some last_action => clock - last_action < COOLDOWN

def afterHosts (a : AutoscaleConfig) (hosts : List HostRecord) (now : Timestamp) (starts : Bool)
    (clock lease_end : Nat) (node : Node) : Node :=
  if coolingDown clock node.last_action then { node with phase := .waiting }
  else
    match scaleDecision a (hosts.filter (isHealthy now)) with
    | none => { node with phase := .waiting }
    | some decision =>
      if a.provider_cmd.isSome && starts then { node with phase := .providing lease_end decision }
      else { node with phase := .waiting, last_action := some clock }

def afterRestart (node : Node) : Node where
  phase := .waiting
  last_action := none
  orphans :=
    match node.phase with
    | .providing lease_end _ => lease_end :: node.orphans
    | _ => node.orphans

/-- One event; `none` if it cannot happen in this state. -/
def next (config : String → AutoscaleConfig) (event : Event) (s : State) : Option State :=
  match event with
  | .pass ms => some { s with clock := s.clock + ms }
  | .tick n =>
    match (s.nodes n).phase with
    | .waiting =>
      if (config n).enabled then some (s.setNode n { s.nodes n with phase := .acquiring s.clock })
      else none
    | _ => none
  | .statement n lost =>
    match (s.nodes n).phase with
    | .acquiring now =>
      match tryAcquireLeader n LEADER_TTL_SECS now s.lease with
      | none => some (s.setNode n { s.nodes n with phase := .waiting })
      | some lease =>
        let phase := if lost then .waiting else .elected lease.expires_at
        some { s.setNode n { s.nodes n with phase } with lease := some lease }
    | _ => none
  | .fails n =>
    match (s.nodes n).phase with
    | .acquiring _ | .elected _ => some (s.setNode n { s.nodes n with phase := .waiting })
    | _ => none
  | .listHosts n hosts now starts =>
    match (s.nodes n).phase with
    | .elected lease_end =>
      some (s.setNode n (afterHosts (config n) hosts now starts s.clock lease_end (s.nodes n)))
    | _ => none
  | .exits n =>
    match (s.nodes n).phase with
    | .providing _ _ =>
      some (s.setNode n { s.nodes n with phase := .waiting, last_action := some s.clock })
    | _ => none
  | .restart n => some (s.setNode n (afterRestart (s.nodes n)))
  | .orphanExits n i =>
    some (s.setNode n { s.nodes n with orphans := (s.nodes n).orphans.eraseIdx i })

section Runs
variable {config : String → AutoscaleConfig} {ok : Event → State → Prop}

/-- The states of the runs whose events all meet `ok`. -/
inductive Reaches (config : String → AutoscaleConfig) (ok : Event → State → Prop) :
    State → Prop where
  | start : Reaches config ok State.start
  | step {s s' : State} {event : Event} (reached : Reaches config ok s) (meets : ok event s)
      (steps : next config event s = some s') : Reaches config ok s'

end Runs

def Node.InProgress (node : Node) : Prop :=
  (∃ lease_end decision, node.phase = .providing lease_end decision) ∨ node.orphans ≠ []

/-- The node has a round or a command under way for which it got the lease until `lease_end`. -/
def Node.Live (node : Node) (lease_end : Nat) : Prop :=
  node.phase = .elected lease_end ∨ (∃ decision, node.phase = .providing lease_end decision) ∨
    lease_end ∈ node.orphans

variable {node : Node} {lease_end : Nat}

theorem Node.InProgress.live (h : node.InProgress) : ∃ lease_end, node.Live lease_end := by
  rcases h with ⟨lease_end, decision, hphase⟩ | horphans
  · exact ⟨lease_end, .inr (.inl ⟨decision, hphase⟩)⟩
  · obtain ⟨lease_end, rest, heq⟩ := List.exists_cons_of_ne_nil horphans
    exact ⟨lease_end, .inr (.inr (heq ▸ List.mem_cons_self))⟩

/-- No round and no command is still under way when the lease it was started under ends, and
`try_acquire_leader` does not wait that long for its row. -/
def Timely (event : Event) (s : State) : Prop :=
  match event with
  | .pass ms => ∀ n lease_end, (s.nodes n).Live lease_end → s.clock + ms ≤ lease_end
  | .statement n _ =>
    ∀ now, (s.nodes n).phase = .acquiring now → s.clock ≤ now + LEADER_TTL_SECS * 1000
  | _ => True

/-! ## Exclusion -/

/-- Whoever has a round or a command under way holds the lease. -/
structure Led (s : State) : Prop where
  leads : ∀ n lease_end, (s.nodes n).Live lease_end →
    ∃ expires_at, s.lease = some ⟨n, expires_at⟩ ∧ lease_end ≤ expires_at
  current : ∀ n lease_end, (s.nodes n).Live lease_end → s.clock ≤ lease_end
  recent : ∀ n lease_end, (s.nodes n).Live lease_end → lease_end ≤ s.clock + LEADER_TTL_SECS * 1000
  asked : ∀ n now, (s.nodes n).phase = .acquiring now → now ≤ s.clock ∧
    ∀ lease_end, (s.nodes n).Live lease_end → lease_end ≤ now + LEADER_TTL_SECS * 1000

theorem Led.start : Led State.start := by
  have hnone (n : String) (lease_end : Nat) : ¬ (State.start.nodes n).Live lease_end := by
    rintro (h | ⟨_, h⟩ | h) <;> cases h
  constructor
  · exact fun n e h => absurd h (hnone n e)
  · exact fun n e h => absurd h (hnone n e)
  · exact fun n e h => absurd h (hnone n e)
  · exact nofun

section Step
variable {s : State} {n : String} {node : Node}

@[simp] theorem nodes_setNode_self : (s.setNode n node).nodes n = node := update_self ..

theorem nodes_setNode_of_ne {m : String} (h : m ≠ n) : (s.setNode n node).nodes m = s.nodes m :=
  update_of_ne h ..

/-- A step of a node under which it gets no new lease. -/
theorem Led.setNode (hs : Led s)
    (hlive : ∀ lease_end, node.Live lease_end → (s.nodes n).Live lease_end)
    (hasks : ∀ now, node.phase = .acquiring now →
      now = s.clock ∨ (s.nodes n).phase = .acquiring now) : Led (s.setNode n node) := by
  have hall (m : String) (lease_end : Nat) (h : ((s.setNode n node).nodes m).Live lease_end) :
      (s.nodes m).Live lease_end := by
    by_cases hm : m = n
    · subst hm
      rw [nodes_setNode_self] at h
      exact hlive lease_end h
    · rw [nodes_setNode_of_ne hm] at h
      exact h
  constructor
  · exact fun m e h => hs.leads m e (hall m e h)
  · exact fun m e h => hs.current m e (hall m e h)
  · exact fun m e h => hs.recent m e (hall m e h)
  · intro m now hphase
    have hsame (hold : (s.nodes m).phase = .acquiring now) :=
      And.intro (hs.asked m now hold).1 fun e h => (hs.asked m now hold).2 e (hall m e h)
    by_cases hm : m = n
    · subst hm
      rw [nodes_setNode_self] at hphase
      rcases hasks now hphase with rfl | hold
      · exact ⟨Nat.le_refl _, fun e h => hs.recent m e (hall m e h)⟩
      · exact hsame hold
    · rw [nodes_setNode_of_ne hm] at hphase
      exact hsame hphase

variable {now : Nat}

/-- While the clock has not passed the end of a lease under which something is under way, no other
node gets it. -/
theorem Led.tryAcquireLeader_eq_none (hs : Led s) {m : String}
    (hlive : (s.nodes m).Live lease_end) (hne : m ≠ n) (hnow : now ≤ s.clock) :
    tryAcquireLeader n LEADER_TTL_SECS now s.lease = none := by
  obtain ⟨expires_at, hlease, hle⟩ := hs.leads m lease_end hlive
  have hcurrent := hs.current m lease_end hlive
  have hheld : now ≤ expires_at := by omega
  rw [hlease]
  exact if_neg (not_or.mpr ⟨hne, Nat.not_lt.mpr hheld⟩)

/-- The node that gets the lease is the only one with something under way. -/
theorem Led.acquires (hs : Led s) {lease : Lease} (hphase : (s.nodes n).phase = .acquiring now)
    (htimely : s.clock ≤ now + LEADER_TTL_SECS * 1000)
    (hlease : tryAcquireLeader n LEADER_TTL_SECS now s.lease = some lease)
    (hnode : ∀ lease_end, node.Live lease_end →
      lease_end = lease.expires_at ∨ (s.nodes n).Live lease_end)
    (hasks : ∀ now, node.phase ≠ .acquiring now) :
    Led { s.setNode n node with lease := some lease } := by
  obtain ⟨hnow, hasked⟩ := hs.asked n now hphase
  obtain rfl : lease = ⟨n, now + LEADER_TTL_SECS * 1000⟩ := by
    unfold tryAcquireLeader at hlease
    split at hlease
    · exact (Option.some.inj hlease).symm
    split at hlease
    · exact (Option.some.inj hlease).symm
    · cases hlease
  have hother (m : String) (hm : m ≠ n) (lease_end : Nat) : ¬ (s.nodes m).Live lease_end := by
    intro hlive
    rw [hs.tryAcquireLeader_eq_none hlive hm hnow] at hlease
    cases hlease
  have hall (m : String) (lease_end : Nat) (h : ((s.setNode n node).nodes m).Live lease_end) :
      m = n ∧ lease_end ≤ now + LEADER_TTL_SECS * 1000 ∧ s.clock ≤ lease_end := by
    by_cases hm : m = n
    · subst hm
      rw [nodes_setNode_self] at h
      rcases hnode lease_end h with rfl | hold
      · exact ⟨rfl, Nat.le_refl _, htimely⟩
      · exact ⟨rfl, hasked lease_end hold, hs.current m lease_end hold⟩
    · rw [nodes_setNode_of_ne hm] at h
      exact absurd h (hother m hm lease_end)
  constructor
  · intro m e h
    obtain ⟨rfl, hle, -⟩ := hall m e h
    exact ⟨_, rfl, hle⟩
  · exact fun m e h => (hall m e h).2.2
  · intro m e h
    exact Nat.le_trans (hall m e h).2.1 (Nat.add_le_add_right hnow _)
  · intro m now' hphase'
    by_cases hm : m = n
    · subst hm
      replace hphase' : ((s.setNode m node).nodes m).phase = .acquiring now' := hphase'
      rw [nodes_setNode_self] at hphase'
      exact absurd hphase' (hasks now')
    · rw [nodes_setNode_of_ne hm] at hphase'
      exact ⟨(hs.asked m now' hphase').1, fun e h => absurd (hall m e h).1 hm⟩

end Step

theorem live_waiting {last_action : Option Nat}
    (h : ({ node with phase := .waiting, last_action } : Node).Live lease_end) :
    node.Live lease_end := by
  rcases h with h | ⟨_, h⟩ | h
  · cases h
  · cases h
  · exact .inr (.inr h)

theorem live_afterHosts {a : AutoscaleConfig} {hosts : List HostRecord} {now : Timestamp}
    {starts : Bool} {clock ends : Nat} (hphase : node.phase = .elected ends)
    (h : (afterHosts a hosts now starts clock ends node).Live lease_end) : node.Live lease_end := by
  unfold afterHosts at h
  split at h
  · exact live_waiting h
  split at h
  · exact live_waiting h
  split at h
  · rcases h with h | ⟨_, h⟩ | h
    · cases h
    · cases h
      exact .inl hphase
    · exact .inr (.inr h)
  · exact live_waiting h

theorem phase_afterHosts {a : AutoscaleConfig} {hosts : List HostRecord} {now : Timestamp}
    {starts : Bool} {clock ends t : Nat} :
    (afterHosts a hosts now starts clock ends node).phase ≠ .acquiring t := by
  unfold afterHosts
  split
  · exact Phase.noConfusion
  split
  · exact Phase.noConfusion
  · split <;> exact Phase.noConfusion

theorem live_afterRestart (h : (afterRestart node).Live lease_end) : node.Live lease_end := by
  rcases h with h | ⟨_, h⟩ | h
  · cases h
  · cases h
  unfold afterRestart at h
  split at h
  · next decision hphase =>
    rcases List.mem_cons.mp h with rfl | h
    · exact .inr (.inl ⟨decision, hphase⟩)
    · exact .inr (.inr h)
  · exact .inr (.inr h)

section Steps
variable {config : String → AutoscaleConfig} {s s' : State}

theorem Led.pass (hs : Led s) {ms : Nat} (h : Timely (.pass ms) s) :
    Led { s with clock := s.clock + ms } where
  leads := hs.leads
  current n e hlive := h n e hlive
  recent n e hlive := by
    exact Nat.le_trans (hs.recent n e hlive) (Nat.add_le_add_right (Nat.le_add_right _ _) _)
  asked n now hphase :=
    ⟨Nat.le_add_right_of_le (hs.asked n now hphase).1, (hs.asked n now hphase).2⟩

theorem Led.statement (hs : Led s) {n : String} {lost : Bool} (h : Timely (.statement n lost) s)
    (hstep : next config (.statement n lost) s = some s') : Led s' := by
  unfold next at hstep
  dsimp only at hstep
  split at hstep
  · next now hphase =>
    split at hstep
    · cases hstep
      exact hs.setNode (fun _ => live_waiting) nofun
    rename_i lease hlease
    cases hstep
    refine hs.acquires hphase (h now hphase) hlease (fun e hlive => ?_) fun now => ?_
    · cases lost with
      | true => exact .inr (live_waiting hlive)
      | false =>
        rcases hlive with hlive | ⟨_, hlive⟩ | hlive
        · cases hlive
          exact .inl rfl
        · cases hlive
        · exact .inr (.inr (.inr hlive))
    · cases lost <;> exact Phase.noConfusion
  · cases hstep

theorem Led.next (hs : Led s) {event : Event} (h : Timely event s)
    (hstep : next config event s = some s') : Led s' := by
  cases event with
  | pass ms =>
    cases hstep
    exact hs.pass h
  | statement n lost => exact hs.statement h hstep
  | tick n =>
    unfold Autoscale.next at hstep
    dsimp only at hstep
    split at hstep
    · obtain ⟨-, ⟨⟩⟩ := Option.ite_none_right_eq_some.mp hstep
      refine hs.setNode (fun e hlive => ?_) fun now hnow => ?_
      · rcases hlive with hlive | ⟨_, hlive⟩ | hlive
        · cases hlive
        · cases hlive
        · exact .inr (.inr hlive)
      · cases hnow
        exact .inl rfl
    · cases hstep
  | fails n =>
    unfold Autoscale.next at hstep
    dsimp only at hstep
    split at hstep
    · cases hstep
      exact hs.setNode (fun _ => live_waiting) nofun
    · cases hstep
      exact hs.setNode (fun _ => live_waiting) nofun
    · cases hstep
  | listHosts n hosts now starts =>
    unfold Autoscale.next at hstep
    dsimp only at hstep
    split at hstep
    · next lease_end hphase =>
      cases hstep
      exact hs.setNode (fun _ => live_afterHosts hphase) fun _ h => absurd h phase_afterHosts
    · cases hstep
  | exits n =>
    unfold Autoscale.next at hstep
    dsimp only at hstep
    split at hstep
    · cases hstep
      exact hs.setNode (fun _ => live_waiting) nofun
    · cases hstep
  | restart n =>
    cases hstep
    exact hs.setNode (fun _ => live_afterRestart) nofun
  | orphanExits n i =>
    cases hstep
    refine hs.setNode (fun e hlive => ?_) fun _ hphase => .inr hphase
    exact hlive.imp_right fun hlive => hlive.imp_right List.mem_of_mem_eraseIdx

theorem Reaches.led (h : Reaches config Timely s) : Led s := by
  induction h with
  | start => exact .start
  | step _ meets steps ih => exact ih.next meets steps

/-- In a run in which every command is over when the lease it was started under ends, no two
nodes have a command in progress. -/
theorem commands_exclude_each_other (h : Reaches config Timely s) (n m : String)
    (hn : (s.nodes n).InProgress) (hm : (s.nodes m).InProgress) : n = m := by
  obtain ⟨e, hn⟩ := hn.live
  obtain ⟨e', hm⟩ := hm.live
  obtain ⟨expires_at, hlease, -⟩ := h.led.leads n e hn
  obtain ⟨expires_at', hlease', -⟩ := h.led.leads m e' hm
  rw [hlease] at hlease'
  cases hlease'
  rfl

end Steps

/-! ## Runs -/

def run (config : String → AutoscaleConfig) : List Event → State → Option State
  | [], s => some s
  | event :: events, s => (next config event s).bind (run config events)

/-- What a list of events computes is reached. -/
theorem Reaches.of_run {config : String → AutoscaleConfig} {s s' : State} (events : List Event)
    (h : Reaches config (fun _ _ => True) s) (hrun : run config events s = some s') :
    Reaches config (fun _ _ => True) s' := by
  induction events generalizing s with
  | nil =>
    cases hrun
    exact h
  | cons event events ih =>
    obtain ⟨s₁, hstep, hrun⟩ := Option.bind_eq_some_iff.mp hrun
    exact ih (h.step trivial hstep) hrun

def scalingOut : AutoscaleConfig := ⟨true, 1, 10, 2, 64, some "provider"⟩

/-- Node `a` runs its command. Twenty seconds later node `b` asks for the lease and is refused. -/
theorem command_within_lease :
    ∃ s s', Reaches (fun _ => scalingOut) Timely s ∧ (s.nodes "b").phase = .acquiring 20000 ∧
      next (fun _ => scalingOut) (.statement "b" false) s = some s' ∧
      Reaches (fun _ => scalingOut) Timely s' ∧ s'.lease = some ⟨"a", 30000⟩ ∧
      (s'.nodes "a").InProgress ∧ ∀ n, (s'.nodes n).InProgress → n = "a" := by
  have hunlocked (n : String) (s : State) (h : s.clock ≤ 20000) : Timely (.statement n false) s :=
    fun now _ => by unfold LEADER_TTL_SECS; omega
  have htick : Reaches (fun _ => scalingOut) Timely _ :=
    .step .start (show Timely (.tick "a") _ from trivial) rfl
  have hlead := htick.step (hunlocked "a" _ (Nat.zero_le _)) rfl
  have hhosts := hlead.step (show Timely (.listHosts "a" [] 0 true) _ from trivial) rfl
  have hpass := hhosts.step (show Timely (.pass 20000) _ by
    intro n lease_end hlive
    obtain ⟨_, hlease, -⟩ := hhosts.led.leads n lease_end hlive
    cases hlease
    rcases hlive with h | ⟨_, h⟩ | h
    · cases h
    · cases h
      decide
    · cases h) rfl
  have hasks := hpass.step (show Timely (.tick "b") _ from trivial) rfl
  have hrefused := hasks.step (hunlocked "b" _ (Nat.le_refl _)) rfl
  refine ⟨_, _, hasks, rfl, rfl, hrefused, rfl, .inl ⟨_, _, rfl⟩, fun n hn => ?_⟩
  exact commands_exclude_each_other hrefused n "a" hn (.inl ⟨_, _, rfl⟩)

/-- The node asks for the lease, gets it, finds no host and starts the command. -/
def startsCommand (n : String) : List Event := [.tick n, .statement n false, .listHosts n [] 0 true]

/-- Node `a` starts a command; when its lease is over, so does node `b`. -/
theorem command_outlives_lease :
    ∃ s, Reaches (fun _ => scalingOut) (fun _ _ => True) s ∧ (s.nodes "a").InProgress ∧
      (s.nodes "b").InProgress := by
  have hrun := Reaches.of_run (startsCommand "a" ++ .pass 30001 :: startsCommand "b")
    (.start : Reaches (fun _ => scalingOut) (fun _ _ => True) .start) rfl
  exact ⟨_, hrun, .inl ⟨_, _, rfl⟩, .inl ⟨_, _, rfl⟩⟩

end Tarit.Autoscale
