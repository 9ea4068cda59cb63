import Tarit.Lib.Bytes

/-!
# The cache of file digests

`sha256_regular_file` remembers the digest of a file with its metadata, and serves it to a call that
samples the same metadata. Here are one file, the writes to it, and calls on it whose reads come
between the writes. Times are nanoseconds; a write takes its time from a clock that is less than a
second behind. `sha256` gives the text of a digest.
-/
namespace Tarit.Image

open Lib Function List Option

def DIGEST_CACHE_SETTLE_SECS : Nat := 2
def NANOS : Nat := 10 ^ 9

structure File where
  bytes : Bytes
  mtime : Nat
  ctime : Nat

/-- The device and the inode of the file stay the same. -/
structure FileIdentity where
  size : Nat
  mtime : Nat
  ctime : Nat
  deriving DecidableEq

def FileIdentity.of (file : File) : FileIdentity := ⟨file.bytes.length, file.mtime, file.ctime⟩

def FileIdentity.settled (identity : FileIdentity) (now : Nat) : Bool :=
  DIGEST_CACHE_SETTLE_SECS ≤ now / NANOS - identity.ctime / NANOS

/-- What a call does next: look into the cache, read, check its metadata again, or insert. -/
inductive Pc where
  | looking | reading | checking | inserting

structure Call where
  pc : Pc
  identity : FileIdentity
  /-- What the hasher was given. -/
  hashed : Bytes
  /-- The content when the metadata was sampled. -/
  content : Bytes

/-- One file, the cache and the calls of `sha256_file` on it. -/
structure State where
  now : Nat
  file : File
  cache : Option (FileIdentity × String)
  calls : Nat → Option Call
  /-- The digests served from the cache, with the content that their call sampled. -/
  served : List (String × Bytes)

def State.start (file : File) : State := ⟨file.ctime, file, none, fun _ => none, []⟩

inductive Event where
  | wait (ns : Nat)
  | write (bytes : Bytes) (time : Nat)
  | sample (id : Nat)
  /-- A call goes on; a read gives at most `n + 1` bytes. -/
  | advance (id n : Nat)
  | fail (id : Nat)
  /-- The digests of other files fill the cache, and it is cleared. -/
  | clear

def State.put (s : State) (id : Nat) (call : Option Call) : State :=
  { s with calls := update s.calls id call }

section Runs

variable (sha256 : Bytes → String)

def State.advance (s : State) (id n : Nat) (call : Call) : State :=
  match call.pc with
  | .looking =>
    match s.cache.filter fun entry => call.identity.settled s.now && entry.1 == call.identity with
    | some entry => { s.put id none with served := (entry.2, call.content) :: s.served }
    | none => s.put id (some { call with pc := .reading })
  | .reading =>
    match slice s.file.bytes call.hashed.length (min (n + 1) (1024 * 1024)) with
    | [] => s.put id (some { call with pc := .checking })
    | data => s.put id (some { call with hashed := call.hashed ++ data })
  | .checking =>
    if call.identity.settled s.now && FileIdentity.of s.file == call.identity then
      s.put id (some { call with pc := .inserting })
    else s.put id none
  | .inserting => { s.put id none with cache := some (call.identity, sha256 call.hashed) }

def State.step (s : State) : Event → Option State
  | .wait ns => some { s with now := s.now + ns }
  | .write bytes time =>
    if s.file.ctime ≤ time ∧ time ≤ s.now ∧ s.now < time + NANOS then
      some { s with file := ⟨bytes, time, time⟩ }
    else none
  | .sample id => some (s.put id (some ⟨.looking, .of s.file, [], s.file.bytes⟩))
  | .advance id n => (s.calls id).map (s.advance sha256 id n)
  | .fail id => some (s.put id none)
  | .clear => some { s with cache := none }

def State.run (s : State) : List Event → Option State
  | [] => some s
  | event :: events => (s.step sha256 event).bind fun s' => s'.run events

/-- No write repeats the change time that a call under way has sampled. -/
def Event.Apart (s : State) : Event → Prop
  | .write _ time => ∀ id call, s.calls id = some call → call.identity.ctime ≠ time
  | _ => True

def State.ApartIn (s : State) : List Event → Prop
  | [] => True
  | event :: events =>
    event.Apart s ∧ (s.step sha256 event).elim True fun s' => s'.ApartIn events

end Runs

/-! ## What a change time stands for -/

/-- The bytes that a call has hashed are those it sampled, as long as the change time is the same,
and for good once it was checked. -/
structure Call.Ok (content : Nat → Bytes) (ctime now : Nat) (call : Call) : Prop where
  sampled : content call.identity.ctime = call.content
  hashed : call.identity.ctime = ctime → call.hashed <+: call.content
  whole : call.pc = .checking → call.identity.ctime = ctime → call.hashed = call.content
  checked : call.pc = .inserting → call.hashed = call.content ∧ call.identity.ctime + NANOS ≤ now

/-- `content` is what the file held at each change time that a call or the cache has. -/
structure Inv (sha256 : Bytes → String) (s : State) (content : Nat → Bytes) : Prop where
  file : content s.file.ctime = s.file.bytes
  calls : ∀ id call, s.calls id = some call → call.Ok content s.file.ctime s.now
  cache : ∀ entry, s.cache = some entry →
    entry.1.ctime + NANOS ≤ s.now ∧ entry.2 = sha256 (content entry.1.ctime)
  served : ∀ p ∈ s.served, p.1 = sha256 p.2

variable {sha256 : Bytes → String} {s s' : State} {content : Nat → Bytes} {event : Event}
  {call : Call} {id n : Nat}

theorem FileIdentity.settled_le {identity : FileIdentity} {now : Nat}
    (h : identity.settled now = true) : identity.ctime + NANOS ≤ now := by
  have hsecs := of_decide_eq_true h
  unfold DIGEST_CACHE_SETTLE_SECS NANOS at hsecs
  unfold NANOS
  omega

theorem Inv.put (hi : Inv sha256 s content) {next : Option Call}
    (hnext : ∀ call, next = some call → call.Ok content s.file.ctime s.now) :
    Inv sha256 (s.put id next) content := by
  refine { hi with calls := fun other call hcall => ?_ }
  have hcall : update s.calls id next other = some call := hcall
  by_cases hother : other = id
  · rw [hother, update_self] at hcall
    exact hnext call hcall
  · rw [update_of_ne hother] at hcall
    exact hi.calls other call hcall

theorem Inv.drop (hi : Inv sha256 s content) : Inv sha256 (s.put id none) content :=
  hi.put fun _ hnext => nomatch hnext

theorem Inv.goto (hi : Inv sha256 s content) (hc : call.Ok content s.file.ctime s.now) :
    Inv sha256 (s.put id (some call)) content := by
  refine hi.put fun _ hnext => ?_
  cases hnext
  exact hc

theorem slice_after {bytes data : Bytes} (h : data <+: bytes) (n : Nat) :
    data ++ slice bytes data.length n <+: bytes := by
  obtain ⟨rest, rfl⟩ := h
  rw [slice, drop_left]
  exact (prefix_append_right_inj data).mpr ⟨_, take_append_drop n rest⟩

/-- One system call of a `sha256_file` keeps the invariant. -/
theorem Inv.advance (hi : Inv sha256 s content) (hcall : s.calls id = some call) :
    Inv sha256 (s.advance sha256 id n call) content := by
  have hc := hi.calls id call hcall
  have hbytes (hsame : call.identity.ctime = s.file.ctime) : call.content = s.file.bytes := by
    rw [← hc.sampled, hsame, hi.file]
  unfold State.advance
  split
  · split
    · next entry hfound =>
      obtain ⟨hentry, hmatch⟩ := filter_eq_some_iff.mp hfound
      have hsame := beq_iff_eq.mp (Bool.and_eq_true_iff.mp hmatch).2
      refine { hi.drop with served := forall_mem_cons.mpr ⟨?_, hi.served⟩ }
      rw [(hi.cache entry hentry).2, hsame, hc.sampled]
    · exact hi.goto { hc with
        whole := fun h => by cases h
        checked := fun h => by cases h }
  · next hpc =>
    split
    · next hend =>
      refine hi.goto { hc with whole := fun _ hsame => ?_, checked := fun h => by cases h }
      have hnil := congrArg List.length hend
      simp only [slice, length_take, length_drop, length_nil] at hnil
      refine (hc.hashed hsame).eq_of_length_le ?_
      rw [hbytes hsame]
      omega
    · refine hi.goto { hc with
        hashed := fun hsame => ?_
        whole := fun h => by rw [hpc] at h; cases h
        checked := fun h => by rw [hpc] at h; cases h }
      have hread := hc.hashed hsame
      rw [hbytes hsame] at hread ⊢
      exact slice_after hread _
  · next hpc =>
    split
    · next hcheck =>
      obtain ⟨hsettled, hsame⟩ := Bool.and_eq_true_iff.mp hcheck
      have htime : call.identity.ctime = s.file.ctime := by
        rw [← beq_iff_eq.mp hsame]
        rfl
      exact hi.goto { hc with
        whole := fun h => by cases h
        checked := fun _ => ⟨hc.whole hpc htime, FileIdentity.settled_le hsettled⟩ }
    · exact hi.drop
  · next hpc =>
    obtain ⟨hhashed, hsettled⟩ := hc.checked hpc
    refine { hi.drop with cache := fun entry hentry => ?_ }
    cases hentry
    exact ⟨hsettled, by rw [hhashed, hc.sampled]⟩

/-- A write gives a change time that no call has, and no entry of the cache. -/
theorem Inv.write (hi : Inv sha256 s content) {bytes : Bytes} {time : Nat}
    (hclock : s.now < time + NANOS)
    (hapart : ∀ id call, s.calls id = some call → call.identity.ctime ≠ time) :
    Inv sha256 { s with file := ⟨bytes, time, time⟩ } (update content time bytes) := by
  refine { hi with
    file := update_self .., calls := fun id call hcall => ?_, cache := fun entry hentry => ?_ }
  · have hc := hi.calls id call hcall
    have hne := hapart id call hcall
    exact { hc with
      sampled := (update_of_ne hne ..).trans hc.sampled
      hashed := fun hsame => absurd hsame hne
      whole := fun _ hsame => absurd hsame hne }
  · obtain ⟨hsettled, hdigest⟩ := hi.cache entry hentry
    have hne : entry.1.ctime ≠ time := by omega
    exact ⟨hsettled, by rw [hdigest, update_of_ne hne]⟩

/-- The content the invariant names changes with a write to the file. -/
theorem Inv.step (hi : Inv sha256 s content) (hapart : event.Apart s)
    (hstep : s.step sha256 event = some s') : ∃ content', Inv sha256 s' content' := by
  cases event with
  | wait ns =>
    cases hstep
    refine ⟨content, { hi with calls := fun id call hcall => ?_, cache := fun entry hentry => ?_ }⟩
    · have hc := hi.calls id call hcall
      exact { hc with checked := fun hpc => (hc.checked hpc).imp_right (Nat.le_add_right_of_le ·) }
    · exact (hi.cache entry hentry).imp_left (Nat.le_add_right_of_le ·)
  | write bytes time =>
    obtain ⟨hwrite, ⟨⟩⟩ := ite_none_right_eq_some.mp hstep
    exact ⟨_, hi.write hwrite.2.2 hapart⟩
  | sample id =>
    cases hstep
    exact ⟨content, hi.goto ⟨hi.file, fun _ => nil_prefix, nofun, nofun⟩⟩
  | advance id n =>
    obtain ⟨call, hcall, rfl⟩ := map_eq_some_iff.mp hstep
    exact ⟨content, hi.advance hcall⟩
  | fail id =>
    cases hstep
    exact ⟨content, hi.drop⟩
  | clear =>
    cases hstep
    exact ⟨content, { hi with cache := nofun }⟩

/-- By induction over the events, from `Inv.step`. -/
theorem Inv.run {events : List Event} (hi : Inv sha256 s content) (hapart : s.ApartIn sha256 events)
    (hrun : s.run sha256 events = some s') : ∃ content', Inv sha256 s' content' := by
  induction events generalizing s content with
  | nil =>
    cases hrun
    exact ⟨content, hi⟩
  | cons event events ih =>
    obtain ⟨next, hstep, hrest⟩ := bind_eq_some_iff.mp hrun
    obtain ⟨content', hnext⟩ := hi.step hapart.1 hstep
    have hrestApart := hapart.2
    rw [hstep] at hrestApart
    exact ih hnext hrestApart hrest

/-- If no write repeats the change time that a call under way has sampled, every digest served from
the cache is that of the content which its call sampled. -/
theorem served_digest_of_sampled (sha256 : Bytes → String) (file : File) {events : List Event}
    (hapart : (State.start file).ApartIn sha256 events)
    (hrun : (State.start file).run sha256 events = some s') :
    ∀ p ∈ s'.served, p.1 = sha256 p.2 := by
  have hstart : Inv sha256 (.start file) fun _ => file.bytes := ⟨rfl, nofun, nofun, nofun⟩
  obtain ⟨_, hi⟩ := hstart.run hapart hrun
  exact hi.served

def shortDigest (bytes : Bytes) : String := if bytes = [1] then "1" else "2"

/-- The file is written while the first call reads it, and is at rest when the second hashes it. -/
def writtenAndHashed : List Event :=
  [.wait NANOS, .sample 0, .advance 0 0, .advance 0 0, .write [2] NANOS, .advance 0 0,
    .wait (3 * NANOS), .advance 0 0, .sample 1, .advance 1 0, .advance 1 0, .advance 1 0,
    .advance 1 0, .advance 1 0, .sample 2, .advance 2 0]

theorem second_call_served :
    ∃ s, (State.start ⟨[1], 0, 0⟩).run shortDigest writtenAndHashed = some s ∧
      s.served = [("2", [2])] ∧ ∀ p ∈ s.served, p.1 = shortDigest p.2 := by
  have hapart : (State.start ⟨[1], 0, 0⟩).ApartIn shortDigest writtenAndHashed := by
    refine ⟨trivial, trivial, trivial, trivial, ?_, trivial, trivial, trivial, trivial, trivial,
      trivial, trivial, trivial, trivial, trivial, trivial, trivial⟩
    -- the first call is the only one under way, and has sampled the time 0
    intro id call hcall
    cases id with
    | zero =>
      cases hcall
      decide
    | succ id => cases hcall
  refine ⟨_, rfl, rfl, ?_⟩
  exact served_digest_of_sampled _ _ hapart rfl

/-- The file is written again in the tick of its last change, after it was read; the call goes on
until the file has settled. -/
def writtenWhileHashed : List Event :=
  [.sample 0, .advance 0 0, .advance 0 0, .write [2] 0, .advance 0 0, .wait (2 * NANOS),
    .advance 0 0, .advance 0 0, .sample 1, .advance 1 0]

theorem digest_of_overwritten_served : ∃ s,
    (State.start ⟨[1], 0, 0⟩).run shortDigest writtenWhileHashed = some s ∧
    s.served = [("1", [2])] :=
  ⟨_, rfl, rfl⟩

end Tarit.Image
