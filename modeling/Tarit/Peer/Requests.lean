import Tarit.Fleet.Records
import Mathlib.Data.List.Dedup
import Mathlib.Data.List.TakeWhile

/-!
# Signed requests between hosts

A host accepts a request of a peer if its timestamp is fresh by the wall clock and its nonce is not
in the replay cache, which forgets a nonce a fixed time after it was consumed. Instants are
nanoseconds of the monotonic clock, and the wall clock runs with it. `hmac` is the keyed hash of a
text, which is given by its components: no header value holds the newline that ends each of them.
-/
namespace Tarit.Peer

open Fleet List

def STREAMING_PAYLOAD : String := "STREAMING-UNSIGNED-PAYLOAD"
def MAX_PEER_IDENTITY_AGE_SECS : Nat := 10
def MAX_PEER_SOURCE_LEN : Nat := 128
def NANOS : Nat := 10 ^ 9

/-- What a request signature covers. -/
structure RequestMessage (Mac : Type) where
  method : String
  path : String
  payload_hash : String
  issued_at : Int
  nonce : Uuid
  source : String
  target : String
  source_session : Uuid
  target_session : Uuid
  /-- The signature of the forwarded identity, if there is one. -/
  identity : Option Mac
  deriving DecidableEq

/-- What the signature of a forwarded identity covers. -/
structure IdentityMessage where
  source : String
  issued_at : Int
  nonce : Uuid
  tenant : String
  role : String
  api_key_id : String
  deriving DecidableEq

/-- A request as it arrives: what its request line and headers say, and the hash of its body, `none`
if that is too long. It is `wellFormed` if each header is there once and can be read. -/
structure PeerRequest (Mac : Type) where
  wellFormed : Bool
  message : RequestMessage Mac
  signature : Mac
  body_hash : Option String
  identity : Option IdentityMessage

structure Host where
  host_id : String
  session : Uuid
  /-- The wall clock at instant 0, in nanoseconds. -/
  epoch : Nat

def Host.timestamp (host : Host) (now : Nat) : Nat := (host.epoch + now) / NANOS

def fresh (timestamp : Nat) (issued_at : Int) : Bool :=
  (timestamp - issued_at).natAbs ≤ MAX_PEER_IDENTITY_AGE_SECS

/-- The hash of the body that a request is held to; a share may be streamed. -/
def actualPayloadHash {Mac : Type} (r : PeerRequest Mac) : Option String :=
  if r.message.payload_hash = STREAMING_PAYLOAD then
    if "/internal/v1/shares/".toList.isPrefixOf r.message.path.toList then some STREAMING_PAYLOAD
    else none
  else r.body_hash

variable {Mac : Type} [DecidableEq Mac] (host : Host) (hmac : RequestMessage Mac → Mac)
  (sign : IdentityMessage → Mac)

/-- `verify_peer_request` up to the nonce; `current` is what the fleet says of the source. -/
def verified (now : Nat) (current : Bool) (r : PeerRequest Mac) : Bool :=
  r.wellFormed && r.message.source != "" &&
    decide (r.message.source.utf8ByteSize ≤ MAX_PEER_SOURCE_LEN) &&
    r.message.target == host.host_id && r.message.target_session == host.session &&
    fresh (host.timestamp now) r.message.issued_at &&
    actualPayloadHash r == some r.message.payload_hash &&
    decide (hmac r.message = r.signature) && current

/-- `peer_identity_from_headers` up to its nonce, for a verified request; `sign` is the keyed hash
of an identity. -/
def peerIdentity (now : Nat) (r : PeerRequest Mac) : Option IdentityMessage :=
  r.identity.filter fun i =>
    i.source == r.message.source && i.tenant != "" && fresh (host.timestamp now) i.issued_at &&
    decide (r.message.identity = some (sign i))

structure ReplayLimits where
  per_source : Nat
  total : Nat
  sources : Nat

/-- The queue of expirations. The nonces tracked of a source are those of its entries. -/
abbrev ReplayCache := List (Nat × String × Uuid)

/-- `consume_at_with_limits`, with whether the nonce is new. -/
def consumeAt (limits : ReplayLimits) (cache : ReplayCache) (source : String) (nonce : Uuid)
    (now ttl : Nat) : Bool × ReplayCache :=
  let cache := cache.dropWhile fun entry => entry.1 ≤ now
  let size := (cache.filter fun entry => entry.2.1 = source).length
  if source = "" ∨ MAX_PEER_SOURCE_LEN < source.utf8ByteSize ∨
      size = 0 ∧ limits.sources ≤ (cache.map (·.2.1)).dedup.length ∨
      limits.per_source ≤ size ∨ limits.total ≤ cache.length ∨
      (source, nonce) ∈ cache.map Prod.snd then (false, cache)
  else (true, cache ++ [(now + ttl, source, nonce)])

/-- A request reaches the host: its timestamp is checked and, once its body is read and the fleet
has answered, its nonce is consumed. -/
structure Delivery (Mac : Type) where
  request : PeerRequest Mac
  checked : Nat
  consumed : Nat
  current : Bool

/-- Whether the host accepts a delivery, and the cache it keeps. -/
def deliver (limits : ReplayLimits) (cache : ReplayCache) (d : Delivery Mac) : Bool × ReplayCache :=
  if verified host hmac d.checked d.current d.request then
    consumeAt limits cache d.request.message.source d.request.message.nonce d.consumed
      (MAX_PEER_IDENTITY_AGE_SECS * NANOS)
  else (false, cache)

def accepted (limits : ReplayLimits) : ReplayCache → List (Delivery Mac) → List (Delivery Mac)
  | _, [] => []
  | cache, d :: rest =>
    let out := deliver host hmac limits cache d
    if out.1 then d :: accepted limits out.2 rest else accepted limits out.2 rest

/-- What peers signed, each under a nonce of its own, and the identities they forwarded, in the
order the nonces are consumed. -/
structure Sent (signed : List (RequestMessage Mac)) (forwarded : List IdentityMessage)
    (ds : List (Delivery Mac)) : Prop where
  unforged : ∀ d ∈ ds, ∀ m, hmac m = d.request.signature → m ∈ signed
  identities : ∀ m ∈ signed, ∀ i, m.identity = some (sign i) → i ∈ forwarded
  nonces : ∀ m ∈ signed, ∀ m' ∈ signed, m.nonce = m'.nonce → m = m'
  inOrder : ds.Pairwise fun d d' => d.consumed ≤ d'.consumed

/-- A request that is delivered again: its nonce was first consumed after the second of its
timestamp was over, by at least the time that the later delivery takes from the check of the
timestamp to the nonce. -/
def Settled (d d' : Delivery Mac) : Prop :=
  d.request.message = d'.request.message →
    (d.request.message.issued_at + 1) * NANOS + (d'.consumed - d'.checked : Nat) ≤
      host.epoch + d.consumed

variable {host hmac sign} {limits : ReplayLimits} {cache : ReplayCache} {d d' : Delivery Mac}
  {ds : List (Delivery Mac)} {signed : List (RequestMessage Mac)}

theorem deliver_verified (h : (deliver host hmac limits cache d).1 = true) :
    verified host hmac d.checked d.current d.request = true := by
  unfold deliver at h
  split at h
  · assumption
  · cases h

theorem mem_accepted (h : d ∈ accepted host hmac limits cache ds) :
    d ∈ ds ∧ verified host hmac d.checked d.current d.request = true := by
  induction ds generalizing cache with
  | nil => cases h
  | cons x ds ih =>
    rw [accepted] at h
    split at h
    · next hx =>
      rcases mem_cons.mp h with rfl | h
      · exact ⟨.head _, deliver_verified hx⟩
      · exact ⟨.tail _ (ih h).1, (ih h).2⟩
    · exact ⟨.tail _ (ih h).1, (ih h).2⟩

def Delivery.expires (d : Delivery Mac) : Nat := d.consumed + MAX_PEER_IDENTITY_AGE_SECS * NANOS

def Delivery.entry (d : Delivery Mac) : Nat × String × Uuid :=
  (d.expires, d.request.message.source, d.request.message.nonce)

/-- An entry is in the cache until it expires. -/
def Tracked (cache : ReplayCache) (d : Delivery Mac) (now : Nat) : Prop :=
  d.entry ∈ cache ∨ d.expires ≤ now

omit [DecidableEq Mac] in
theorem Tracked.drop {now now' : Nat} (h : Tracked cache d now) (hle : now ≤ now') :
    Tracked (cache.dropWhile fun entry => entry.1 ≤ now') d now' := by
  by_cases hold : d.expires ≤ now'
  · exact .inr hold
  have hmem := h.resolve_right fun h => hold (le_trans h hle)
  rw [← cache.takeWhile_append_dropWhile] at hmem
  refine .inl ((mem_append.mp hmem).resolve_left fun htake => hold ?_)
  have hsmall := mem_takeWhile_imp htake
  exact of_decide_eq_true hsmall

/-- An accepted nonce stays known until it expires. -/
theorem Tracked.deliver {now : Nat} (h : Tracked cache d now) (hle : now ≤ d'.consumed) :
    Tracked (deliver host hmac limits cache d').2 d d'.consumed := by
  unfold Peer.deliver consumeAt
  dsimp only
  split
  · split
    · exact h.drop hle
    · exact (h.drop hle).imp_left (mem_append_left _)
  · exact h.imp_right fun h => le_trans h hle

theorem tracked_of_deliver (h : (deliver host hmac limits cache d).1 = true) :
    Tracked (deliver host hmac limits cache d).2 d d.consumed ∧
      ∀ old now, Tracked cache old now → now ≤ d.consumed →
        old.request.message = d.request.message → old.expires ≤ d.consumed := by
  have hverified := deliver_verified h
  unfold deliver consumeAt at h ⊢
  rw [if_pos hverified] at h ⊢
  dsimp only at h ⊢
  split at h
  · cases h
  rename_i hnew
  rw [if_neg hnew]
  refine ⟨.inl (mem_append_right _ (.head _)), fun old now htracked hle hsame => ?_⟩
  rcases htracked.drop hle with hmem | hexpired
  · refine absurd ?_ hnew
    have hkey := mem_map_of_mem (f := Prod.snd) hmem
    rw [Delivery.entry, hsame] at hkey
    exact .inr (.inr (.inr (.inr (.inr hkey))))
  · exact hexpired

/-- A settled request that is sent again after its entry has expired is not fresh. -/
theorem Settled.stale (h : Settled host d d') (hsame : d.request.message = d'.request.message)
    (hexpired : d.expires ≤ d'.consumed) :
    ¬ verified host hmac d'.checked d'.current d'.request = true := by
  intro hverified
  simp only [verified, fresh, Host.timestamp, Bool.and_eq_true] at hverified
  obtain ⟨⟨⟨⟨-, hfresh⟩, -⟩, -⟩, -⟩ := hverified
  have hfresh := of_decide_eq_true hfresh
  have hissued := h hsame
  rw [hsame] at hissued
  unfold Delivery.expires at hexpired
  simp only [MAX_PEER_IDENTITY_AGE_SECS, NANOS] at *
  omega

theorem Tracked.not_accepted {now : Nat} (htracked : Tracked cache d now)
    (hsettled : ∀ x ∈ ds, Settled host d x ∧ now ≤ x.consumed)
    (hds : ds.Pairwise fun d d' => d.consumed ≤ d'.consumed) :
    ∀ x ∈ accepted host hmac limits cache ds, d.request.message ≠ x.request.message := by
  induction ds generalizing cache now with
  | nil =>
    intro x hx
    cases hx
  | cons y ds ih =>
    obtain ⟨hy, hds⟩ := pairwise_cons.mp hds
    have hle := (hsettled y (.head _)).2
    have htracked' : Tracked (Peer.deliver host hmac limits cache y).2 d y.consumed :=
      htracked.deliver hle
    have hrest := ih htracked' (fun x hx => ⟨(hsettled x (.tail _ hx)).1, hy x hx⟩) hds
    rw [accepted]
    split
    · next hnew =>
      refine forall_mem_cons.mpr ⟨fun hsame => ?_, hrest⟩
      have hexpired := (tracked_of_deliver hnew).2 d now htracked hle hsame
      exact (hsettled y (.head _)).1.stale hsame hexpired (deliver_verified hnew)
    · exact hrest

theorem accepted_nodup (hsettled : ds.Pairwise (Settled host))
    (hds : ds.Pairwise fun d d' => d.consumed ≤ d'.consumed) :
    ((accepted host hmac limits cache ds).map (·.request.message)).Nodup := by
  induction ds generalizing cache with
  | nil => exact nodup_nil
  | cons d ds ih =>
    obtain ⟨hd, hds⟩ := pairwise_cons.mp hds
    obtain ⟨hsettled, hrest⟩ := pairwise_cons.mp hsettled
    rw [accepted]
    split
    · next hnew =>
      refine nodup_cons.mpr ⟨fun hmem => ?_, ih hrest hds⟩
      obtain ⟨x, hx, hsame⟩ := mem_map.mp hmem
      exact (tracked_of_deliver hnew).1.not_accepted (fun x hx => ⟨hsettled x hx, hd x hx⟩) hds x hx
        hsame.symm
    · exact ih hrest hds

/-- A request that is accepted is what a peer signed for this host and session, body hash and
forwarded identity included. If the nonce of each request that is delivered again was first consumed
late enough after the second of its timestamp, no nonce is accepted twice. -/
theorem peer_requests_accepted_once (limits : ReplayLimits) {forwarded : List IdentityMessage}
    (hsent : Sent hmac sign signed forwarded ds) :
    (∀ d ∈ accepted host hmac limits [] ds, d.request.message ∈ signed ∧
      d.request.message.target = host.host_id ∧ d.request.message.target_session = host.session ∧
      (d.request.body_hash = some d.request.message.payload_hash ∨
        d.request.message.payload_hash = STREAMING_PAYLOAD) ∧
      ∀ now i, peerIdentity host sign now d.request = some i →
        d.request.message.identity = some (sign i) ∧ i ∈ forwarded) ∧
    (ds.Pairwise (Settled host) →
      ((accepted host hmac limits [] ds).map (·.request.message.nonce)).Nodup) := by
  have hsigned : ∀ d ∈ accepted host hmac limits [] ds, d.request.message ∈ signed := by
    intro d hd
    obtain ⟨hmem, hverified⟩ := mem_accepted hd
    simp only [verified, Bool.and_eq_true, decide_eq_true_eq] at hverified
    exact hsent.unforged d hmem _ hverified.1.2
  refine ⟨fun d hd => ?_, fun hsettled => ?_⟩
  · obtain ⟨hmem, hverified⟩ := mem_accepted hd
    simp only [verified, Bool.and_eq_true, decide_eq_true_eq, beq_iff_eq] at hverified
    obtain ⟨⟨⟨⟨⟨⟨-, htarget⟩, hsession⟩, -⟩, hhash⟩, -⟩, -⟩ := hverified
    refine ⟨hsigned d hd, htarget, hsession, ?_, fun now i hi => ?_⟩
    · unfold actualPayloadHash at hhash
      split at hhash
      · next hstream => exact .inr hstream
      · exact .inl hhash
    · have hi := (Option.filter_eq_some_iff.mp hi).2
      simp only [Bool.and_eq_true, decide_eq_true_eq] at hi
      exact ⟨hi.2, hsent.identities _ (hsigned d hd) i hi.2⟩
  · have hnodup : ((accepted host hmac limits [] ds).map (·.request.message)).Nodup :=
      accepted_nodup hsettled hsent.inOrder
    have hnonces := hnodup.map_on (f := RequestMessage.nonce) fun m hm m' hm' hnonce => ?_
    · rwa [map_map] at hnonces
    · obtain ⟨d, hd, rfl⟩ := mem_map.mp hm
      obtain ⟨d', hd', rfl⟩ := mem_map.mp hm'
      exact hsent.nonces _ (hsigned d hd) _ (hsigned d' hd') hnonce

/-! ## A request sent twice -/

/-- The URL-safe base64 of the SHA-256 of no bytes. -/
def EMPTY_BODY_HASH : String := "47DEQpj8HBSa-_TImW-5JCeuQeRkm5NMpJWZG3hSuFU"

def tenantIdentity : IdentityMessage := ⟨"a", 100, 2, "tenant", "admin", "key"⟩

def signIdentity (i : IdentityMessage) : Nat := if i = tenantIdentity then 5 else 0

def ping : RequestMessage Nat :=
  { method := "GET", path := "/internal/v1/vms", payload_hash := EMPTY_BODY_HASH, issued_at := 100,
    nonce := 1, source := "a", target := "b", source_session := 1, target_session := 2
    identity := some 5 }

def pingHmac (m : RequestMessage Nat) : Nat := if m = ping then 1 else 0

/-- The request is delivered to its host the given number of seconds after its epoch. -/
def pingAt (secs : Nat) : Delivery Nat :=
  ⟨⟨true, ping, 1, some EMPTY_BODY_HASH, some tenantIdentity⟩, secs * NANOS, secs * NANOS, true⟩

theorem sent_pings {secs secs' : Nat} (h : secs ≤ secs') :
    Sent pingHmac signIdentity [ping] [tenantIdentity] [pingAt secs, pingAt secs'] := by
  refine ⟨fun d hd m hm => ?_, fun m hm i hi => ?_, fun m hm m' hm' _ => ?_, ?_⟩
  · have hsignature : d.request.signature = 1 := by
      rcases mem_pair.mp hd with rfl | rfl <;> rfl
    rw [hsignature, pingHmac, ite_eq_left_iff] at hm
    exact mem_singleton.mpr (by_contra fun hne => absurd (hm hne) (by decide))
  · cases mem_singleton.mp hm
    have hfive : 5 = signIdentity i := Option.some.inj hi
    rw [signIdentity] at hfive
    exact mem_singleton.mpr (by_contra fun hne => by simp [hne] at hfive)
  · rw [mem_singleton.mp hm, mem_singleton.mp hm']
  · exact pairwise_pair.mpr (Nat.mul_le_mul_right _ h)

/-- One second after its timestamp the request is accepted with its identity, and then not again. -/
theorem late_request_accepted_once :
    (accepted ⟨"b", 2, 0⟩ pingHmac ⟨65536, 262144, 1024⟩ [] [pingAt 101, pingAt 111]).length = 1 ∧
      peerIdentity ⟨"b", 2, 0⟩ signIdentity (101 * NANOS) (pingAt 101).request =
        some tenantIdentity ∧
      ((accepted ⟨"b", 2, 0⟩ pingHmac ⟨65536, 262144, 1024⟩ [] [pingAt 101, pingAt 111]).map
        (·.request.message.nonce)).Nodup := by
  refine ⟨rfl, by decide, (peer_requests_accepted_once _ (sent_pings (by decide))).2 ?_⟩
  exact pairwise_pair.mpr fun _ => by decide

/-- Sent in the second of its timestamp, the request is accepted again ten seconds later. -/
theorem replayed_request_accepted :
    Sent pingHmac signIdentity [ping] [tenantIdentity] [pingAt 100, pingAt 110] ∧
      (accepted ⟨"b", 2, 0⟩ pingHmac ⟨65536, 262144, 1024⟩ [] [pingAt 100, pingAt 110]).map
        (·.request.message.nonce) = [1, 1] :=
  ⟨sent_pings (by decide), rfl⟩

end Tarit.Peer
