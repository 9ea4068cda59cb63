import Tarit.Virtio.Rules

/-!
# One call of the walker on memory only the device changes

The outer loop of `process_queue_descriptors_dirty` goes round again when the available
index no longer is where the inner loop left it. Nothing in `queue_is_usable` keeps the
bytes the device writes apart from that index, so a guest that lets the used ring cover it
is served chains it never published. When the device's own writes stay off the index, the
first round is the last one.
-/
namespace Tarit.Virtio

open Lib Live Snapshot World Prog Triple

variable {H δ τ : Type} {A : H → Type}

def counted (handler : Handler A δ) : Handler A (δ × Nat) := fun d readable writable => do
  let (used_len, captured) ← handler d.1 readable writable
  return (used_len, captured, d.2 + 1)

def Off (lo len addr : Nat) (data : Bytes) : Prop := addr + data.length ≤ lo ∨ lo + len ≤ addr

instance (lo len addr : Nat) (data : Bytes) : Decidable (Off lo len addr data) :=
  inferInstanceAs (Decidable (addr + data.length ≤ lo ∨ lo + len ≤ addr))

section Alone

attribute [local irreducible] Triple

variable {L : Layout} {host : (call : H) → τ → A call × τ} {c : QueueConfig} {v : UInt16}

/-- The runs in which no store touches the available index. -/
abbrev offIdx (L : Layout) (host : (call : H) → τ → A call × τ) (c : QueueConfig) :
    World (Guest × τ) (Op H) (Res A) :=
  aloneWorld L (Off (c.avail_ring_addr + 2) 2) host

theorem stable_offIdx (P : Guest × τ → Prop) : (offIdx L host c).Stable P := fun _ _ _ h => h.elim

def IdxIs (c : QueueConfig) (v : UInt16) (x : Guest × τ) : Prop :=
  word x.1.cells (c.avail_ring_addr + 2) = v

theorem IdxIs.store {x : Guest × τ} {addr : Nat} {data : Bytes} (h : IdxIs c v x)
    (hoff : Off (c.avail_ring_addr + 2) 2 addr data) :
    IdxIs c v (x.1.store L addr data, x.2) := by
  unfold IdxIs
  rw [word_store_outside (by unfold Off at hoff; omega)]
  exact h

/-- Whatever a program does, it leaves the index alone in these runs. -/
theorem triple_idxIs {α : Type} (p : Device A α) :
    (offIdx L host c).Triple (IdxIs c v) p fun _ => IdxIs c v := by
  apply of_uses (S := fun _ => True) _ (stable_offIdx _)
  · intro o s r t _ hs hexec
    cases o with
    | load addr len =>
      obtain ⟨-, rfl⟩ := hexec
      exact hs
    | store addr data =>
      obtain ⟨hoff, -, rfl⟩ := hexec
      exact hs.store hoff
    | mark gpa len =>
      rw [hexec]
      exact hs
    | host call =>
      unfold IdxIs
      rw [hexec.2]
      exact hs
  · exact uses_all p

theorem counted_gives (handler : Handler A δ) (d : δ × Nat) (readable writable : List Buf) :
    (counted handler d readable writable).Gives fun r => r.2.2 = d.2 + 1 :=
  gives_skip fun _ => rfl

variable {handler : Handler A δ}

/-- The inner loop calls the handler once for an available entry at most. -/
theorem drain_counted {avail_idx : UInt16} (n : Nat) (s : Session (δ × Nat)) :
    (drain L (counted handler) avail_idx n s).Gives fun r => r.2.captured.2 ≤ s.captured.2 + n := by
  induction n generalizing s with
  | zero => exact le_refl _
  | succ n ih =>
    unfold drain
    split
    · exact Nat.le_add_right _ _
    split
    · exact Nat.le_add_right _ _
    apply gives_skip
    intro head
    cases head with
    | none => exact Nat.le_add_right _ _
    | some head =>
      apply gives_skip
      intro chain
      cases chain with
      | none => exact (ih _).imp fun _ h => le_trans h (by dsimp only; omega)
      | some chain =>
        apply gives_bind (counted_gives handler _ _ _)
        intro r hr
        obtain ⟨answer, d⟩ := r
        have hd : d.2 ≤ s.captured.2 + (n + 1) := by
          change d.2 = s.captured.2 + 1 at hr
          omega
        cases answer with
        | none => exact hd
        | some len =>
          dsimp only
          split
          · exact hd
          apply gives_skip
          intro _
          apply (ih _).imp
          intro t ht
          change d.2 = s.captured.2 + 1 at hr
          change t.2.captured.2 ≤ d.2 + n at ht
          omega

/-- When no store touches the available index, a round is the last one. It returns with what
its inner loop left. -/
theorem triple_round_last (hc : Usable L c) (s : Session δ) (hs : s.queue.config = c)
    {ψ : Session δ → Prop}
    (hψ : (drain L handler v (v - s.queue.last_avail_idx).toNat s).Gives fun r => ψ r.2) :
    (offIdx L host c).Triple (IdxIs c v) (round L handler s) fun r _ => ∃ t, r = .inr t ∧ ψ t := by
  have hidx := hc.availIdxAddr
  apply bind
    (Q := fun r x => (∃ header, r = some header ∧
      UInt16.ofNat (fromLeBytes (slice header 2 2)) = v) ∧ IdxIs c v x)
  · apply triple_load (stable_offIdx _) (fun _ => stable_offIdx _)
    intro x hx
    rw [hs, Guest.load, if_pos hc.availHeader]
    refine ⟨⟨_, rfl, ?_⟩, hx⟩
    rw [slice_peek (by omega)]
    exact hx
  · intro r
    apply of_and
    rintro ⟨header, rfl, hv⟩
    dsimp only
    rw [hv]
    have hdrain : (offIdx L host c).Triple (IdxIs c v)
        (drain L handler v (v - s.queue.last_avail_idx).toNat s) _ :=
      triple_drain hc (stable_offIdx _) (fun x gpa len hx => hx)
        (fun x _ _ addr _ _ hx hoff => hx.store hoff)
        (fun d readable writable => (triple_idxIs _).post fun _ _ h => ⟨fun _ => trivial, h⟩)
        _ s ⟨hs, rfl⟩ rfl
    apply bind (gives hψ hdrain)
    rintro ⟨stopped, t⟩
    apply of_and
    intro ht
    apply of_and
    rintro ⟨⟨hcfg, -⟩, -, hend⟩
    apply bind (triple_idxIs _)
    intro _
    split
    · exact .ret fun _ => ⟨t, rfl, ht⟩
    apply bind (triple_idxIs _)
    intro _
    split
    · exact .ret fun _ => ⟨t, rfl, ht⟩
    rename_i hstop
    rw [hcfg, hidx.1]
    apply known (φ := fun r => r = some v)
    · apply triple_readU16 (stable_offIdx _) hidx.2 (fun _ => stable_offIdx _)
      intro x hx
      rw [show word x.1.cells (c.avail_ring_addr + 2) = v from hx]
    · intro r hr
      have hlast : t.queue.last_avail_idx = v := hend (by simpa using hstop)
      simp only [hr, hlast, ne_eq, not_true_eq_false, if_false]
      exact .ret fun _ => ⟨t, rfl, ht⟩

end Alone

/-- On a queue `queue_is_usable` accepts, a call none of whose stores touches the available
index returns, however the rings overlap otherwise, and has called the handler at most once
for each entry that was available when it began. -/
theorem process_calls_at_most_available (L : Layout) (host : (call : H) → τ → A call × τ)
    (handler : Handler A δ) (q : VirtQueueProcessor) (d : δ) (s : Guest × τ) (fuel : Nat)
    (husable : q.config.queueIsUsable L = true)
    (hoff : (processQueueDescriptorsDirty L (fuel + 1) (counted handler) q (d, 0)).Meets
      (answer L host) (Storing (Off (q.config.avail_ring_addr + 2) 2)) s) :
    ∃ t x,
      (processQueueDescriptorsDirty L (fuel + 1) (counted handler) q (d, 0)).interp
      (answer L host) s =
        (some t, x) ∧
      t.captured.2 ≤ (word s.1.cells (q.config.avail_ring_addr + 2) - q.last_avail_idx).toNat := by
  simp only [processQueueDescriptorsDirty, husable, if_true, rounds] at hoff ⊢
  have hround : (offIdx L host q.config).Triple
      (IdxIs q.config (word s.1.cells (q.config.avail_ring_addr + 2)))
      (round L (counted handler) ⟨q, 0, (d, 0)⟩) _ :=
    triple_round_last (usable_of husable) ⟨q, 0, (d, 0)⟩ rfl
      (ψ := fun t => t.captured.2 ≤
        0 + (word s.1.cells (q.config.avail_ring_addr + 2) - q.last_avail_idx).toNat)
      (drain_counted _ ⟨q, 0, (d, 0)⟩)
  have hrun := runs_alone L host _ (meets_bind.mp hoff).1
  obtain ⟨t, ht, hcount⟩ := hround rfl hrun
  simp only [interp_bind, ht]
  exact ⟨t, _, rfl, by simpa using hcount⟩

/-! ## A used ring over the available ring -/

theorem onePage_pos : 0 < 4096 := by decide

theorem onePage_whole : 4096 % PAGE_SIZE = 0 := by decide

theorem onePage_fits : 4096 < u64Size := by decide

def onePage : Layout := ⟨4096, onePage_pos, onePage_whole, onePage_fits⟩

/-- Memory that holds the 16-bit words of `words` and zeros. -/
def guestWith (words : List (Nat × UInt16)) : Guest :=
  ⟨words.foldl (fun cells w => put cells w.1 (u16Bytes w.2)) fun _ => 0, ∅, ∅⟩

abbrev NoCalls : Empty → Type := fun _ => Unit

def noHost : (call : Empty) → Unit → NoCalls call × Unit := nofun

/-- A handler that completes two chains and leaves the third. -/
def twoChains : Handler NoCalls Nat := fun k _ _ => pure (if k < 2 then some 0 else none, k + 1)

/-- A queue of two entries whose used ring is where its available ring is. -/
def coveredQueue : VirtQueueProcessor :=
  (VirtQueueProcessor.new ⟨2, 0x100, 0x200, 0x200, true⟩).setEventIdx true

/-- One entry is available and its head is out of range. The call skips it, publishes the
used index over the available one, and then serves three chains. -/
theorem covered_index_serves_more :
    coveredQueue.config.queueIsUsable onePage = true ∧
      word (guestWith [(0x202, 1), (0x204, 5)]).cells
        (0x200 + 2) - coveredQueue.last_avail_idx = 1 ∧
      ((processQueueDescriptorsDirty onePage 3 (counted twoChains) coveredQueue (0, 0)).interp
        (answer onePage noHost) (guestWith [(0x202, 1), (0x204, 5)], ())).1.map
          (fun t => t.captured.2) = some 3 := by
  decide +kernel

/-- With the used ring elsewhere the same memory is served as it should be. -/
def apartQueue : VirtQueueProcessor :=
  (VirtQueueProcessor.new ⟨2, 0x100, 0x200, 0x300, true⟩).setEventIdx true

/-- Two chains of one buffer each are available; the handler is called for both. -/
def twoAvailable : Guest :=
  guestWith [(0x100, 0x400), (0x108, 16), (0x110, 0x500), (0x118, 16), (0x202, 2), (0x206, 1)]

theorem apart_rings_serve_available :
    ∃ t x,
      (processQueueDescriptorsDirty onePage 1 (counted twoChains) apartQueue (0, 0)).interp
        (answer onePage noHost) (twoAvailable, ()) = (some t, x) ∧ t.captured.2 = 2 ∧
      t.captured.2 ≤ (word twoAvailable.cells (0x200 + 2) - 0).toNat := by
  obtain ⟨t, x, hcall, hcount⟩ :=
    process_calls_at_most_available onePage noHost twoChains apartQueue
    0 (twoAvailable, ()) 0 (by decide) (by decide +kernel)
  have hcalls :
    ((processQueueDescriptorsDirty onePage 1 (counted twoChains) apartQueue (0, 0)).interp
      (answer onePage noHost) (twoAvailable, ())).1.map (fun t => t.captured.2) = some 2 := by
    decide +kernel
  rw [hcall] at hcalls
  exact ⟨t, x, hcall, Option.some.inj hcalls, hcount⟩

end Tarit.Virtio
