import Mathlib.Data.Nat.ModEq
import Tarit.Virtio.TxWorker

/-!
# What a rate limiter lets through

A refill adds whole tokens and moves the time of the last refill by the whole nanoseconds they took,
rounded down. The part of a nanosecond that is lost there is credited again by the next refill, so
that a bucket that is refilled often gains on its rate; and a refused charge refills as well.
-/
namespace Tarit.Virtio.Net

open List

namespace TokenBucket

def consume (b : TokenBucket) (amount now_ns : Nat) : Bool × TokenBucket :=
  let b := b.refill now_ns
  if ¬ b.canConsume amount then (false, b) else (true, b.consumeWithoutRefill amount)

variable {b : TokenBucket} {now : Nat}

theorem refill_none (h : (now - b.last_refill_ns) * b.refill_per_sec < NANOS_PER_SEC) :
    b.refill now = b := by
  unfold refill
  split
  · rfl
  · exact if_pos (Nat.div_eq_of_lt h)

theorem refill_some (h : NANOS_PER_SEC ≤ (now - b.last_refill_ns) * b.refill_per_sec) :
    b.refill now =
      let added := (now - b.last_refill_ns) * b.refill_per_sec / NANOS_PER_SEC
      { b with
        tokens := min (b.tokens + added) b.capacity
        last_refill_ns :=
          if b.capacity ≤ min (b.tokens + added) b.capacity then now
          else b.last_refill_ns + min (max (added * NANOS_PER_SEC / b.refill_per_sec) 1)
            (now - b.last_refill_ns) } := by
  have hpos : 0 < (now - b.last_refill_ns) * b.refill_per_sec := lt_of_lt_of_le (by decide) h
  have hrate := Nat.pos_of_mul_pos_left hpos
  have hlast := Nat.pos_of_mul_pos_right hpos
  unfold refill
  rw [if_neg (by omega), if_neg (Nat.div_pos h (by decide)).ne']

end TokenBucket

/-! ## One bucket -/

/-- What is done with a bucket; `other` is what the other bucket of its limiter can consume. -/
inductive BucketOp where
  | refill (now_ns : Nat)
  | consume (amount now_ns : Nat)
  | tryChargeAt (amount now_ns : Nat) (other : Bool)

namespace BucketOp

def now_ns : BucketOp → Nat
  | .refill now_ns | .consume _ now_ns | .tryChargeAt _ now_ns _ => now_ns

def amount : BucketOp → Nat
  | .refill _ => 0
  | .consume amount _ | .tryChargeAt amount _ _ => amount

/-- The bucket and the amount charged so far. -/
def step (x : TokenBucket × Nat) : BucketOp → TokenBucket × Nat
  | .refill now_ns => (x.1.refill now_ns, x.2)
  | .consume amount now_ns =>
    let (ok, b) := x.1.consume amount now_ns
    (b, if ok then x.2 + amount else x.2)
  | .tryChargeAt amount now_ns other =>
    let b := x.1.refill now_ns
    if ¬ b.canConsume amount ∨ ¬ other then (b, x.2)
    else (b.consumeWithoutRefill amount, x.2 + amount)

end BucketOp

/-- The operations are in order, from `start` on and until `now`. -/
def Ordered (start : Nat) (ops : List BucketOp) (now : Nat) : Prop :=
  (start :: (ops.map BucketOp.now_ns ++ [now])).Pairwise (· ≤ ·)

def runBucket (b : TokenBucket) (ops : List BucketOp) : TokenBucket × Nat :=
  ops.foldl BucketOp.step (b, 0)

/-- What was charged and what is left are within the capacity and what the rate gives until
`now`. -/
def WithinRate (capacity rate start : Nat) (ops : List BucketOp) (now : Nat) : Prop :=
  let x := runBucket (.newAt capacity rate start) ops
  x.2 + x.1.tokens ≤ capacity + (rate * (now - start) / NANOS_PER_SEC : Nat)

/-- Each bucket of a limiter goes through `tryChargeAt` as through its own operation. -/
theorem tryChargeAt_step (l : RateLimiter) (ops bytes now n : Nat) :
    let (ok, l') := l.tryChargeAt ops bytes now
    (BucketOp.tryChargeAt ops now ((l.bytes.refill now).canConsume bytes)).step (l.ops, n) =
      (l'.ops, if ok then n + ops else n) ∧
    (BucketOp.tryChargeAt bytes now ((l.ops.refill now).canConsume ops)).step (l.bytes, n) =
      (l'.bytes, if ok then n + bytes else n) := by
  unfold RateLimiter.tryChargeAt BucketOp.step
  cases hops : (l.ops.refill now).canConsume ops <;>
    cases hbytes : (l.bytes.refill now).canConsume bytes <;> simp [hops, hbytes]

variable {b : TokenBucket} {n : Nat} {op : BucketOp} {start now now' capacity rate : Nat}
  {ops : List BucketOp}

/-- An operation refills the bucket and may charge its amount. -/
theorem step_cases (b : TokenBucket) (n : Nat) (op : BucketOp) :
    op.step (b, n) = (b.refill op.now_ns, n) ∨
    (b.refill op.now_ns).canConsume op.amount ∧ op.step (b, n) =
      ((b.refill op.now_ns).consumeWithoutRefill op.amount, n + op.amount) := by
  cases op with
  | refill now => exact .inl rfl
  | consume amount now =>
    unfold BucketOp.step TokenBucket.consume BucketOp.now_ns BucketOp.amount
    cases h : (b.refill now).canConsume amount <;> simp [h]
  | tryChargeAt amount now other =>
    unfold BucketOp.step BucketOp.now_ns BucketOp.amount
    cases h : (b.refill now).canConsume amount <;> cases other <;> simp [h]

/-- The tokens gained since `start` took the time that the rate asks for them. -/
structure Paced (capacity rate start n now : Nat) (b : TokenBucket) : Prop where
  capacity_eq : b.capacity = capacity
  rate_eq : b.refill_per_sec = rate
  since : start ≤ b.last_refill_ns
  last : b.last_refill_ns ≤ now
  spent : (n + b.tokens - capacity) * NANOS_PER_SEC ≤ (rate * (b.last_refill_ns - start) : Nat)

section Rate

variable (hrate : rate ∣ NANOS_PER_SEC ∨ NANOS_PER_SEC ∣ rate)

include hrate

theorem dvd_added (elapsed : Nat) :
    rate ∣ elapsed * rate / NANOS_PER_SEC * NANOS_PER_SEC := by
  rcases hrate with h | h
  · exact h.mul_left _
  · rw [Nat.div_mul_cancel (h.mul_left _)]
    exact Nat.dvd_mul_left ..

/-- Where rounding loses nothing, a refill keeps the pace. -/
theorem Paced.refill (h : Paced capacity rate start n now b) (hnow : now ≤ now') :
    Paced capacity rate start n now' (b.refill now') := by
  obtain ⟨hcapacity, rfl, hsince, hlast, hspent⟩ := h
  rcases Nat.lt_or_ge ((now' - b.last_refill_ns) * b.refill_per_sec) NANOS_PER_SEC with
    hnone | hsome
  · rw [TokenBucket.refill_none hnone]
    exact ⟨hcapacity, rfl, hsince, hlast.trans hnow, hspent⟩
  rw [TokenBucket.refill_some hsome]
  generalize helapsed : now' - b.last_refill_ns = elapsed at hsome ⊢
  generalize hadded : elapsed * b.refill_per_sec / NANOS_PER_SEC = added
  -- the time charged for the tokens
  obtain ⟨time, htime⟩ := hadded ▸ dvd_added hrate elapsed
  have hle : b.refill_per_sec * time ≤ b.refill_per_sec * elapsed := by
    rw [← htime, ← hadded, mul_comm b.refill_per_sec]
    exact Nat.div_mul_le_self ..
  have hrate : 0 < b.refill_per_sec :=
    Nat.pos_of_mul_pos_left (lt_of_lt_of_le (by decide) hsome)
  have htimeLe := Nat.le_of_mul_le_mul_left hle hrate
  have hmoved (last : Nat) (hlo : b.last_refill_ns + time ≤ last) (hhi : last ≤ now') :
      Paced capacity b.refill_per_sec start n now' { b with
        tokens := min (b.tokens + added) b.capacity, last_refill_ns := last } := by
    refine ⟨hcapacity, rfl, by show start ≤ last; omega, hhi, ?_⟩
    have hgain : b.refill_per_sec * (b.last_refill_ns - start) + added * NANOS_PER_SEC ≤
        b.refill_per_sec * (last - start) := by
      rw [htime, ← mul_add]
      exact Nat.mul_le_mul_left _ (by omega)
    have hmin := Int.min_le_left (b.tokens + added) b.capacity
    show (n + min (b.tokens + added) b.capacity - capacity) * NANOS_PER_SEC ≤
      (b.refill_per_sec * (last - start) : Nat)
    unfold NANOS_PER_SEC at *
    omega
  dsimp only
  split
  · exact hmoved now' (by omega) (le_refl _)
  · rw [htime, Nat.mul_div_cancel_left _ hrate]
    exact hmoved _ (by omega) (by omega)

/-- The step lemma: neither the refill nor the charge gains tokens faster than the rate. -/
theorem Paced.step (h : Paced capacity rate start n now b) (hnow : now ≤ op.now_ns) :
    Paced capacity rate start (op.step (b, n)).2 op.now_ns (op.step (b, n)).1 := by
  have hrefill := h.refill hrate hnow
  rcases step_cases b n op with heq | ⟨-, heq⟩
  · rw [heq]
    exact hrefill
  rw [heq]
  obtain ⟨hcapacity, hrate, hsince, hlast, hspent⟩ := hrefill
  refine ⟨hcapacity, hrate, hsince, hlast, ?_⟩
  rw [show ((n + op.amount : Nat) :
    Int) + ((b.refill op.now_ns).consumeWithoutRefill op.amount).tokens
    = n + (b.refill op.now_ns).tokens by simp only [TokenBucket.consumeWithoutRefill]; omega]
  exact hspent

/-- By induction over the operations, from `Paced.step`. -/
theorem Paced.run (h : Paced capacity rate start n now b) (hordered : Ordered now ops now') :
    Paced capacity rate start (ops.foldl BucketOp.step (b, n)).2 now'
      (ops.foldl BucketOp.step (b, n)).1 := by
  induction ops generalizing b n now with
  | nil =>
    have hnow : now ≤ now' := (pairwise_cons.mp hordered).1 now' (.head _)
    exact { h with last := h.last.trans hnow }
  | cons op ops ih =>
    obtain ⟨hnow, hrest⟩ := pairwise_cons.mp hordered
    exact ih (h.step hrate (hnow _ (.head _))) hrest

end Rate

/-- Where the rate divides a second or a second the rate, what was charged and what is left stay
within the capacity and what the rate gives in the time. -/
theorem charged_within_rate (capacity rate start : Nat)
    (hrate : rate ∣ NANOS_PER_SEC ∨ NANOS_PER_SEC ∣ rate) (ops : List BucketOp) (now : Nat)
    (hordered : Ordered start ops now) : WithinRate capacity rate start ops now := by
  have hpaced : Paced capacity rate start 0 start (.newAt capacity rate start) :=
    ⟨rfl, rfl, le_refl _, le_refl _, by simp [TokenBucket.newAt]⟩
  obtain ⟨-, -, -, hlast, hspent⟩ := hpaced.run hrate hordered
  have hmono := Nat.mul_le_mul_left rate (Nat.sub_le_sub_right hlast start)
  unfold WithinRate runBucket
  unfold NANOS_PER_SEC at *
  omega

theorem charged_within_rate_eight :
    WithinRate 10 8 0 [.consume 10 0, .refill 250000001] 250000001 :=
  charged_within_rate 10 8 0 (.inl (by decide)) _ _ (by unfold Ordered; decide)

/-- Ten tokens, seven a second: the bucket is emptied and then refilled as each token is due. -/
theorem seven_a_second_exceeded :
    Ordered 0 [.consume 10 0, .refill 142857143, .refill 285714285] 285714285 ∧
      ¬ WithinRate 10 7 0 [.consume 10 0, .refill 142857143, .refill 285714285] 285714285 := by
  unfold Ordered WithinRate
  decide

/-! ## Charges that are refused -/

structure Charge where
  ops : Nat
  bytes : Nat
  now_ns : Nat

/-- The results of charges, some of which are marked as added to the others. -/
def outcomes (l : RateLimiter) : List (Charge × Bool) → List (Bool × Bool)
  | [] => []
  | (c, added) :: cs =>
    let (ok, l) := l.tryChargeAt c.ops c.bytes c.now_ns
    (ok, added) :: outcomes l cs

theorem outcomes_cons (l : RateLimiter) (c : Charge) (added : Bool) (cs : List (Charge × Bool)) :
    outcomes l ((c, added) :: cs) = ((l.tryChargeAt c.ops c.bytes c.now_ns).1, added) ::
      outcomes (l.tryChargeAt c.ops c.bytes c.now_ns).2 cs := rfl

/-- If all charges that were added are refused, the others have the results that they have alone. -/
def Undisturbed (l : RateLimiter) (cs : List (Charge × Bool)) : Prop :=
  (∀ x ∈ outcomes l cs, x.2 = true → x.1 = false) →
    (outcomes l cs).filter (!·.2) = outcomes l (cs.filter (!·.2))

namespace TokenBucket

/-- The time since the last refill is that of a whole number of tokens. -/
def Due (b : TokenBucket) (now_ns : Nat) : Prop :=
  NANOS_PER_SEC ∣ (now_ns - b.last_refill_ns) * b.refill_per_sec

instance : Decidable (b.Due now) := inferInstanceAs (Decidable (_ ∣ _))

/-- A refill that leaves no time over. -/
theorem refill_due (h : b.Due now) :
    b.refill now = if (now - b.last_refill_ns) * b.refill_per_sec = 0 then b else { b with
      tokens := min (b.tokens + ((now - b.last_refill_ns) * b.refill_per_sec / NANOS_PER_SEC : Nat))
        b.capacity
      last_refill_ns := now } := by
  split
  · next hzero => exact refill_none (hzero ▸ Nat.succ_pos _)
  rename_i hpos
  have hpos := Nat.pos_of_ne_zero hpos
  have hlast := Nat.pos_of_mul_pos_right hpos
  rw [refill_some (Nat.le_of_dvd hpos h)]
  dsimp only
  rw [Nat.div_mul_cancel h, Nat.mul_div_cancel _ (Nat.pos_of_mul_pos_left hpos)]
  congr 1
  split
  · rfl
  · omega

/-- Refilled when it is due, the bucket is due when it was, with the same tokens then. -/
theorem refill_refill (h : b.Due now) (h' : b.Due now') (hle : now ≤ now') :
    (b.refill now).Due now' ∧ (b.refill now).refill now' = b.refill now' := by
  rw [refill_due h]
  split
  · exact ⟨h', rfl⟩
  rename_i hpos
  have hlast := Nat.pos_of_mul_pos_right (Nat.pos_of_ne_zero hpos)
  have hsum : (now' - b.last_refill_ns) * b.refill_per_sec =
      (now - b.last_refill_ns) * b.refill_per_sec + (now' - now) * b.refill_per_sec := by
    rw [← add_mul]
    congr 1
    omega
  have hdue : NANOS_PER_SEC ∣ (now' - now) * b.refill_per_sec :=
    (Nat.dvd_add_right h).mp (hsum ▸ h')
  have hlater := refill_due h'
  rw [if_neg (by omega), hsum, Nat.add_div_of_dvd_right h] at hlater
  rw [hlater]
  refine ⟨hdue, (refill_due ?_).trans ?_⟩
  · exact hdue
  dsimp only
  split
  · next hzero =>
    have hnow : now' = now := by
      rcases Nat.mul_eq_zero.mp hzero with hnow | hrate
      · omega
      · rw [hrate, mul_zero] at hpos
        exact absurd rfl hpos
    subst hnow
    congr 1
    rw [Nat.sub_self, zero_mul, Nat.zero_div, add_zero]
  · generalize (now' - now) * b.refill_per_sec / NANOS_PER_SEC = later
    generalize (now - b.last_refill_ns) * b.refill_per_sec / NANOS_PER_SEC = earlier
    congr 1
    omega

end TokenBucket

/-- Both buckets are due at every charge. -/
def Due (l : RateLimiter) (cs : List (Charge × Bool)) : Prop :=
  ∀ x ∈ cs, l.ops.Due x.1.now_ns ∧ l.bytes.Due x.1.now_ns

/-- The limiters are the same once they are refilled. -/
def Agree (l l' : RateLimiter) (cs : List (Charge × Bool)) : Prop :=
  ∀ x ∈ cs, l.ops.refill x.1.now_ns = l'.ops.refill x.1.now_ns ∧
    l.bytes.refill x.1.now_ns = l'.bytes.refill x.1.now_ns

theorem outcomes_agree {l l' : RateLimiter} {cs : List (Charge × Bool)} (hdue : Due l cs)
    (h : Agree l l' cs) (hordered : (cs.map fun x => x.1.now_ns).Pairwise (· ≤ ·))
    (hrefused : ∀ x ∈ outcomes l cs, x.2 = true → x.1 = false) :
    (outcomes l cs).filter (!·.2) = outcomes l' (cs.filter (!·.2)) := by
  induction cs generalizing l l' with
  | nil => rfl
  | cons x cs ih =>
    obtain ⟨c, added⟩ := x
    obtain ⟨hnow, hrest⟩ := pairwise_cons.mp hordered
    obtain ⟨⟨hops, hbytes⟩, hagree⟩ := forall_mem_cons.mp h
    obtain ⟨⟨hdueOps, hdueBytes⟩, hdue⟩ := forall_mem_cons.mp hdue
    rw [outcomes_cons] at hrefused ⊢
    obtain ⟨hfirst, hlater⟩ := forall_mem_cons.mp hrefused
    have hrefill (y) (hy : y ∈ cs) := And.intro
      (TokenBucket.refill_refill hdueOps (hdue y hy).1 (hnow _ (mem_map_of_mem hy)))
      (TokenBucket.refill_refill hdueBytes (hdue y hy).2 (hnow _ (mem_map_of_mem hy)))
    have hnext : Due (l.tryChargeAt c.ops c.bytes c.now_ns).2 cs := by
      intro y hy
      have := hrefill y hy
      unfold RateLimiter.tryChargeAt
      dsimp only
      split <;> exact ⟨this.1.1, this.2.1⟩
    cases added with
    | false =>
      have hsame : l.tryChargeAt c.ops c.bytes c.now_ns =
          l'.tryChargeAt c.ops c.bytes c.now_ns := by
        unfold RateLimiter.tryChargeAt
        rw [hops, hbytes]
      rw [filter_cons_of_pos rfl, filter_cons_of_pos rfl, outcomes_cons, ← hsame,
        ih hnext (fun _ _ => ⟨rfl, rfl⟩) hrest hlater]
    | true =>
      have hkept : (l.tryChargeAt c.ops c.bytes c.now_ns).2 =
          ⟨l.ops.refill c.now_ns, l.bytes.refill c.now_ns⟩ := by
        have hno := hfirst rfl
        unfold RateLimiter.tryChargeAt at hno ⊢
        dsimp only at hno ⊢
        split
        · rfl
        · next hyes => rw [if_neg hyes] at hno; cases hno
      refine ih hnext (fun y hy => ?_) hrest hlater
      rw [hkept]
      exact ⟨(hrefill y hy).1.2.trans (hagree y hy).1, (hrefill y hy).2.2.trans (hagree y hy).2⟩

/-- If every charge comes when both buckets are due, the charges that are refused change nothing for
the others. -/
theorem refused_charges_unmoved (l : RateLimiter) (cs : List (Charge × Bool))
    (hordered : (cs.map fun x => x.1.now_ns).Pairwise (· ≤ ·)) (hdue : Due l cs) :
    Undisturbed l cs :=
  outcomes_agree hdue (fun _ _ => ⟨rfl, rfl⟩) hordered

theorem refused_charge_unmoved_ten : Undisturbed (.newAt 10 10 0)
    [(⟨1, 20, 0⟩, false), (⟨0, 1, 100000000⟩, true), (⟨10, 0, 200000000⟩, false)] :=
  refused_charges_unmoved _ _ (by decide) (by unfold Due; decide)

/-- Ten operations and ten bytes a second. The bytes are used up at once, and a charge of one byte
that is refused when an operation is due again makes the next one due earlier. -/
theorem refused_charge_gains : ¬ Undisturbed (.newAt 10 10 0)
    [(⟨1, 20, 0⟩, false), (⟨0, 1, 100000000⟩, true), (⟨1, 0, 150000000⟩, false),
      (⟨10, 0, 200000000⟩, false)] := by
  unfold Undisturbed
  decide

end Tarit.Virtio.Net
