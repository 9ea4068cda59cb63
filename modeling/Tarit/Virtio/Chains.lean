import Tarit.Virtio.Net
import Tarit.Virtio.Rules

/-!
# Frames in the buffers of a chain

What the kernel's scatter write leaves in a chain, and what `read_chain` and `write_chain`
find there. The buffers of a chain may overlap when the guest wants them to; a frame can be
read back when they do not and the guest leaves them alone meanwhile.
-/
namespace Tarit.Virtio.Net

open Lib Live Snapshot World Triple List

def Disjointed (bufs : List Buf) : Prop :=
  bufs.Pairwise fun a b => a.1 + a.2 ≤ b.1 ∨ b.1 + b.2 ≤ a.1

def Covers (own : Nat → Prop) (bufs : List Buf) : Prop :=
  ∀ b ∈ bufs, ∀ i, b.1 ≤ i → i < b.1 + b.2 → own i

def InRam (L : Layout) (bufs : List Buf) : Prop := ∀ b ∈ bufs, checkRange L b.1 b.2 = true

def parts : List Buf → Bytes → List (Nat × Bytes)
  | [], _ => []
  | (addr, len) :: bufs, frame =>
    if frame = [] then [] else (addr, frame.take len) :: parts bufs (frame.drop len)

def Laid (bufs : List Buf) (frame : Bytes) (cells : Nat → UInt8) : Prop :=
  ∀ p ∈ parts bufs frame, peek cells p.1 p.2.length = p.2

variable {frame : Bytes} {addr : Nat}

theorem mem_parts {bufs : List Buf} {p : Nat × Bytes} (h : p ∈ parts bufs frame) :
    ∃ b ∈ bufs, p.1 = b.1 ∧ p.2.length ≤ b.2 := by
  induction bufs generalizing frame with
  | nil => cases h
  | cons b bufs ih =>
    unfold parts at h
    split at h
    · cases h
    rcases mem_cons.mp h with rfl | h
    · exact ⟨b, mem_cons_self, rfl, length_take_le _ _⟩
    · obtain ⟨b', hb', hp⟩ := ih h
      exact ⟨b', mem_cons_of_mem _ hb', hp⟩

theorem take_peek {cells : Nat → UInt8} {n m : Nat} (h : n ≤ m) :
    (peek cells addr m).take n = peek cells addr n := by
  unfold peek
  rw [← map_take, take_range, Nat.min_eq_left h]

theorem laid_cons {len : Nat} {bufs : List Buf} {cells : Nat → UInt8} (hne : frame ≠ []) :
    Laid ((addr, len) :: bufs) frame cells ↔
      peek cells addr (frame.take len).length = frame.take len ∧
      Laid bufs (frame.drop len) cells := by
  unfold Laid
  rw [parts, if_neg hne]
  exact forall_mem_cons

section Triples

attribute [local irreducible] Triple

variable {τ : Type} {L : Layout} {S : Nat → Bytes → Prop} {env : Guest × τ → Guest × τ → Prop}
  {host : (call : Call) → τ → Answer call → τ → Prop} {own : Nat → Prop} {P : Guest × τ → Prop}
  {bufs : List Buf}

/-- The guest leaves the bytes of `own` alone while a call runs. -/
def Leaves (own : Nat → Prop) (env : Guest × τ → Guest × τ → Prop) : Prop :=
  ∀ x y, env x y → ∀ i, own i → y.1.cells i = x.1.cells i

variable {data : Bytes}

theorem Leaves.stable_peek (henv : Leaves own env)
    (hown : ∀ i, addr ≤ i → i < addr + data.length → own i) :
    (deviceWorld L S env host).Stable fun x => peek x.1.cells addr data.length = data := by
  intro x y hx he
  refine (peek_congr fun j hj => ?_).trans hx
  exact henv x y he _ (hown _ (Nat.le_add_right _ _) (by omega))

theorem Leaves.stable_laid (henv : Leaves own env) (hown : Covers own bufs) :
    (deviceWorld L S env host).Stable fun x => Laid bufs frame x.1.cells := by
  intro x y hx he p hp
  obtain ⟨b, hb, haddr, hlen⟩ := mem_parts hp
  have hpart : (deviceWorld L S env host).Stable fun x => peek x.1.cells p.1 p.2.length = p.2 :=
    henv.stable_peek fun i hlo hhi => hown b hb i (by omega) (by omega)
  exact hpart (hx p hp) he

theorem triple_writeMem_ram {b : Buf} (hram : checkRange L b.1 b.2 = true) {a : Nat}
    (hlo : b.1 ≤ a) (hhi : a + data.length ≤ b.1 + b.2) :
    (deviceWorld L S env host).Triple (fun _ => True) (writeMem a data) fun r _ => r = true ∧
    True := by
  apply triple_writeMem (M := fun r _ => r = true) World.stable_const
    (fun _ => World.stable_const) (fun _ => World.stable_const)
  · intro _ _ _
    have hsub : checkRange L (b.1 + (a - b.1)) data.length = true := checkRange_sub hram (by omega)
    rwa [Nat.add_sub_cancel' hlo] at hsub
  · exact fun _ _ => ⟨rfl, trivial⟩
  · exact nofun

variable (hP : (deviceWorld L S env host).Stable P)

include hP

/-- A scatter write into disjoint buffers lays the whole frame down, and keeps what each of its
stores keeps. -/
theorem triple_scatter (henv : Leaves own env) (hown : Covers own bufs) (hram : InRam L bufs)
    (hdis : Disjointed bufs)
    (hstore : ∀ p ∈ parts bufs frame, ∀ x, P x → P (x.1.store L p.1 p.2, x.2)) :
    (deviceWorld L S env host).Triple P (scatter bufs frame) fun _ x =>
      P x ∧ Laid bufs frame x.1.cells := by
  induction bufs generalizing frame P with
  | nil => exact .pure hP fun x hx => ⟨hx, nofun⟩
  | cons b bufs ih =>
    obtain ⟨addr, len⟩ := b
    unfold scatter
    split
    · next hnil =>
      apply pure hP
      intro x hx
      refine ⟨hx, ?_⟩
      unfold Laid parts
      rw [if_pos hnil]
      exact nofun
    · next hne =>
      obtain ⟨hfirst, hdis⟩ := pairwise_cons.mp hdis
      have hpart : (addr, frame.take len) ∈ parts ((addr, len) :: bufs) frame := by
        rw [parts, if_neg hne]
        exact mem_cons_self
      have hrest : ∀ p ∈ parts bufs (frame.drop len), p ∈ parts ((addr, len) :: bufs) frame := by
        intro p hp
        rw [parts, if_neg hne]
        exact mem_cons_of_mem _ hp
      have hlen : (frame.take len).length ≤ len := length_take_le _ _
      have hpeek : (deviceWorld L S env host).Stable fun x =>
          peek x.1.cells addr (frame.take len).length = frame.take len :=
        henv.stable_peek fun i hlo hhi => hown _ mem_cons_self i hlo (by omega)
      have hboth := Stable.and hP hpeek
      apply Triple.bind
      · apply triple_store hP fun _ => hboth
        intro x hx _
        refine ⟨hstore _ hpart x hx, ?_⟩
        have hrange : checkRange L addr (frame.take len).length = true :=
          checkRange_le (hram _ mem_cons_self) (by omega)
        rw [store_cells_of_range hrange, peek_put_self]
      · intro _
        have hscatter : (deviceWorld L S env host).Triple _ (scatter bufs (frame.drop len)) _ :=
          ih hboth
          (fun b hb => hown b (mem_cons_of_mem _ hb))
          (fun b hb => hram b (mem_cons_of_mem _ hb)) hdis ?_
        · exact hscatter.post fun _ x hx => ⟨hx.1.1, (laid_cons hne).mpr ⟨hx.1.2, hx.2⟩⟩
        · intro p hp x hx
          refine ⟨hstore p (hrest p hp) x hx.1, ?_⟩
          obtain ⟨b, hb, haddr, hlen'⟩ := mem_parts hp
          have := hfirst b hb
          rw [peek_store_outside (by dsimp only at this; omega)]
          exact hx.2

theorem triple_readChain (henv : Leaves own env) {want : Nat} (hown : Covers own bufs)
    (hram : InRam L bufs)
    (hpos : 0 < want) (hwant : want ≤ frame.length) (hfits : frame.length ≤ bufsLen bufs) :
    (deviceWorld L S env host).Triple (fun x => P x ∧ Laid bufs frame x.1.cells)
      (readChain bufs 0 want) fun r x => r = some (frame.take want) ∧ P x := by
  induction bufs generalizing frame want P with
  | nil =>
    change frame.length ≤ 0 at hfits
    omega
  | cons b bufs ih =>
    obtain ⟨addr, len⟩ := b
    have hne : frame ≠ [] := fun h => by rw [h, length_nil] at hwant; omega
    have hownRest := (forall_mem_cons.mp hown).2
    obtain ⟨hramFirst, hramRest⟩ := forall_mem_cons.mp hram
    have hfitsRest : (frame.drop len).length ≤ bufsLen bufs := by
      have hsum : bufsLen ((addr, len) :: bufs) = len + bufsLen bufs := rfl
      rw [length_drop]
      omega
    have hlaid : (deviceWorld L S env host).Stable fun x =>
        Laid ((addr, len) :: bufs) frame x.1.cells :=
      henv.stable_laid hown
    have hboth := Stable.and hP hlaid
    unfold readChain
    split
    · next hzero =>
      obtain rfl : len = 0 := by omega
      apply (ih hP hownRest hramRest hpos hwant hfitsRest).pre
      exact fun x hx => ⟨hx.1, ((laid_cons hne).mp hx.2).2⟩
    · next hzero =>
      rw [Nat.sub_zero, add_zero]
      apply ends
      · apply triple_load hboth fun r => .and World.stable_const hboth
        intro x hx
        refine ⟨?_, hx⟩
        have hrange : checkRange L addr (min len want) = true :=
          checkRange_le hramFirst (by omega)
        have hpeek := ((laid_cons hne).mp hx.2).1
        rw [Guest.load, if_pos hrange, ← take_peek (m := (frame.take len).length) (by
          rw [length_take]; omega), hpeek, take_take, Nat.min_assoc, Nat.min_comm want,
          ← Nat.min_assoc, Nat.min_self]
      · dsimp only
        split
        · next hall =>
          apply pure hboth
          intro x hx
          exact ⟨by rw [hall], hx.1⟩
        · next hmore =>
          rw [Nat.min_eq_left (by omega)]
          have hread : (deviceWorld L S env host).Triple _
            (readChain bufs 0 (want - len)) fun r x =>
              r = some ((frame.drop len).take (want - len)) ∧ P x :=
            ih hP hownRest hramRest (by omega) (by rw [length_drop]; omega) hfitsRest
          apply ends
          · apply hread.pre
            exact fun x hx => ⟨hx.1, ((laid_cons hne).mp hx.2).2⟩
          · refine .pure hP fun x hx => ⟨?_, hx⟩
            rw [← take_append_drop len (frame.take want), take_take, drop_take,
              Nat.min_eq_left (by omega)]

theorem triple_writeChain {off : Nat} (hram : InRam L bufs) (hne : data ≠ [])
    (hfits : off + data.length ≤ bufsLen bufs)
    (hstore : ∀ addr part x, (∃ b ∈ bufs, b.1 ≤ addr ∧ addr + part.length ≤ b.1 + b.2) → P x →
      P (x.1.store L addr part, x.2)) :
    (deviceWorld L S env host).Triple P (writeChain bufs off data) fun r x => r = true ∧ P x := by
  induction bufs generalizing off data with
  | nil =>
    change off + data.length ≤ 0 at hfits
    have := length_pos_of_ne_nil hne
    omega
  | cons b bufs ih =>
    obtain ⟨addr, len⟩ := b
    have hsum : bufsLen ((addr, len) :: bufs) = len + bufsLen bufs := rfl
    have hramRest : InRam L bufs := fun b hb => hram b (mem_cons_of_mem _ hb)
    have hstoreRest : ∀ addr part x, (∃ b ∈ bufs, b.1 ≤ addr ∧ addr + part.length ≤ b.1 + b.2) →
        P x → P (x.1.store L addr part, x.2) := by
      rintro addr part x ⟨b, hb, h⟩
      exact hstore addr part x ⟨b, mem_cons_of_mem _ hb, h⟩
    unfold writeChain
    split
    · exact ih hramRest hne (by omega) hstoreRest
    rename_i hoff
    have hpart : (data.take (min (len - off) data.length)).length = min
        (len - off) data.length := by
      rw [length_take]
      omega
    refine ends (?_ : (deviceWorld L S env host).Triple P _ fun r x => r = true ∧ P x) ?_
    · apply triple_store hP fun _ => .and World.stable_const hP
      intro x hx _
      constructor
      · exact checkRange_sub (hram _ mem_cons_self) (by dsimp only; omega)
      · exact hstore _ _ x ⟨_, mem_cons_self, by dsimp only; omega, by dsimp only; omega⟩ hx
    · rw [if_pos rfl]
      split
      · exact .pure hP fun x hx => ⟨rfl, hx⟩
      apply ih hramRest _ _ hstoreRest
      · intro hnil
        have := congrArg List.length hnil
        rw [length_drop, length_nil] at this
        omega
      · rw [length_drop]
        omega

theorem triple_copyBuf (sources : List Bytes) (addr len : Nat)
    (hwrite : ∀ a data, addr ≤ a → a + data.length ≤ addr + len →
      (deviceWorld L S env host).Triple P (writeMem a data) fun r x => r = true ∧ P x) :
    (deviceWorld L S env host).Triple P (copyBuf sources addr len) fun r x => r ≠ none ∧ P x := by
  induction sources generalizing addr len with
  | nil => exact .pure hP fun x hx => ⟨nofun, hx⟩
  | cons source sources ih =>
    unfold copyBuf
    split
    · exact .pure hP fun x hx => ⟨nofun, hx⟩
    split
    · exact ih addr len hwrite
    have hlen : (source.take (min len source.length)).length = min len source.length := by
      rw [length_take]
      omega
    apply ends (hwrite addr _ (le_refl _) (by omega))
    rw [if_pos rfl]
    split
    · exact .pure hP fun x hx => ⟨nofun, hx⟩
    apply ih
    intro a data hlo hhi
    exact hwrite a data (by omega) (by omega)

theorem triple_copyChain (sources : List Bytes)
    (hwrite : ∀ b ∈ bufs, ∀ a data, b.1 ≤ a → a + data.length ≤ b.1 + b.2 →
      (deviceWorld L S env host).Triple P (writeMem a data) fun r x => r = true ∧ P x) :
    (deviceWorld L S env host).Triple P (copyChain bufs sources) fun r x => r = true ∧ P x := by
  induction bufs generalizing sources with
  | nil => exact .pure hP fun x hx => ⟨rfl, hx⟩
  | cons b bufs ih =>
    obtain ⟨addr, len⟩ := b
    apply Triple.bind (triple_copyBuf hP sources addr len (hwrite _ mem_cons_self))
    intro r
    apply of_and
    intro hr
    obtain ⟨sources', rfl⟩ := Option.ne_none_iff_exists'.mp hr
    exact ih sources' fun b hb => hwrite b (mem_cons_of_mem _ hb)

theorem triple_markFilled
    (hmark : ∀ x gpa len, P x → P ({ x.1 with dirty := markGuestRange x.1.dirty gpa len }, x.2))
    (bufs : List Buf) (left : Nat) :
    (deviceWorld L S env host).Triple P (markFilled bufs left) fun _ => P := by
  induction bufs generalizing left with
  | nil => exact pure hP fun _ h => h
  | cons b bufs ih =>
    apply Triple.bind (triple_markGuest hP hP fun x hx => hmark x _ _ hx)
    intro _
    split
    · exact pure hP fun _ h => h
    · exact ih _

end Triples

end Tarit.Virtio.Net
