import Tarit.Supervisor.WarmSections

/-!
# Runs of warm claims

The facts of all creates hold in every state a run reaches, whatever reclaims, stops, exits and a
shutdown do in between.
-/
namespace Tarit.Supervisor.Warm

open Fleet Node Function Option List Bool

variable {Config : Type}

/-! ## Runs -/

/-- What holds of the pool, and of each create where it stands. -/
structure Inv (clean : Bool) (s : Pool Config) : Prop where
  global : Global clean s
  facts : ∀ task c, s.creates task = some c → c.Facts clean s task
  /-- No two creates have one VM. -/
  apart : ∀ task task' c c' vm, s.creates task = some c → s.creates task' = some c' →
    c.pc.vm? = some vm → c'.pc.vm? = some vm → task = task'

section Runs

variable {s s' : Pool Config} {task : Nat} {vm : Uuid} {clean ok : Bool}
  {write : Write} {c : Create Config}

theorem Inv.start (clean : Bool) (registrations : Uuid → Registration) :
    Inv clean (Pool.start Config registrations) :=
  ⟨⟨.nil, nofun, nofun, nofun, .nil, nofun, nofun, nofun⟩, nofun, fun _ _ _ _ _ => nofun⟩

theorem Create.Facts.has_vm (h : c.Facts clean s task) (hvm : c.pc.vm? = some vm) :
    s.used vm ∧ (s.claims vm = some task ∨ s.owned vm = some task) := by
  obtain ⟨howned, hholds⟩ := h
  cases hpc : c.pc with
  | waiting | selecting | noMatch | refused =>
    rw [hpc] at hvm
    cases hvm
  | binding v | creating v | persisting v | claiming v | clearing v | deleting v | abandoning v
  | registered v | transferring v | dropping v how | moving v | inserting v | publishing v phase =>
    rw [hpc] at hvm hholds
    cases hvm
    exact ⟨hholds.1.used, .inl hholds.1.claim⟩
  | dropped v how | stopping v how | stoppingWarm v how | withdrawing v how =>
    rw [hpc] at hvm hholds
    cases hvm
    exact ⟨hholds.1, .inr ((howned _).mpr hholds.2.2.1.symm)⟩
  | tearing v wasRunning how | ended v how =>
    rw [hpc] at hvm hholds
    cases hvm
    exact ⟨hholds.1.1, .inr ((howned _).mpr hholds.1.2.2.1.symm)⟩

/-- A section that touches one VM keeps the facts of every other create. -/
theorem Inv.advance (h : Inv clean s) (hc : s.creates task = some c)
    {c' : Option (Create Config)} {touched : Option Uuid}
    (ha : Advance clean s s' task c c' touched) :
    Inv clean { s' with creates := update s'.creates task c' } := by
  -- the touched VM is the one of no other create
  have hother : ∀ other x, other ≠ task → s.creates other = some x →
      ∀ v, x.pc.vm? = some v → touched ≠ some v := by
    intro other x hne hx v hv htouched
    rcases ha.own v htouched with hown | ⟨hclaims, howned⟩
    · exact hne (h.apart other task x c v hx hc hv hown)
    rcases ((h.facts other x hx).has_vm hv).2 with hclaim | howner
    · rw [hclaims] at hclaim
      cases hclaim
    · rw [howned] at howner
      cases howner
  have hcreates : ∀ other x, other ≠ task →
      update s'.creates task c' other = some x → s.creates other = some x := by
    intro other x hne hx
    rw [update_of_ne hne, ha.touches.creates] at hx
    exact hx
  have hself : ∀ x, update s'.creates task c' task = some x → c' = some x := by
    intro x hx
    rwa [update_self] at hx
  refine ⟨?_, fun other x hx => ?_, fun t t' x x' v hx hx' hv hv' => ?_⟩
  · obtain ⟨hids, hvm, hbusy, hpublished, honce, hstopping, hstarted, hleft⟩ := ha.global
    exact ⟨hids, hvm, hbusy, hpublished, honce, hstopping, hstarted, hleft⟩
  · suffices hs : x.Facts clean s' other by
      exact hs.frame (fun _ => .rfl) id (fun _ _ _ h => h) fun _ _ =>
        ⟨rfl, rfl, id, fun _ h _ => h, id, id⟩
    by_cases hne : other = task
    · subst hne
      exact ha.facts x (hself x hx)
    have hx := hcreates other x hne hx
    have hnot := hother other x hne hx
    exact (h.facts other x hx).frame (fun key => ha.touches.owned key other hne)
      (ha.touches.reads other hne) (fun _ v hv => ha.touches.parked v (hnot v hv))
      fun v hv => ha.touches.frame v (hnot v hv)
  · -- the create goes on with the VM it touched, the others keep theirs
    have hmine : ∀ y, c' = some y → ∀ u, y.pc.vm? = some u → touched = some u := by
      intro y hy u hu
      rcases ha.next y hy with hnone | htouched
      · rw [hnone] at hu
        cases hu
      · rw [← htouched]
        exact hu
    by_cases ht : t = task
    · by_cases ht' : t' = task
      · rw [ht, ht']
      · subst ht
        have hkept := hcreates t' x' ht' hx'
        exact absurd (hmine x (hself x hx) v hv) (hother t' x' ht' hkept v hv')
    · have hkept := hcreates t x ht hx
      by_cases ht' : t' = task
      · subst ht'
        exact absurd (hmine x' (hself x' hx') v hv') (hother t x ht hkept v hv)
      · exact h.apart t t' x x' v hkept (hcreates t' x' ht' hx') hv hv'

/-- A step of the environment: it leaves the claims alone, and takes parked VMs away only while
nobody has the gate. -/
theorem Inv.env (h : Inv clean s) (hg : Global clean s') (hcreates : s'.creates = s.creates)
    (howned : ∀ task c, s.creates task = some c → ∀ key,
      s'.owned key = some task ↔ s.owned key = some task)
    (hreads : s'.readers = s.readers)
    (hparked : s.readers = [] ∨ ∀ vm, s.parked vm → s'.parked vm)
    (hframe : ∀ vm, s.used vm → Frame s s' vm) : Inv clean s' := by
  refine ⟨hg, fun task c hc => ?_, ?_⟩
  · rw [hcreates] at hc
    have hfacts := h.facts task c hc
    refine hfacts.frame (howned task c hc) (fun ht => hreads ▸ ht) (fun ht vm _ hp => ?_)
      fun vm hvm => hframe vm (hfacts.has_vm hvm).1
    rcases hparked with hempty | hparked
    · rw [hempty] at ht
      cases ht
    · exact hparked vm hp
  · rw [hcreates]
    exact h.apart

theorem Global.settle (h : Global clean s) {warm drained : List (WarmVm Config)}
    {running torn : Uuid → Bool} (hvms : (warm ++ drained).Subperm s.vms)
    (hbusy : ∀ v, s.busy v = false → (running v || torn v) = false) :
    Global clean { s with warm, drained, running, torn } := by
  refine { h with ids := ?_, vm := fun w hw => ?_, busy := fun v hv => ?_ }
  · obtain ⟨l, hperm, hsub⟩ := hvms
    exact (hperm.map _).nodup_iff.mp (h.ids.sublist (hsub.map _))
  · obtain ⟨hu, hb, hp⟩ := h.vm w (hvms.subset hw)
    exact ⟨hu, hbusy _ hb, hp⟩
  · refine h.busy v ?_
    by_contra hb
    have := hbusy v (eq_false_iff.mpr hb)
    rw [Pool.busy, this] at hv
    cases hv

theorem Inv.settle (h : Inv clean s) {warm drained : List (WarmVm Config)}
    {running torn : Uuid → Bool} (hvms : (warm ++ drained).Subperm s.vms)
    (hbusy : ∀ v, s.busy v = false → (running v || torn v) = false)
    (hparked : s.readers = [] ∨ ∀ w ∈ s.warm, w ∈ warm) :
    Inv clean { s with warm, drained, running, torn } := by
  refine h.env (h.global.settle hvms hbusy) rfl (fun _ _ _ _ => .rfl) rfl (hparked.imp_right ?_) ?_
  · intro hwarm vm hp
    obtain ⟨w, hw, hid⟩ := any_eq_true.mp hp
    exact any_eq_true.mpr ⟨w, hwarm w hw, hid⟩
  · exact fun v _ => ⟨rfl, rfl, id, fun w hw _ => hvms.subset hw, hbusy v, id⟩

theorem Inv.unpark (h : Inv clean s) (hreaders : s.readers = []) : Inv clean (s.unpark vm) :=
  h.settle ((eraseP_sublist).append_right _).subperm (fun _ hb => hb) (.inl hreaders)

/-- `begin_owned_task` gives a task an id that no task has. -/
theorem begin_owned (hfree : s.owned vm = none) (task : Nat) (key : Uuid) (other : Nat)
    (hne : other ≠ task) :
    update s.owned vm (some task) key = some other ↔ s.owned key = some other := by
  by_cases hkey : key = vm
  · rw [hkey, update_self, hfree]
    exact ⟨fun he => absurd (Option.some.inj he).symm hne, nofun⟩
  · rw [update_of_ne hkey]

theorem Global.begin_started (h : Global clean s) (hfree : s.owned vm = none) (key : Uuid)
    (other : Nat) (ho : update s.owned vm (some task) key = some other) :
    update s.started task true other = true := by
  by_cases hother : other = task
  · rw [hother, update_self]
  · rw [update_of_ne hother]
    exact h.started key other ((begin_owned hfree task key other hother).mp ho)

theorem Create.Holds.cancel (h : c.Holds clean s task c.pc) :
    Create.Holds clean s task { c with cancelled := true } c.pc := by
  have hwithdrawable : ∀ vm, Withdrawable s c.cancelled vm → Withdrawable s true vm :=
    fun vm hw => hw.imp_left fun ⟨_, hsome⟩ => ⟨rfl, hsome⟩
  have hreleased : ∀ vm how, Released clean s c vm how →
      Released clean s { c with cancelled := true } vm how :=
    fun vm how ⟨hused, hclaim, hkey, hclean⟩ => ⟨hused, hclaim, hkey,
      fun hc hhow => ⟨(hclean hc hhow).1, hwithdrawable vm (hclean hc hhow).2⟩⟩
  cases hpc : c.pc with
  | dropping vm how =>
    rw [hpc] at h
    obtain ⟨hclaimed, hkey, hclean⟩ := h
    exact ⟨hclaimed, hkey, fun hc hhow => ⟨(hclean hc hhow).1, hwithdrawable vm (hclean hc hhow).2⟩⟩
  | dropped vm how | stopping vm how | stoppingWarm vm how | withdrawing vm how =>
    rw [hpc] at h
    exact hreleased vm how h
  | tearing vm wasRunning how | ended vm how =>
    rw [hpc] at h
    exact ⟨hreleased vm how h.1, h.2⟩
  | _ =>
    rw [hpc] at h
    exact h

theorem find_perm {l : List (WarmVm Config)} {p : WarmVm Config → Bool} {w : WarmVm Config}
    (h : l.find? p = some w) : (w :: l.eraseP p).Perm l := by
  induction l with
  | nil => cases h
  | cons a l ih =>
    rw [find?_cons] at h
    cases hp : p a with
    | true =>
      rw [hp] at h
      cases h
      rw [eraseP_cons_of_pos hp]
    | false =>
      rw [hp] at h
      rw [eraseP_cons_of_neg (by rw [hp]; exact false_ne_true)]
      exact (List.Perm.swap a w _).trans ((ih h).cons a)

variable [DecidableEq Config]

theorem Inv.park (h : Inv clean s) {spec : Config}
    (hstep : s.step (.park vm spec task) = some s') : Inv clean s' := by
  obtain ⟨hguard, ⟨⟩⟩ := ite_none_right_eq_some.mp hstep
  simp only [and_eq_true, not_eq_true', isNone_iff_eq_none] at hguard
  obtain ⟨⟨⟨hfresh, hfree⟩, htask⟩, _⟩ := hguard
  have hold : ∀ v, s.used v → v ≠ vm := by
    rintro v hv rfl
    rw [hfresh] at hv
    cases hv
  have hused : ∀ v, s.used v → update s.used vm true v = true := by
    intro v hv
    rw [update_of_ne (hold v hv)]
    exact hv
  have hperm : (s.warm ++ [(⟨vm, spec⟩ : WarmVm Config)] ++ s.drained).Perm
      (⟨vm, spec⟩ :: s.vms) := by
    rw [append_assoc]
    exact perm_middle
  have hmem : ∀ w ∈ s.warm ++ [(⟨vm, spec⟩ : WarmVm Config)] ++ s.drained,
      w = ⟨vm, spec⟩ ∨ w ∈ s.vms := fun w hw => mem_cons.mp (hperm.mem_iff.mp hw)
  have hg := h.global
  have howned := begin_owned hfree task
  have hstarted : ∀ other, s.started other → other ≠ task := by
    rintro other ho rfl
    rw [htask] at ho
    cases ho
  refine h.env ?_ rfl (fun other c hc key => ?_) rfl (.inr fun v hv => ?_) fun v hv => ?_
  · refine ⟨?_, fun w hw => ?_, fun v hv => hused v (hg.busy v hv),
      fun p hp => ⟨hused _ (hg.published p hp).1, (hg.published p hp).2⟩, hg.once, hg.stopping,
      hg.begin_started hfree, hg.left⟩
    · refine (hperm.map WarmVm.id).nodup_iff.mpr (nodup_cons.mpr ⟨fun hid => ?_, hg.ids⟩)
      obtain ⟨w, hw, hid⟩ := mem_map.mp hid
      exact hold w.id (hg.vm w hw).1 hid
    · rcases hmem w hw with rfl | hw
      · refine ⟨update_self .., ?_, fun p hp => hold _ (hg.published p hp).1⟩
        exact eq_false_iff.mpr fun hb => hold vm (hg.busy vm hb) rfl
      · obtain ⟨hu, hb, hp⟩ := hg.vm w hw
        exact ⟨hused _ hu, hb, hp⟩
  · exact howned key other
      (hstarted other (hg.started _ _ (((h.facts other c hc).1 c.key).mpr rfl)))
  · obtain ⟨w, hw, hid⟩ := any_eq_true.mp hv
    exact any_eq_true.mpr ⟨w, mem_append_left _ hw, hid⟩
  · refine ⟨rfl, rfl, hused v, fun w hw hid => ?_, id, id⟩
    rcases hmem w hw with rfl | hw
    · exact absurd hid.symm (hold v hv)
    · exact hw

theorem Inv.create (h : Inv clean s) {want : Config}
    (hstep : s.step (.create task vm want) = some s') : Inv clean s' := by
  obtain ⟨hguard, ⟨⟩⟩ := ite_none_right_eq_some.mp hstep
  simp only [and_eq_true, not_eq_true', isNone_iff_eq_none] at hguard
  obtain ⟨⟨_, hfree⟩, htask⟩ := hguard
  have hg := h.global
  have hnew : ∀ key, s.owned key ≠ some task := by
    intro key hkey
    have := hg.started key task hkey
    rw [htask] at this
    cases this
  have howned := begin_owned hfree task
  have hold : ∀ other x, other ≠ task →
      update s.creates task (some ⟨vm, want, false, .waiting⟩) other = some x →
        s.creates other = some x := by
    intro other x hne hx
    rwa [update_of_ne hne] at hx
  have hself : ∀ x, update s.creates task (some ⟨vm, want, false, .waiting⟩) task = some x →
      x = ⟨vm, want, false, .waiting⟩ := by
    intro x hx
    rw [update_self] at hx
    exact (Option.some.inj hx).symm
  refine ⟨?_, fun other x hx => ?_, fun t t' x x' v hx hx' hv hv' => ?_⟩
  · exact { hg with started := hg.begin_started hfree }
  · by_cases hne : other = task
    · subst hne
      rw [hself x hx]
      refine ⟨fun key => ?_, trivial⟩
      show update s.owned vm (some other) key = some other ↔ key = vm
      by_cases hkey : key = vm
      · rw [hkey, update_self]
        exact ⟨fun _ => rfl, fun _ => rfl⟩
      · rw [update_of_ne hkey]
        exact ⟨fun ho => absurd ho (hnew key), fun he => absurd he hkey⟩
    · exact (h.facts other x (hold other x hne hx)).frame (fun key => howned key other hne) id
        (fun _ _ _ h => h) fun _ _ => ⟨rfl, rfl, id, fun _ h _ => h, id, id⟩
  · have hne : ∀ t x, update s.creates task (some ⟨vm, want, false, .waiting⟩) t = some x →
        x.pc.vm? = some v → t ≠ task := by
      rintro t x hx hv rfl
      rw [hself x hx] at hv
      cases hv
    exact h.apart t t' x x' v (hold t x (hne t x hx hv) hx) (hold t' x' (hne t' x' hx' hv') hx')
      hv hv'

theorem Inv.cancel (h : Inv clean s) (hstep : s.step (.cancel task) = some s') : Inv clean s' := by
  obtain ⟨c, hc, rfl⟩ := map_eq_some_iff.mp hstep
  have hfacts := h.facts task c hc
  have ha : Advance clean s s task c (some { c with cancelled := true }) c.pc.vm? := by
    refine ⟨h.global, fun x hx => ?_, .refl _, fun x hx => ?_, fun v hv => .inl hv⟩
    · cases hx
      exact ⟨hfacts.1, hfacts.2.cancel⟩
    · cases hx
      exact .inr rfl
  exact h.advance hc ha

def Event.Clean (s : Pool Config) : Event Config → Prop
  | .advance task write ok => (s.creates task).elim True fun c => c.Clean write ok
  | _ => True

/-- The step lemma, by the event. -/
theorem Inv.step (h : Inv clean s) {event : Event Config} (hclean : clean → event.Clean s)
    (hstep : s.step event = some s') : Inv clean s' := by
  cases event with
  | park id spec task => exact h.park hstep
  | restored task =>
    obtain ⟨hnone, ⟨⟩⟩ := ite_none_right_eq_some.mp hstep
    refine h.env h.global.finish rfl (fun other c hc key => ?_) rfl (.inr fun _ hp => hp)
      fun v _ => ⟨rfl, rfl, id, fun _ h _ => h, id, id⟩
    refine (touches_finish none).owned key other ?_
    rintro rfl
    rw [hc] at hnone
    cases hnone
  | create task id want => exact h.create hstep
  | cancel task => exact h.cancel hstep
  | advance task write ok =>
    simp only [Pool.step] at hstep
    split at hstep
    · cases hstep
    rename_i c hc
    obtain ⟨⟨c', next⟩, hn, rfl⟩ := map_eq_some_iff.mp hstep
    have hok : clean → c.Clean write ok := by
      intro hcl
      have := hclean hcl
      simp only [Event.Clean] at this
      rwa [hc] at this
    obtain ⟨vm, ha⟩ := next_advance h.global (h.facts task c hc) hok
    exact h.advance hc (ha _ _ hn)
  | reclaim id =>
    obtain ⟨hguard, ⟨⟩⟩ := ite_none_right_eq_some.mp hstep
    simp only [and_eq_true, List.isEmpty_iff] at hguard
    exact h.unpark hguard.1.1.1
  | stopRunning id =>
    obtain ⟨hguard, ⟨⟩⟩ := ite_none_right_eq_some.mp hstep
    simp only [and_eq_true, List.isEmpty_iff] at hguard
    refine h.settle (List.Subperm.refl _) (fun v hb => ?_) (.inl hguard.1)
    have hne : v ≠ id := by
      rintro rfl
      rw [Pool.busy, hguard.2] at hb
      cases hb
    show (update s.running id false v || update s.torn id true v) = false
    rw [update_of_ne hne, update_of_ne hne]
    exact hb
  | stopWarm id =>
    obtain ⟨hguard, ⟨⟩⟩ := ite_none_right_eq_some.mp hstep
    exact h.unpark (isEmpty_iff.mp hguard)
  | tornDown id ok =>
    obtain ⟨htorn, ⟨⟩⟩ := ite_none_right_eq_some.mp hstep
    have hne : ∀ v, s.busy v = false → v ≠ id := by
      rintro v hb rfl
      rw [Pool.busy, htorn, Bool.or_true] at hb
      cases hb
    cases ok with
    | true =>
      refine h.settle (List.Subperm.refl _) (fun v hb => ?_) (.inr fun _ hw => hw)
      rw [update_of_ne (hne v hb)]
      exact hb
    | false =>
      refine h.settle (List.Subperm.refl _) (fun v hb => ?_) (.inr fun _ hw => hw)
      show (update s.running id true v || update s.torn id false v) = false
      rw [update_of_ne (hne v hb), update_of_ne (hne v hb)]
      exact hb
  | beginShutdown =>
    cases hstep
    have hg := h.global
    exact h.env { hg with stopping := fun hs => ⟨rfl, (hg.stopping hs).2⟩ } rfl
      (fun _ _ _ _ => .rfl) rfl
      (.inr fun _ hp => hp) fun _ _ => ⟨rfl, rfl, id, fun _ h _ => h, id, id⟩
  | stopAll =>
    obtain ⟨hempty, ⟨⟩⟩ := ite_none_right_eq_some.mp hstep
    have hg := h.global
    exact h.env { hg with stopping := fun _ => ⟨rfl, isEmpty_iff.mp hempty⟩ } rfl
      (fun _ _ _ _ => .rfl) rfl (.inr fun _ hp => hp)
      fun _ _ => ⟨rfl, rfl, id, fun _ h _ => h, id, id⟩
  | drain =>
    obtain ⟨hstopping, ⟨⟩⟩ := ite_none_right_eq_some.mp hstep
    refine h.settle ?_ (fun v hb => ?_) (.inl (h.global.stopping hstopping).2)
    · show (s.drained ++ s.warm).Subperm (s.warm ++ s.drained)
      exact perm_append_comm.subperm
    · rw [Bool.false_or, Bool.or_comm]
      exact hb
  | drainedDown id ok =>
    simp only [Pool.step] at hstep
    split at hstep
    · cases hstep
    rename_i w hw
    cases hstep
    cases ok with
    | true =>
      exact h.settle (eraseP_sublist.append_left _).subperm (fun _ hb => hb)
        (.inr fun _ hw => hw)
    | false =>
      refine h.settle ?_ (fun _ hb => hb) (.inr fun _ hw => mem_append_left _ hw)
      rw [append_assoc]
      exact ((find_perm hw).append_left _).subperm

def CleanIn : Pool Config → List (Event Config) → Prop
  | _, [] => True
  | s, event :: events => event.Clean s ∧ (s.step event).elim True fun s' => CleanIn s' events

instance decidableElim {α : Type} (o : Option α) (p : α → Prop) [DecidablePred p] :
    Decidable (o.elim True p) :=
  match o with
  | none => isTrue trivial
  | some a => inferInstanceAs (Decidable (p a))

instance decidableEventClean (s : Pool Config) (event : Event Config) : Decidable (event.Clean s) :=
  match event with
  | .advance _ _ _ => decidableElim ..
  | .park _ _ _ | .restored _ | .create _ _ _ | .cancel _ | .reclaim _ | .stopRunning _
  | .stopWarm _ | .tornDown _ _ | .beginShutdown | .stopAll | .drain | .drainedDown _ _ =>
    isTrue trivial

instance decidableCleanIn :
    (events : List (Event Config)) → (s : Pool Config) → Decidable (CleanIn s events)
  | [], _ => isTrue trivial
  | event :: events, s =>
    have := decidableCleanIn events
    inferInstanceAs
      (Decidable (event.Clean s ∧ (s.step event).elim True fun s' => CleanIn s' events))

/-- By induction over the events, from `Inv.step`. -/
theorem Inv.run {events : List (Event Config)} (h : Inv clean s) (hclean : clean → CleanIn s events)
    (hrun : run s events = some s') : Inv clean s' := by
  induction events generalizing s with
  | nil =>
    cases hrun
    exact h
  | cons event events ih =>
    obtain ⟨next, hstep, hrest⟩ := bind_eq_some_iff.mp hrun
    refine ih (h.step (fun hc => (hclean hc).1) hstep) (fun hc => ?_) hrest
    have hnext := (hclean hc).2
    rw [hstep] at hnext
    exact hnext

/-- In every run a warm VM is published to at most one create and only to one that asked for its
configuration. If the store takes the record of each registration, and the writes of rollbacks and
the teardowns and terminal transitions of cancelled claims succeed, then each claim that ends before
the transfer leaves its VM parked and claimable, or gone and withdrawn. -/
theorem warm_claims (registrations : Uuid → Registration) (events : List (Event Config))
    (hrun : Warm.run (Pool.start Config registrations) events = some s) :
    (s.published.map fun p => p.vm.id).Nodup ∧ (∀ p ∈ s.published, p.vm.spec = p.want) ∧
      (CleanIn (Pool.start Config registrations) events → ∀ e ∈ s.unclaimed, e.2 = true) := by
  have h := (Inv.start false registrations).run (fun hc => Bool.noConfusion hc) hrun
  refine ⟨h.global.once, fun p hp => (h.global.published p hp).2, fun hclean => ?_⟩
  exact ((Inv.start true registrations).run (fun _ => hclean) hrun).global.left rfl

end Runs

def claimEvents (task : Nat) (id : Uuid) : List (Event Unit) :=
  [.create task id (), .advance task .works true, .advance task .works true,
    .advance task .works true, .advance task .works true]

def nobody : Uuid → Registration := fun _ => ⟨none, none, none, false⟩

/-- The fleet refuses a first claim, the rollback leaves the VM parked, and a second create gets
it. -/
def rolledBackRun : List (Event Unit) :=
  [.park 1 () 0, .restored 0] ++ claimEvents 1 2 ++
    [.advance 1 .works true, .advance 1 .fails true, .advance 1 .works true,
      .advance 1 .works true, .advance 1 .works true, .advance 1 .works true,
      .advance 1 .works true] ++
    claimEvents 2 3 ++ replicate 12 (.advance 2 .works true)

theorem second_create_gets_vm : ∃ s, run (Pool.start Unit nobody) rolledBackRun = some s ∧
    s.unclaimed = [(1, true)] ∧ s.published = [⟨⟨1, ()⟩, 2, ()⟩] ∧
    (s.published.map fun p => p.vm.id).Nodup ∧ (∀ p ∈ s.published, p.vm.spec = p.want) ∧
      CleanIn (Pool.start Unit nobody) rolledBackRun ∧ ∀ e ∈ s.unclaimed, e.2 = true := by
  have hclean : CleanIn (Pool.start Unit nobody) rolledBackRun := by decide +kernel
  obtain ⟨honce, hspec, hleft⟩ := warm_claims nobody rolledBackRun rfl
  exact ⟨_, rfl, rfl, rfl, honce, hspec, hclean, hleft hclean⟩

/-- The store refuses the record of a registration: the claim ends before the transfer, and its VM
is running with an abandoned registration. -/
def abandonedRun : List (Event Unit) :=
  [.park 1 () 0, .restored 0] ++ claimEvents 1 2 ++
    .advance 1 .fails true :: replicate 7 (.advance 1 .works true)

theorem unclaimed_vm_abandoned : ∃ s, run (Pool.start Unit nobody) abandonedRun = some s ∧
    s.unclaimed = [(1, false)] ∧ s.parked 1 = false ∧ s.running 1 = true ∧
    (s.registrations 1).lifecycle = some .Abandoned :=
  ⟨_, rfl, rfl, rfl, rfl, rfl⟩

end Tarit.Supervisor.Warm
