import Tarit.Lib.Transactions

/-!
# Running schedules

The statements of `Transactions` range over all keys. Where every row is one of finitely
many `keys`, their answers and conditions can be computed: `Service.next` takes one step of
a server and `Service.run` a schedule of them, each a step the server can take.
-/
namespace Tarit.Lib

open Option Bool

variable {K : Type} {R : K → Type}

def Rows.Under (keys : List K) (v : Rows R) : Prop := ∀ k r, v k = some r → k ∈ keys

def Rows.has (keys : List K) (v : Rows R) (p : (k : K) → R k → Bool) : Bool :=
  keys.any fun k => (v k).any (p k)

variable {keys : List K} {v : Rows R}

theorem Rows.has_eq_true {p : (k : K) → R k → Bool} (h : v.has keys p = true) :
    ∃ k r, v k = some r ∧ p k r = true := by
  obtain ⟨k, _, hk⟩ := List.any_eq_true.mp h
  cases hr : v k with
  | none =>
    rw [hr] at hk
    cases hk
  | some r =>
    rw [hr] at hk
    exact ⟨k, r, hr, hk⟩

theorem Rows.has_eq_false (hv : v.Under keys) {p : (k : K) → R k → Bool}
    (h : v.has keys p = false) (k : K) (r : R k) (hr : v k = some r) : p k r = false := by
  have hk := List.any_eq_false.mp h k (hv k r hr)
  rw [hr] at hk
  simpa using hk

namespace Stmt

def reply (keys : List K) (v : Rows R) : (s : Stmt R) → s.Answer
  | select k => v k
  | selectForUpdate k cond => (v k).filter cond
  | find p => keys.findSome? fun k => ((v k).filter (p k)).map fun r => ⟨k, r⟩
  | update k cond set => ((v k).filter cond).map set
  | insert _ _ => ()
  | insertIfNone k _ p => (v k).isNone && !v.has keys p
  | upsert k row cond set => match v k with
    | none => some row
    | some r => if cond r then some (set r) else none
  | delete k cond p => if v.has keys p then none else (v k).filter cond
  | deleteWhere _ => ()

/-- The constraints let the statement through. -/
def admits (schema : Schema R) (keys : List K) (v : Rows R) : Stmt R → Bool
  | select _ => true
  | selectForUpdate _ _ => true
  | find _ => true
  | update k cond set => (v k).all fun r => !cond r ||
    (schema.parents k (set r)).all fun p => (v p).isSome
  | insert k row => (v k).isNone && (schema.parents k row).all fun p => (v p).isSome
  | insertIfNone k row _ =>
    (v k).isSome || (schema.parents k row).all fun p => (v p).isSome
  | upsert k row _ _ => (v k).isSome || (schema.parents k row).all fun p => (v p).isSome
  | delete k cond _ => (v k).all fun r => !cond r || !v.has keys (schema.restricts k)
  | deleteWhere p => keys.all fun k => (v k).all fun r => !p k r || !v.has keys (schema.restricts k)

theorem reply_answers (hv : v.Under keys) (s : Stmt R) : s.Answers v (s.reply keys v) := by
  cases s with
  | select | selectForUpdate | update | upsert => rfl
  | insert | deleteWhere => trivial
  | find p =>
    cases h : (find p).reply keys v with
    | none =>
      intro k r hr
      have hnone := List.findSome?_eq_none_iff.mp h k (hv k r hr)
      simpa [hr] using hnone
    | some found =>
      obtain ⟨k, _, hk⟩ := List.exists_of_findSome?_eq_some h
      obtain ⟨r, hr, rfl⟩ := map_eq_some_iff.mp hk
      exact filter_eq_some_iff.mp hr
  | insertIfNone k row p =>
    show ((v k).isNone && !v.has keys p) = true ↔ _
    rw [and_eq_true, isNone_iff_eq_none, not_eq_true']
    refine and_congr_right fun _ => ⟨fun h => Rows.has_eq_false hv h, fun h => ?_⟩
    by_contra hhas
    obtain ⟨k', r, hr, hp⟩ := Rows.has_eq_true (of_not_eq_false hhas)
    rw [h k' r hr] at hp
    cases hp
  | delete k cond p =>
    cases h : v.has keys p with
    | true =>
      refine .inr ⟨?_, Rows.has_eq_true h⟩
      rw [reply, h]
      rfl
    | false =>
      refine .inl ⟨?_, Rows.has_eq_false hv h⟩
      rw [reply, h]
      rfl

theorem admits_admitted {schema : Schema R} (hv : v.Under keys) {s : Stmt R}
    (h : s.admits schema keys v = true) : s.Admitted schema v := by
  cases s with
  | select | selectForUpdate | find => trivial
  | update k cond set =>
    intro r hr hcond p hp
    simp only [admits, hr, all_some, hcond, Bool.not_true, Bool.false_or,
      List.all_eq_true] at h
    exact h p hp
  | insert k row =>
    simp only [admits, Bool.and_eq_true, isNone_iff_eq_none, List.all_eq_true] at h
    exact h
  | insertIfNone k row | upsert k row =>
    intro hnone
    simp only [admits, hnone, isSome_none, Bool.false_or, List.all_eq_true] at h
    exact h
  | delete k cond =>
    intro r hr hcond
    simp only [admits, hr, all_some, hcond, Bool.not_true, Bool.false_or,
      Bool.not_eq_true'] at h
    exact Rows.has_eq_false hv h
  | deleteWhere p =>
    intro k r hr hp
    have hk := List.all_eq_true.mp h k (hv k r hr)
    simp only [hr, all_some, hp, Bool.not_true, Bool.false_or, Bool.not_eq_true'] at hk
    exact Rows.has_eq_false hv hk

variable [DecidableEq K]

/-- The row that the statement names is one of the keys. -/
def inside (keys : List K) : Stmt R → Bool
  | select _ => true
  | find _ => true
  | deleteWhere _ => true
  | selectForUpdate k _ => keys.contains k
  | update k _ _ => keys.contains k
  | insert k _ => keys.contains k
  | insertIfNone k _ _ => keys.contains k
  | upsert k _ _ _ => keys.contains k
  | delete k _ _ => keys.contains k

theorem touch_inside {schema : Schema R} (hv : v.Under keys) {s : Stmt R}
    (h : s.inside keys = true) {a : s.Answer} {k : K} (hk : s.touch schema v a k ≠ none) :
    k ∈ keys := by
  have honly : ∀ k' (o : Option (Option (R k'))), keys.contains k' = true → only k' o k ≠ none →
      k ∈ keys := by
    intro k' o hmem hne
    by_cases heq : k = k'
    · subst heq
      exact List.contains_iff_mem.mp hmem
    · exact absurd (only_of_ne heq) hne
  cases s with
  | select | find => exact absurd rfl hk
  | selectForUpdate | update | insert | insertIfNone | upsert => exact honly _ _ h hk
  | delete k' cond p =>
    cases a with
    | none => exact absurd rfl hk
    | some r =>
      rw [touch_delete_some] at hk
      by_cases heq : k = k'
      · subst heq
        exact List.contains_iff_mem.mp h
      · rw [cascade_of_ne heq] at hk
        cases hr : v k with
        | none => exact absurd (by rw [hr]; rfl) hk
        | some r => exact hv k r hr
  | deleteWhere p =>
    cases hr : v k with
    | none => exact absurd (by simp [touch, hr]) hk
    | some r => exact hv k r hr

end Stmt

variable [DecidableEq K]

/-- The statement with no other transaction beside it. -/
def Session.serve (schema : Schema R) (keys : List K) (st : Stmt R) (s : Session R) :
    st.Answer × Session R :=
  (st.reply keys s.view, s.perform schema st (st.reply keys s.view))

/-- The whole transaction; an error rolls it back. -/
def Session.alone {ε α : Type} (schema : Schema R) (keys : List K)
    (p : ExceptT ε (Prog (Stmt R) Stmt.Answer) α) (rows : Rows R) : Except ε α × Rows R :=
  match p.run.interp (Session.serve schema keys) (Session.start rows) with
  | (.ok a, s) => (.ok a, s.view)
  | (.error e, _) => (.error e, rows)

section Schedules

variable {C : Type} {A : C → Type} {ε : Type} {T : Type} [DecidableEq T]

inductive Action (T C : Type) : Type where
  | start (t : T) (c : C)
  | statement (t : T)
  | commit (t : T)

/-- No other transaction of `ids` than `t` holds a touched row. -/
def Sys.free (keys : List K) (ids : List T) (s : Sys T R A ε) (t : T)
    (touched : (k : K) → Option (Option (R k))) : Bool :=
  ids.all fun u => u = t || (s.tx u).all fun y =>
    keys.all fun k => (touched k).isNone || (y.held k).isNone

/-- The next state of the server, unless the action cannot be taken or a statement does not
pass `check`. -/
def Service.next (service : Service R A ε) (check : (c : C) → Session R → Stmt R → Bool)
    (keys : List K) (ids : List T) (s : Sys T R A ε) : Action T C → Option (Sys T R A ε)
  | .start t c =>
    if (s.tx t).isNone && ids.contains t then
      some { s with
        tx := Function.update s.tx t (some ⟨c, (service.prog c).run, fun _ => none, []⟩) }
    else none
  | .statement t => match s.tx t with
    | some ⟨c, .step st next, held, log⟩ =>
      let session := Session.mk s.rows held log
      let a := st.reply keys session.view
      let after := session.perform service.schema st a
      if st.inside keys && st.admits service.schema keys session.view &&
          s.free keys ids t (st.touch service.schema session.view a) && check c session st then
        some { s with tx := Function.update s.tx t (some ⟨c, next a, after.held, after.log⟩) }
      else none
    | _ => none
  | .commit t => match s.tx t with
    | some ⟨_, .done (.ok _), held, log⟩ =>
      some ⟨(Session.mk s.rows held log).view, Function.update s.tx t none⟩
    | _ => none

def Service.run (service : Service R A ε) (check : (c : C) → Session R → Stmt R → Bool)
    (keys : List K) (ids : List T) : List (Action T C) → Sys T R A ε → Option (Sys T R A ε)
  | [], s => some s
  | action :: rest, s =>
    (service.next check keys ids s action).bind (service.run check keys ids rest)

/-- Rows and held rows are under the keys, and the open transactions are of the list. -/
structure Sys.Inside (keys : List K) (ids : List T) (s : Sys T R A ε) : Prop where
  rows : s.rows.Under keys
  tx : ∀ t x, s.tx t = some x → t ∈ ids ∧ ∀ k, x.held k ≠ none → k ∈ keys

variable {t : T} {actions : List (Action T C)}

omit [DecidableEq K] [DecidableEq T] in
theorem Sys.Inside.view {keys : List K} {ids : List T} {s : Sys T R A ε} (hs : s.Inside keys ids)
    {x : Tx R A ε} (hx : s.tx t = some x) : (x.session s.rows).view.Under keys := by
  intro k r hr
  cases hheld : x.held k with
  | none =>
    rw [Session.view_of_free hheld] at hr
    exact hs.rows k r hr
  | some o => exact (hs.tx t x hx).2 k (by rw [hheld]; exact some_ne_none o)

variable {service : Service R A ε} {check : (c : C) → Session R → Stmt R → Bool} {keys : List K}
  {ids : List T} {s s' : Sys T R A ε}

omit [DecidableEq K] in
theorem Sys.free_Free (hs : s.Inside keys ids) {touched : (k : K) → Option (Option (R k))}
    (htouched : ∀ k, touched k ≠ none → k ∈ keys) (h : s.free keys ids t touched = true) :
    s.Free t touched := by
  intro u y hu hy k hk
  have hfree := List.all_eq_true.mp h u (hs.tx u y hy).1
  simp only [hu, decide_false, Bool.false_or, hy, all_some] at hfree
  have hheld := List.all_eq_true.mp hfree k (htouched k hk)
  rw [or_eq_true, isNone_iff_eq_none, isNone_iff_eq_none] at hheld
  exact hheld.resolve_left hk

omit [DecidableEq K] in
theorem Sys.Inside.update (hs : s.Inside keys ids) {x : Option (Tx R A ε)}
    (hx : ∀ y, x = some y → t ∈ ids ∧ ∀ k, y.held k ≠ none → k ∈ keys) :
    Sys.Inside keys ids { s with tx := Function.update s.tx t x } := by
  refine ⟨hs.rows, fun u y hy => ?_⟩
  obtain ⟨hu, hy'⟩ | ⟨_, hy'⟩ := update_eq_some hy
  · rw [hu]
    exact hx y hy'
  · exact hs.tx u y hy'

omit [DecidableEq K] [DecidableEq T] in
theorem Sys.inside_empty : Sys.Inside keys ids (⟨fun _ => none, fun _ => none⟩ : Sys T R A ε) := by
  constructor <;> exact nofun

variable (hcheck : ∀ c w st, check c w st = true → service.ok c w st)

include hcheck

/-- What the scheduler computes is a step of the service. -/
theorem Service.next_step (hs : s.Inside keys ids) {action : Action T C}
    (h : service.next check keys ids s action = some s') :
    (∃ e, service.Step s e s') ∧ s'.Inside keys ids := by
  cases action with
  | start t c =>
    simp only [Service.next, ite_none_right_eq_some, and_eq_true,
      isNone_iff_eq_none, List.contains_iff_mem, Option.some.injEq] at h
    obtain ⟨⟨hnone, hmem⟩, rfl⟩ := h
    refine ⟨⟨_, .start t c hnone⟩, hs.update fun y hy => ?_⟩
    cases hy
    exact ⟨hmem, fun k hk => absurd rfl hk⟩
  | statement t =>
    simp only [Service.next] at h
    split at h
    · next c st next held log hx =>
      simp only [ite_none_right_eq_some, and_eq_true, Option.some.injEq] at h
      obtain ⟨⟨⟨⟨hinside, hadmits⟩, hfree⟩, hcheck'⟩, rfl⟩ := h
      have hview : (Session.mk s.rows held log).view.Under keys := hs.view hx
      have htouched : ∀ k, st.touch service.schema (Session.mk s.rows held log).view
          (st.reply keys (Session.mk s.rows held log).view) k ≠ none → k ∈ keys :=
        fun k hk => Stmt.touch_inside hview hinside hk
      refine ⟨⟨_, .statement hx _ (Stmt.admits_admitted hview hadmits)
        (Stmt.reply_answers hview st) (Sys.free_Free hs htouched hfree)
        (hcheck _ _ _ hcheck') rfl⟩, hs.update fun y hy => ?_⟩
      cases hy
      refine ⟨(hs.tx t _ hx).1, fun k hk => ?_⟩
      dsimp only at hk
      rw [Session.perform_held] at hk
      cases htouch : st.touch service.schema (Session.mk s.rows held log).view
          (st.reply keys (Session.mk s.rows held log).view) k with
      | some r => exact htouched k (by rw [htouch]; exact some_ne_none r)
      | none =>
        rw [htouch, none_or] at hk
        exact (hs.tx t _ hx).2 k hk
    · cases h
  | commit t =>
    simp only [Service.next] at h
    split at h
    · next c a held log hx =>
      cases h
      refine ⟨⟨_, .commit hx⟩, hs.view hx, fun u y hy => ?_⟩
      obtain ⟨_, hy⟩ | ⟨_, hy⟩ := update_eq_some hy
      · cases hy
      · exact hs.tx u y hy
    · cases h

/-- A schedule that runs ends in a state the server reaches, with rows under its keys. -/
theorem Service.run_reaches {initial : Rows R} (hs : service.Reaches initial s)
    (hinside : s.Inside keys ids)
    (h : service.run check keys ids actions s = some s') :
    service.Reaches initial s' ∧ s'.Inside keys ids := by
  induction actions generalizing s with
  | nil =>
    cases h
    exact ⟨hs, hinside⟩
  | cons action rest ih =>
    obtain ⟨next, hnext, hrest⟩ := bind_eq_some_iff.mp h
    obtain ⟨⟨e, hstep⟩, hinside'⟩ := Service.next_step hcheck hinside hnext
    exact ih (hs.step hstep) hinside' hrest

theorem Service.run_empty
    (h : service.run check keys ids actions ⟨fun _ => none, fun _ => none⟩ = some s') :
    service.Reaches (fun _ => none) s' :=
  (Service.run_reaches hcheck .init Sys.inside_empty h).1

end Schedules

end Tarit.Lib
