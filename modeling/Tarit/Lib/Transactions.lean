import Mathlib.Logic.Function.Basic
import Tarit.Lib.Interleave

/-!
# Transactions over rows with locks

Tables are partial maps from primary keys to rows. A transaction is a program of SQL
statements; it reads the latest committed rows and its own writes (READ COMMITTED), locks
every row it writes or selects for update, and keeps the locks until it commits or rolls
back. A statement is atomic and waits while another transaction holds a row it would lock.

`Sys` is the server with any number of transactions open. `Session` is what one of them
sees: the committed rows, the versions of the rows it holds, and the statements it has
made. A program is verified over `Session` by the triples of `World`, where the other
transactions appear only through what each of them guarantees when it commits;
`Reaches.commits` brings the verified programs together.
-/
namespace Tarit.Lib

open Option Function

variable {K : Type}

/-- The rows of all tables, at most one under each key. -/
abbrev Rows (R : K → Type) := (k : K) → Option (R k)

/-- The statements, each on the row of one key unless it says otherwise. `cond` is the
WHERE clause beyond the key and `set` the SET clause. -/
inductive Stmt (R : K → Type) : Type where
  | select (k : K)
  | selectForUpdate (k : K) (cond : R k → Bool)
  /-- `SELECT … LIMIT 1` of the rows with `p`. -/
  | find (p : (k : K) → R k → Bool)
  | update (k : K) (cond : R k → Bool) (set : R k → R k)
  | insert (k : K) (row : R k)
  /-- `INSERT … ON CONFLICT DO NOTHING`, where a row with `p` is a conflict too. -/
  | insertIfNone (k : K) (row : R k) (p : (k : K) → R k → Bool)
  /-- `INSERT … ON CONFLICT DO UPDATE SET set WHERE cond`. -/
  | upsert (k : K) (row : R k) (cond : R k → Bool) (set : R k → R k)
  /-- `DELETE … WHERE cond AND NOT EXISTS (a row with p)`. -/
  | delete (k : K) (cond : R k → Bool) (p : (k : K) → R k → Bool)
  /-- `DELETE` of all rows with `p`. -/
  | deleteWhere (p : (k : K) → R k → Bool)

/-- What the tables say about each other: the rows a row refers to, what deleting the row
of `k` does to the row of `k'` (`none` if nothing, otherwise its next version), and which
rows forbid it. -/
structure Schema (R : K → Type) where
  parents : (k : K) → R k → List K
  onDelete : (k k' : K) → R k' → Option (Option (R k'))
  restricts : (k k' : K) → R k' → Bool

variable {k k' : K}

namespace Stmt

variable {R : K → Type} {o : Option (Option (R k))} {schema : Schema R} {v : Rows R}

/-- The rows a statement returns: after the change where it changes them, before it for a
deletion. -/
abbrev Answer : Stmt R → Type
  | select k => Option (R k)
  | selectForUpdate k _ => Option (R k)
  | find _ => Option ((k : K) × R k)
  | update k _ _ => Option (R k)
  | insert _ _ => Unit
  | insertIfNone _ _ _ => Bool
  | upsert k _ _ _ => Option (R k)
  | delete k _ _ => Option (R k)
  | deleteWhere _ => Unit

/-- The statement answers `a`. -/
def Answers (v : Rows R) : (s : Stmt R) → s.Answer → Prop
  | select k, a => a = v k
  | selectForUpdate k cond, a => a = (v k).filter cond
  | find p, a => match a with
    | some ⟨k, r⟩ => v k = some r ∧ p k r = true
    | none => ∀ k r, v k = some r → p k r = false
  | update k cond set, a => a = ((v k).filter cond).map set
  | insert _ _, _ => True
  | insertIfNone k _ p, a =>
    a = true ↔ v k = none ∧ ∀ k' r, v k' = some r → p k' r = false
  | upsert k row cond set, a =>
    a = match v k with
      | none => some row
      | some r => if cond r then some (set r) else none
  | delete k cond p, a =>
    (a = (v k).filter cond ∧ ∀ k' r, v k' = some r → p k' r = false) ∨
      (a = none ∧ ∃ k' r, v k' = some r ∧ p k' r = true)
  | deleteWhere _, _ => True

/-- The row of `k` alone, if any. -/
def only [DecidableEq K] (k : K) (o : Option (Option (R k))) : (k' : K) → Option (Option (R k')) :=
  Function.update (fun _ => none) k o

@[simp] theorem only_self [DecidableEq K] (o : Option (Option (R k))) : only k o k = o :=
  Function.update_self ..

theorem only_of_ne [DecidableEq K] (h : k' ≠ k) : only k o k' = none := Function.update_of_ne h ..

theorem only_none [DecidableEq K] (k : K) : only (R := R) k none = fun _ => none :=
  Function.update_eq_self k _

/-- The row of `k` deleted, and what that does to the other rows. -/
def cascade [DecidableEq K] (schema : Schema R) (v : Rows R) (k : K) :
    (k' : K) → Option (Option (R k')) :=
  Function.update (fun k' => (v k').bind (schema.onDelete k k')) k (some none)

@[simp] theorem cascade_self [DecidableEq K] : cascade schema v k k = some none :=
  Function.update_self ..

theorem cascade_of_ne [DecidableEq K] (h : k' ≠ k) :
    cascade schema v k k' = (v k').bind (schema.onDelete k k') :=
  Function.update_of_ne h ..

/-- The rows that the statement locks when it answers `a`, each with its next version. A row
that `ON CONFLICT` finds is locked also when the WHERE clause keeps it as it is. The `KEY SHARE`
locks of an insert on the rows it refers to are left out, so there are more interleavings than the
server has. -/
def touch [DecidableEq K] (schema : Schema R) (v : Rows R) :
    (s : Stmt R) → s.Answer → (k : K) → Option (Option (R k))
  | select _, _ => fun _ => none
  | selectForUpdate k _, a => only k (Option.map some a)
  | find _, _ => fun _ => none
  | update k _ _, a => only k (Option.map some a)
  | insert k row, _ => only k (some (some row))
  | insertIfNone k row _, a => only k (if a = true then some (some row) else none)
  | upsert k _ _ _, a => only k (some (or a (v k)))
  | delete k _ _, a => if isSome a then cascade schema v k else fun _ => none
  | deleteWhere p, _ => fun k => ((v k).filter (p k)).map fun _ => none

section Touch

variable [DecidableEq K] (schema : Schema R) (v : Rows R) (k : K) {cond : R k → Bool}
  {p : (k : K) → R k → Bool}

theorem touch_selectForUpdate (a : Option (R k)) :
    (selectForUpdate k cond).touch schema v a = only k (a.map some) := rfl

theorem touch_update (cond : R k → Bool) (set : R k → R k) (a : Option (R k)) :
    (update k cond set).touch schema v a = only k (a.map some) := rfl

theorem touch_insert (row : R k) (a : Unit) :
    (insert k row).touch schema v a = only k (some (some row)) := rfl

theorem touch_insertIfNone (row : R k) (a : Bool) :
    (insertIfNone k row p).touch schema v a =
      only k (if a = true then some (some row) else none) := rfl

theorem touch_upsert (row : R k) (cond : R k → Bool) (set : R k → R k) (a : Option (R k)) :
    (upsert k row cond set).touch schema v a = only k (some (a.or (v k))) := rfl

theorem touch_delete_some (r : R k) :
    (delete k cond p).touch schema v (some r) = cascade schema v k := rfl

end Touch

/-- The constraints let the statement through; otherwise it fails and its transaction is
rolled back. -/
def Admitted (schema : Schema R) (v : Rows R) : Stmt R → Prop
  | select _ => True
  | selectForUpdate _ _ => True
  | find _ => True
  | update k cond set =>
    ∀ r, v k = some r → cond r = true → ∀ p ∈ schema.parents k (set r), (v p).isSome
  | insert k row => v k = none ∧ ∀ p ∈ schema.parents k row, (v p).isSome
  | insertIfNone k row _ => v k = none → ∀ p ∈ schema.parents k row, (v p).isSome
  | upsert k row _ _ => v k = none → ∀ p ∈ schema.parents k row, (v p).isSome
  | delete k cond _ =>
    ∀ r, v k = some r → cond r = true → ∀ k' r', v k' = some r' → schema.restricts k k' r' = false
  | deleteWhere p =>
    ∀ k r, v k = some r → p k r = true → ∀ k' r', v k' = some r' → schema.restricts k k' r' = false

/-- The statement can write the row of `k` itself. -/
def Writes (k : K) : Stmt R → Prop
  | select _ => False
  | selectForUpdate _ _ => False
  | find _ => False
  | update k' _ _ => k' = k
  | insert k' _ => k' = k
  | insertIfNone k' _ _ => k' = k
  | upsert k' _ _ _ => k' = k
  | delete k' _ _ => k' = k
  | deleteWhere p => ∃ r, p k r = true

/-- A statement that does not write the row of `k` leaves it as it is or deletes or changes
it with a row it refers to. -/
theorem touch_unwritten [DecidableEq K] {schema : Schema R} {v : Rows R} {st : Stmt R}
    {a : st.Answer} {r : Option (R k)} (hst : ¬ st.Writes k) (ha : st.Answers v a)
    (h : st.touch schema v a k = some r) :
    r = v k ∨ ∃ k' cond p, st = .delete k' cond p ∧ (v k).bind (schema.onDelete k' k) = some r := by
  cases st with
  | select | find => cases h
  | selectForUpdate k' cond =>
    by_cases hk : k = k'
    · subst hk
      have ha' : a = (v k).filter cond := ha
      rw [touch_selectForUpdate, only_self, ha'] at h
      obtain ⟨row, hrow, rfl⟩ := map_eq_some_iff.mp h
      exact .inl (filter_eq_some_iff.mp hrow).1.symm
    · rw [touch_selectForUpdate, only_of_ne hk] at h
      cases h
  | update k' =>
    rw [touch_update, only_of_ne (Ne.symm hst)] at h
    cases h
  | insert k' =>
    rw [touch_insert, only_of_ne (Ne.symm hst)] at h
    cases h
  | insertIfNone k' =>
    rw [touch_insertIfNone, only_of_ne (Ne.symm hst)] at h
    cases h
  | upsert k' =>
    rw [touch_upsert, only_of_ne (Ne.symm hst)] at h
    cases h
  | delete k' cond p =>
    cases a with
    | none => cases h
    | some row =>
      rw [touch_delete_some, cascade_of_ne (Ne.symm hst)] at h
      exact .inr ⟨k', cond, p, rfl, h⟩
  | deleteWhere p =>
    obtain ⟨row, hrow, _⟩ := map_eq_some_iff.mp h
    exact absurd ⟨row, (filter_eq_some_iff.mp hrow).2⟩ hst

end Stmt

/-- What one transaction has before it: the committed rows, the versions of the rows it
holds, and its statements with what each of them saw, the latest first. -/
structure Session (R : K → Type) where
  rows : Rows R
  held : (k : K) → Option (Option (R k))
  log : List (Stmt R × Rows R)

namespace Session

variable {R : K → Type}

def start (rows : Rows R) : Session R := ⟨rows, fun _ => none, []⟩

/-- The rows as the transaction sees them, and as a commit would leave them. -/
def view (s : Session R) : Rows R := fun k => (s.held k).getD (s.rows k)

/-- The session after the statement `st` answered `a`. -/
def perform [DecidableEq K] (schema : Schema R) (st : Stmt R) (a : st.Answer) (s : Session R) :
    Session R :=
  { s with
    held := fun k => (st.touch schema s.view a k).or (s.held k)
    log := (st, s.view) :: s.log }

section Perform

variable [DecidableEq K] (schema : Schema R) (st : Stmt R) (a : st.Answer) (s : Session R)

@[simp] theorem perform_rows : (s.perform schema st a).rows = s.rows := rfl

theorem perform_held :
    (s.perform schema st a).held k = (st.touch schema s.view a k).or (s.held k) := rfl

theorem view_perform :
    (s.perform schema st a).view k = (st.touch schema s.view a k).getD (s.view k) := by
  have h : (s.perform schema st a).view k =
      ((st.touch schema s.view a k).or (s.held k)).getD (s.rows k) := rfl
  rw [h]
  cases st.touch schema s.view a k <;> rfl

variable {schema st a s}

theorem view_perform_self {o : Option (Option (R k))}
    (h : st.touch schema s.view a = Stmt.only k o) :
    (s.perform schema st a).view k = o.getD (s.view k) := by
  rw [view_perform, h, Stmt.only_self]

theorem view_perform_of_ne {o : Option (Option (R k))}
    (h : st.touch schema s.view a = Stmt.only k o) (hk : k' ≠ k) :
    (s.perform schema st a).view k' = s.view k' := by
  rw [view_perform, h, Stmt.only_of_ne hk]
  rfl

theorem view_deleteWhere (schema : Schema R) (p : (k : K) → R k → Bool) (a : Unit)
    (s : Session R) :
    (s.perform schema (.deleteWhere p) a).view k = (s.view k).filter fun r => !p k r := by
  rw [view_perform]
  show (((s.view k).filter (p k)).map fun _ => none).getD (s.view k) = _
  cases s.view k with
  | none => rfl
  | some r => cases hp : p k r <;> simp [Option.filter, hp]

end Perform

theorem view_of_held {s : Session R} {r : Option (R k)} (h : s.held k = some r) : s.view k = r := by
  unfold view
  rw [h]
  rfl

theorem view_of_free {s : Session R} (h : s.held k = none) : s.view k = s.rows k := by
  unfold view
  rw [h]
  rfl

end Session

section Transactions

variable {R : K → Type} {C : Type} {A : C → Type} {ε : Type}

/-- A transaction of the call `call`: the statements still to be made, and its session
without the committed rows. -/
structure Tx (R : K → Type) (A : C → Type) (ε : Type) where
  call : C
  rest : Prog (Stmt R) Stmt.Answer (Except ε (A call))
  held : (k : K) → Option (Option (R k))
  log : List (Stmt R × Rows R)

/-- The server: the committed rows and the open transactions. -/
structure Sys (T : Type) (R : K → Type) (A : C → Type) (ε : Type) where
  rows : Rows R
  tx : T → Option (Tx R A ε)

def Tx.session (x : Tx R A ε) (rows : Rows R) : Session R := ⟨rows, x.held, x.log⟩

/-- What a step of the server is: a call begins, makes a statement, commits and returns
`a`, or is rolled back. -/
inductive Event (A : C → Type) : Type where
  | start (c : C)
  | statement (c : C)
  | commit (c : C) (a : A c)
  | rollback (c : C)

/-- The calls a server takes: their programs, and the condition `ok` under which a
statement of a call is considered (`True` for all interleavings). -/
structure Service (R : K → Type) (A : C → Type) (ε : Type) where
  schema : Schema R
  prog : (c : C) → ExceptT ε (Prog (Stmt R) Stmt.Answer) (A c)
  ok : (c : C) → Session R → Stmt R → Prop

variable {T : Type} [DecidableEq K] [DecidableEq T]

/-- No other transaction than `t` holds a row of `touched`. -/
def Sys.Free (s : Sys T R A ε) (t : T) (touched : (k : K) → Option (Option (R k))) : Prop :=
  ∀ u y, u ≠ t → s.tx u = some y → ∀ k, touched k ≠ none → y.held k = none

/-- One statement, the start or the end of one transaction. -/
inductive Service.Step (service : Service R A ε) : Sys T R A ε → Event A → Sys T R A ε → Prop where
  | start {s : Sys T R A ε} (t : T) (c : C) (h : s.tx t = none) :
      Step service s (.start c)
        { s with tx := update s.tx t (some ⟨c, (service.prog c).run, fun _ => none, []⟩) }
  | statement {s : Sys T R A ε} {t : T} {c : C} {st : Stmt R}
      {next : st.Answer → Prog (Stmt R) Stmt.Answer (Except ε (A c))}
      {held : (k : K) → Option (Option (R k))} {log : List (Stmt R × Rows R)} {w : Session R}
      (h : s.tx t = some ⟨c, .step st next, held, log⟩) (a : st.Answer)
      (hadmitted : st.Admitted service.schema (Session.mk s.rows held log).view)
      (hanswers : st.Answers (Session.mk s.rows held log).view a)
      (hfree : s.Free t (st.touch service.schema (Session.mk s.rows held log).view a))
      (hok : service.ok c ⟨s.rows, held, log⟩ st)
      (hw : w = (Session.mk s.rows held log).perform service.schema st a) :
      Step service s (.statement c)
        { s with tx := update s.tx t (some ⟨c, next a, w.held, w.log⟩) }
  | commit {s : Sys T R A ε} {t : T} {c : C} {a : A c}
      {held : (k : K) → Option (Option (R k))} {log : List (Stmt R × Rows R)}
      (h : s.tx t = some ⟨c, .done (.ok a), held, log⟩) :
      Step service s (.commit c a) ⟨(Session.mk s.rows held log).view, update s.tx t none⟩
  | rollback {s : Sys T R A ε} {t : T} {x : Tx R A ε} (h : s.tx t = some x) :
      Step service s (.rollback x.call) { s with tx := update s.tx t none }

/-- The states of a server that began with the rows `initial` and no transaction. -/
inductive Service.Reaches (service : Service R A ε) (initial : Rows R) : Sys T R A ε → Prop where
  | init : Reaches service initial ⟨initial, fun _ => none⟩
  | step {s s' : Sys T R A ε} {e : Event A} :
      Reaches service initial s → service.Step s e s' → Reaches service initial s'

/-- The world of one transaction of the call `c`. Between its statements other transactions
commit, if the server is `shared`, each with what `Post` promises of it, and none of them
holds a row this one holds. -/
def Service.world (service : Service R A ε) (shared : Prop)
    (Post : (c : C) → A c → Session R → Prop) (c : C) :
    World (Session R) (Stmt R) Stmt.Answer where
  env s s' := shared ∧ s'.held = s.held ∧ s'.log = s.log ∧ ∃ d a u, Post d a u ∧
    u.rows = s.rows ∧ (∀ k, u.held k = none ∨ s.held k = none) ∧ s'.rows = u.view
  exec st s a s' := st.Admitted service.schema s.view ∧ st.Answers s.view a ∧
    service.ok c s st ∧ s' = s.perform service.schema st a

section Guarantee

variable {service : Service R A ε} {shared : Prop} {Post : (c : C) → A c → Session R → Prop}

/-- Other transactions change none of the rows this one holds. -/
theorem Service.env_held {c : C} {s s' : Session R} (h : (service.world shared Post c).env s s')
    (hk : s.held k ≠ none) : s'.rows k = s.rows k := by
  obtain ⟨_, _, _, d, a, u, _, hrows, happart, hrows'⟩ := h
  rw [hrows', Session.view_of_free ((happart k).resolve_right hk), hrows]

/-- An assertion about the rows a transaction holds and its statements is stable. -/
theorem Service.stable_own {c : C} {P : Session R → Prop}
    (h : ∀ s s' : Session R, s'.held = s.held → s'.log = s.log →
      (∀ k, s.held k ≠ none → s'.rows k = s.rows k) → P s → P s') :
    (service.world shared Post c).Stable P :=
  fun s s' hs he => h s s' he.2.1 he.2.2.1 (fun _ hk => Service.env_held he hk) hs

theorem Service.yields_query {c : C} {st : Stmt R} {P : Session R → Prop}
    {Q : st.Answer → Session R → Prop} (hP : (service.world shared Post c).Stable P)
    (hQ : ∀ a, (service.world shared Post c).Stable (Q a))
    (h : ∀ s a, P s → st.Admitted service.schema s.view → st.Answers s.view a →
      service.ok c s st → Q a (s.perform service.schema st a)) :
    (service.world shared Post c).Yields P
      (ExceptT.lift (Prog.perform st) : ExceptT ε (Prog (Stmt R) Stmt.Answer) st.Answer) Q := by
  refine .lift (.perform hP ?_ hQ)
  intro s a s' hs hexec
  obtain ⟨hadmitted, hanswers, hok, rfl⟩ := hexec
  exact h s a hs hadmitted hanswers hok

theorem Service.yields_uses {c : C} {S : Stmt R → Prop} {I : Session R → Prop} {α : Type}
    {p : ExceptT ε (Prog (Stmt R) Stmt.Answer) α} (hp : p.run.Uses S)
    (hI : (service.world shared Post c).Stable I)
    (h : ∀ st s a, S st → I s → st.Admitted service.schema s.view → st.Answers s.view a →
      service.ok c s st → I (s.perform service.schema st a)) :
    (service.world shared Post c).Yields I p fun _ => I := by
  refine World.Tries.conseq (.of_uses hp hI ?_) (fun _ h => h) (fun _ _ h => h)
    fun _ _ _ => trivial
  intro st s a s' hst hs hexec
  obtain ⟨hadmitted, hanswers, hok, rfl⟩ := hexec
  exact h st s a hst hs hadmitted hanswers hok

/-- No two transactions hold one row, every transaction can only commit with `Post`, and
the committed rows have `I`. -/
structure Service.Sound (service : Service R A ε) (shared : Prop)
    (Post : (c : C) → A c → Session R → Prop) (I : Rows R → Prop) (s : Sys T R A ε) : Prop where
  apart : ∀ t u x y, t ≠ u → s.tx t = some x → s.tx u = some y →
    ∀ k, x.held k = none ∨ y.held k = none
  safe : ∀ t x, s.tx t = some x → ∀ r w, (service.world shared Post x.call).Runs x.rest
    (x.session s.rows) r w → ∀ a, r = .ok a → Post x.call a w
  rows : I s.rows

theorem update_eq_some {X : Type} {f : T → Option X} {t u : T} {o : Option X} {y : X}
    (h : update f t o u = some y) : (u = t ∧ o = some y) ∨ (u ≠ t ∧ f u = some y) := by
  by_cases hu : u = t
  · subst hu
    rw [update_self] at h
    exact .inl ⟨rfl, h⟩
  · rw [update_of_ne hu] at h
    exact .inr ⟨hu, h⟩

variable {I : Rows R → Prop} {s s' : Sys T R A ε} {e : Event A}

omit [DecidableEq T] in
theorem Service.Sound.committed (hs : service.Sound shared Post I s) {t : T} {c : C} {a : A c}
    {held : (k : K) → Option (Option (R k))} {log : List (Stmt R × Rows R)}
    (h : s.tx t = some ⟨c, .done (.ok a), held, log⟩) : Post c a ⟨s.rows, held, log⟩ :=
  hs.safe t _ h _ _ (.done _ _) a rfl

theorem Service.Sound.close (hs : service.Sound shared Post I s) (t : T) :
    service.Sound shared Post I { s with tx := update s.tx t none } := by
  constructor
  · intro u v x y huv hx hy
    obtain ⟨_, hx⟩ | ⟨_, hx⟩ := update_eq_some hx
    · cases hx
    obtain ⟨_, hy⟩ | ⟨_, hy⟩ := update_eq_some hy
    · cases hy
    · exact hs.apart u v x y huv hx hy
  · intro u x hx
    obtain ⟨_, hx⟩ | ⟨_, hx⟩ := update_eq_some hx
    · cases hx
    · exact hs.safe u x hx
  · exact hs.rows

/-- A step of one transaction keeps the others safe and the committed rows within `I`. -/
theorem Service.Sound.step (hshared : ∀ t u : T, t ≠ u → shared)
    (hI : ∀ c a w, I w.rows → Post c a w → I w.view)
    (hprog : ∀ c, (service.world shared Post c).Yields (fun w => I w.rows ∧ w = .start w.rows)
      (service.prog c) (Post c))
    (hs : service.Sound shared Post I s) (h : service.Step s e s') :
    service.Sound shared Post I s' := by
  cases h with
  | start t c ht =>
    constructor
    · intro u v x y huv hx hy k
      obtain ⟨_, hx⟩ | ⟨_, hx⟩ := update_eq_some hx
      · cases hx
        exact .inl rfl
      · obtain ⟨_, hy⟩ | ⟨_, hy⟩ := update_eq_some hy
        · cases hy
          exact .inr rfl
        · exact hs.apart u v x y huv hx hy k
    · intro u x hx r w hrun a ha
      obtain ⟨_, hx⟩ | ⟨_, hx⟩ := update_eq_some hx
      · cases hx
        have hpost := hprog c ⟨hs.rows, rfl⟩ hrun
        rw [ha] at hpost
        exact hpost
      · exact hs.safe u x hx r w hrun a ha
    · exact hs.rows
  | @statement t c st next held log w ht a hadmitted hanswers hfree hok hw =>
    -- a row this transaction holds now was held before or is touched, and then free
    have hholds : ∀ u y, u ≠ t → s.tx u = some y → ∀ k, w.held k = none ∨ y.held k = none := by
      intro u y hu hy k
      rw [hw, Session.perform_held]
      cases htouch : st.touch service.schema (Session.mk s.rows held log).view a k with
      | none => exact hs.apart t u _ y (.symm hu) ht hy k
      | some r => exact .inr (hfree u y hu hy k (by rw [htouch]; exact some_ne_none r))
    constructor
    · intro u v x y huv hx hy k
      obtain ⟨hu, hx'⟩ | ⟨hu, hx'⟩ := update_eq_some hx
      · cases hx'
        obtain ⟨hv, _⟩ | ⟨hv, hy'⟩ := update_eq_some hy
        · exact absurd (hu.trans hv.symm) huv
        · exact hholds v y hv hy' k
      · obtain ⟨_, hy'⟩ | ⟨_, hy'⟩ := update_eq_some hy
        · cases hy'
          exact (hholds u x hu hx' k).symm
        · exact hs.apart u v x y huv hx' hy' k
    · intro u x hx r w' hrun
      obtain ⟨_, hx⟩ | ⟨_, hx⟩ := update_eq_some hx
      · cases hx
        have hexec : (service.world shared Post c).exec st ⟨s.rows, held, log⟩ a w :=
          ⟨hadmitted, hanswers, hok, hw⟩
        have hrows : w.rows = s.rows := by rw [hw]; rfl
        have hsession : w = ⟨s.rows, w.held, w.log⟩ := by rw [← hrows]
        rw [hsession] at hexec
        exact hs.safe t _ ht r w' (.step hexec hrun)
      · exact hs.safe u x hx r w' hrun
    · exact hs.rows
  | @commit t c a held log ht =>
    have hpost := hs.committed ht
    have hclosed := hs.close t
    constructor
    · exact hclosed.apart
    · intro u x hx r w hrun
      obtain ⟨_, hx'⟩ | ⟨hu, hx'⟩ := update_eq_some hx
      · cases hx'
      refine hs.safe u x hx' r w (.env ?_ hrun)
      exact ⟨hshared u t hu, rfl, rfl, c, a, ⟨s.rows, held, log⟩, hpost, rfl,
        hs.apart t u _ x (.symm hu) ht hx', rfl⟩
    · exact hI c a _ hs.rows hpost
  | rollback ht => exact hs.close _

/-- If every call, among others that do, commits only with `Post`, then every commit of a
server does. -/
theorem Service.Reaches.sound (hshared : ∀ t u : T, t ≠ u → shared) {initial : Rows R}
    (hinitial : I initial)
    (hI : ∀ c a w, I w.rows → Post c a w → I w.view)
    (hprog : ∀ c, (service.world shared Post c).Yields (fun w => I w.rows ∧ w = .start w.rows)
      (service.prog c) (Post c))
    (h : service.Reaches initial s) : service.Sound shared Post I s := by
  induction h with
  | init =>
    constructor
    · exact nofun
    · exact nofun
    · exact hinitial
  | step _ hstep ih => exact ih.step hshared hI hprog hstep

/-- The committed rows change only by a commit, and as the session that commits sees them. -/
theorem Service.Sound.step_rows (hs : service.Sound shared Post I s) (h : service.Step s e s') :
    (∃ c a w t, e = .commit c a ∧ s.tx t = some ⟨c, .done (.ok a), w.held, w.log⟩ ∧
      Post c a w ∧ w.rows = s.rows ∧ s'.rows = w.view) ∨
      (∀ c a, e ≠ .commit c a) ∧ s'.rows = s.rows := by
  cases h with
  | start t c ht | statement | rollback ht => exact .inr ⟨fun _ _ => nofun, rfl⟩
  | @commit t c a held log ht =>
    exact .inl ⟨c, a, ⟨s.rows, held, log⟩, t, rfl, ht, hs.committed ht, rfl, rfl⟩

end Guarantee

end Transactions

end Tarit.Lib
