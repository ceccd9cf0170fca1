import Monios.Analysis.UserDatabase

/-!
# Account lockout

Histories of `user_authenticate`, `user_is_locked` and `user_admin_unlock` over a user table, with
the policy of the registry fixed and the ticks of `timer_ticks` as they come.
-/

set_option autoImplicit false

namespace Monios.Analysis.AccountLockout

open Monios.Model Monios.Model.UserMgmt

structure Policy where
  failMax : Option (List UInt8)
  lockSeconds : Option (List UInt8)
  hz : UInt32

def Policy.env (p : Policy) (ticks : UInt64) : LoginEnv := ⟨p.failMax, p.lockSeconds, ticks, p.hz⟩

def Policy.limit (p : Policy) : Nat := (registryNumber 5 p.failMax).toNat

def Policy.lockTicks (p : Policy) : Nat :=
  (if p.hz = 0 then 1 else p.hz).toNat * (registryNumber 900 p.lockSeconds).toNat

inductive LockCall
  | authenticate (name password : List UInt8)
  | isLocked (name : List UInt8)
  | adminUnlock (name : List UInt8)

def LockCall.name : LockCall → List UInt8
  | authenticate name _ => name
  | isLocked name => name
  | adminUnlock name => name

structure TimedCall where
  ticks : UInt64
  call : LockCall

def lockStep (p : Policy) (db : UserDb) (c : TimedCall) : Bool × UserDb :=
  match c.call with
  | .authenticate name password => userAuthenticate (p.env c.ticks) name password db
  | .isLocked name => userIsLocked c.ticks name db
  | .adminUnlock name => userAdminUnlock name db

def lockRun (p : Policy) (db : UserDb) (calls : List TimedCall) : UserDb :=
  calls.foldl (fun db c => (lockStep p db c).2) db

def bootDb (users : List UserEntry) : UserDb where
  users := users
  locks := List.replicate userMaxCount {}

def accountLock (name : List UInt8) (db : UserDb) : LockState :=
  match lockIndexByName name db with
  | none => {}
  | some i => db.locks.getD i {}

def IsHeld (ticks : UInt64) (lock : LockState) : Prop :=
  lock.lockUntilTick ≠ 0 ∧ ticks < lock.lockUntilTick

def IsExpired (ticks : UInt64) (lock : LockState) : Prop :=
  lock.lockUntilTick ≠ 0 ∧ lock.lockUntilTick ≤ ticks

instance (ticks : UInt64) (lock : LockState) : Decidable (IsHeld ticks lock) :=
  inferInstanceAs (Decidable (_ ∧ _))

instance (ticks : UInt64) (lock : LockState) : Decidable (IsExpired ticks lock) :=
  inferInstanceAs (Decidable (_ ∧ _))

def IsDisabled (e : UserEntry) : Prop := e.password.head? = some 0x21 ∨ e.password.head? = some 0x2A

instance (e : UserEntry) : Decidable (IsDisabled e) := inferInstanceAs (Decidable (_ ∨ _))

def ComparesWrong (e : UserEntry) (db : UserDb) (c : TimedCall) : Prop :=
  match c.call with
  | .authenticate name password =>
    name = e.username ∧ ¬ IsHeld c.ticks (accountLock name db) ∧ ¬ IsDisabled e ∧ e.password ≠ [] ∧ e.password ≠ password
  | _ => False

def Resets (p : Policy) (e : UserEntry) (db : UserDb) (c : TimedCall) : Prop :=
  c.call.name = e.username ∧
    match c.call with
    | .authenticate _ _ =>
      (lockStep p db c).1 = true ∨ IsExpired c.ticks (accountLock e.username db)
    | .isLocked _ => IsExpired c.ticks (accountLock e.username db)
    | .adminUnlock _ => True

instance (e : UserEntry) (db : UserDb) (c : TimedCall) : Decidable (ComparesWrong e db c) := by
  unfold ComparesWrong
  cases c.call <;> infer_instance

instance (p : Policy) (e : UserEntry) (db : UserDb) (c : TimedCall) :
    Decidable (Resets p e db c) := by
  unfold Resets
  cases c.call <;> infer_instance

def wrongSinceReset (p : Policy) (e : UserEntry) : UserDb → Nat → List TimedCall → Nat
  | _, n, [] => n
  | db, n, c :: calls =>
    wrongSinceReset p e (lockStep p db c).2
      ((if Resets p e db c then 0 else n) + if ComparesWrong e db c then 1 else 0) calls

def DeadlinesFit (p : Policy) (calls : List TimedCall) : Prop :=
  ∀ c ∈ calls, c.ticks.toNat + p.lockTicks < 2 ^ 64

/-- The law of the lockout for account `e`, over all histories from a fresh start whose ticks do not
decrease. -/
structure Lockout (p : Policy) (users : List UserEntry) (e : UserEntry) : Prop where
  bounded : ∀ calls, DeadlinesFit p calls → wrongSinceReset p e (bootDb users) 0 calls ≤ p.limit
  refused : ∀ before c after, DeadlinesFit p (before ++ [c]) → ComparesWrong e (lockRun p (bootDb users) before) c →
    wrongSinceReset p e (bootDb users) 0 (before ++ [c]) = p.limit →
    (∀ d ∈ after, d.call ≠ .adminUnlock e.username) →
    ∀ ticks, (∀ d ∈ after, d.ticks ≤ ticks) → ticks.toNat < c.ticks.toNat + p.lockTicks → ∀ password,
      (userAuthenticate (p.env ticks) e.username password (lockRun p (bootDb users) (before ++ c :: after))).1 = false ∧
        ¬ ComparesWrong e (lockRun p (bootDb users) (before ++ c :: after)) ⟨ticks, .authenticate e.username password⟩
  separate : ∀ calls, accountLock e.username (lockRun p (bootDb users) calls) =
    accountLock e.username (lockRun p (bootDb users) (calls.filter fun c => decide (c.call.name = e.username)))
  accepts : ∀ calls ticks password,
    ¬ IsHeld ticks (accountLock e.username (lockRun p (bootDb users) calls)) → ¬ IsDisabled e →
    ((userAuthenticate (p.env ticks) e.username password (lockRun p (bootDb users) calls)).1 = true ↔
      e.password = password ∨ e.password = [])

def failed (env : LoginEnv) (lock : LockState) : LockState :=
  let lock := { lock with failCount := lock.failCount + 1 }
  if lockFailMax env ≤ lock.failCount then
    let hz := if env.hz = 0 then 1 else env.hz
    { lock with lockUntilTick := env.ticks + hz.toUInt64 * (lockSeconds env).toUInt64 }
  else lock

def expire (ticks : UInt64) (lock : LockState) : LockState :=
  if IsExpired ticks lock then {} else lock

def lockAfter (p : Policy) (e : UserEntry) (c : TimedCall) (lock : LockState) : LockState :=
  match c.call with
  | .adminUnlock _ => {}
  | .isLocked _ => expire c.ticks lock
  | .authenticate _ password =>
    if IsHeld c.ticks lock then lock
    else if IsDisabled e then expire c.ticks lock
    else if e.password = [] ∨ e.password = password then {}
    else failed (p.env c.ticks) (expire c.ticks lock)

section

variable {p : Policy} {e : UserEntry} {db : UserDb} {i : Nat} {c : TimedCall} {lock : LockState}

structure Serves (e : UserEntry) (i : Nat) (db : UserDb) : Prop where
  named : e.username ≠ []
  found : userLookupByName e.username db.users = some e
  index : lockIndexByName e.username db = some i
  lock : i < db.locks.length

/-- The entry of the account is where it was after a change of some lock. -/
theorem Serves.setLock (h : Serves e i db) (j : Nat) (lock : LockState) :
    Serves e i (db.setLock j lock) :=
  ⟨h.named, h.found, h.index, by simpa [UserDb.setLock] using h.lock⟩

/-- The lock of the account is that of its entry. -/
theorem Serves.lock_eq (h : Serves e i db) : accountLock e.username db = db.locks.getD i {} := by
  unfold accountLock
  rw [h.index]

/-- A lock that is set is read back. -/
theorem Serves.lock_setLock (h : Serves e i db) (lock : LockState) :
    accountLock e.username (db.setLock i lock) = lock := by
  rw [(h.setLock i lock).lock_eq]
  simp [UserDb.setLock, List.getD_eq_getElem?_getD, h.lock]

/-- A lock of another entry leaves the account's lock alone. -/
theorem Serves.lock_setLock_of_ne (h : Serves e i db) {j : Nat} (hj : j ≠ i) (lock : LockState) :
    accountLock e.username (db.setLock j lock) = accountLock e.username db := by
  rw [(h.setLock j lock).lock_eq, h.lock_eq]
  simp [UserDb.setLock, List.getD_eq_getElem?_getD, List.getElem?_set_ne hj]

/-- `user_is_locked` answers from the account's lock, and takes it off when it has expired. -/
theorem Serves.isLocked_eq (h : Serves e i db) (ticks : UInt64) :
    userIsLocked ticks e.username db = (decide (IsHeld ticks (db.locks.getD i {})),
      if IsExpired ticks (db.locks.getD i {}) then db.setLock i {} else db) := by
  unfold userIsLocked IsHeld IsExpired
  rw [h.index]
  dsimp only
  generalize db.locks.getD i {} = lock
  by_cases hzero : lock.lockUntilTick = 0
  · simp [hzero]
  · by_cases hle : lock.lockUntilTick ≤ ticks
    · simp [hzero, hle]
    · simp [hzero, hle, UInt64.not_le.mp hle]

/-- A query takes an expired lock off and changes nothing else of the account. -/
theorem Serves.query (h : Serves e i db) (ticks : UInt64) :
    Serves e i (userIsLocked ticks e.username db).2 ∧
      accountLock e.username (userIsLocked ticks e.username db).2 =
      expire ticks (accountLock e.username db) := by
  rw [h.isLocked_eq, h.lock_eq]
  unfold expire
  dsimp only
  split
  · exact ⟨h.setLock i _, h.lock_setLock _⟩
  · exact ⟨h, h.lock_eq⟩

/-- Clearing the failures empties the account's lock. -/
theorem Serves.clear_eq (h : Serves e i db) : clearFailures e.username db = db.setLock i {} := by
  unfold clearFailures
  rw [h.index]

/-- Counting a failure changes the account's lock only. -/
theorem Serves.count_eq (h : Serves e i db) (env : LoginEnv) :
    countFailure env e.username db = db.setLock i (failed env (accountLock e.username db)) := by
  unfold countFailure failed
  rw [h.index, h.lock_eq]
  dsimp only
  split <;> rfl

/-- When a login succeeds, and what it makes of the account's lock. -/
theorem Serves.authenticate (h : Serves e i db) (ticks : UInt64) (name password : List UInt8) :
    ((userAuthenticate (p.env ticks) e.username password db).1 = true ↔
      ¬ IsHeld ticks (accountLock e.username db) ∧ ¬ IsDisabled e ∧
      (e.password = [] ∨ e.password = password)) ∧
    Serves e i (userAuthenticate (p.env ticks) e.username password db).2 ∧
    accountLock e.username (userAuthenticate (p.env ticks) e.username password db).2 =
      lockAfter p e ⟨ticks, .authenticate name password⟩ (accountLock e.username db) := by
  obtain ⟨hquery, hlock⟩ := h.query ticks
  have hheld : (userIsLocked ticks e.username db).1 =
      decide (IsHeld ticks (accountLock e.username db)) := by
    rw [h.isLocked_eq, h.lock_eq]
  have hexpire : IsHeld ticks (accountLock e.username db) →
      expire ticks (accountLock e.username db) = accountLock e.username db :=
    fun hh => if_neg fun hx => absurd hx.2 (UInt64.not_le.mpr hh.2)
  unfold userAuthenticate lockAfter
  rw [if_neg h.named, h.found]
  dsimp only [Policy.env] at hheld hlock hquery ⊢
  rw [hheld]
  by_cases hh : IsHeld ticks (accountLock e.username db)
  · simp [hh, hquery, hlock, hexpire hh]
  by_cases hd : e.password.head? = some 0x21 ∨ e.password.head? = some 0x2A
  · simp [hh, hd, IsDisabled, hquery, hlock]
  by_cases hempty : e.password = []
  · simp [hh, hempty, IsDisabled, hquery.clear_eq, hquery.setLock, hquery.lock_setLock]
  by_cases hp : e.password = password
  · subst hp
    simp [hh, hd, hempty, IsDisabled, hquery.clear_eq, hquery.setLock, hquery.lock_setLock]
  · simp [hh, hd, hempty, hp, IsDisabled, hquery.count_eq, hquery.setLock, hquery.lock_setLock,
      hlock]

def Kept (e : UserEntry) (i : Nat) (db db' : UserDb) : Prop :=
  Serves e i db' ∧ accountLock e.username db' = accountLock e.username db

variable {name : List UInt8} {n : Nat}

/-- A lock of another account leaves this one alone. -/
theorem Serves.kept_setLock (h : Serves e i db) (hne : name ≠ e.username) {j : Nat}
    (hj : lockIndexByName name db = some j) (lock : LockState) :
    Kept e i db (db.setLock j lock) := by
  refine ⟨h.setLock j lock, h.lock_setLock_of_ne ?_ lock⟩
  rintro rfl
  obtain ⟨hlt, hname, -⟩ := List.findIdx?_eq_some_iff_getElem.mp hj
  obtain ⟨hlt', hname', -⟩ := List.findIdx?_eq_some_iff_getElem.mp h.index
  exact hne ((of_decide_eq_true hname).symm.trans (of_decide_eq_true hname'))

/-- A query for another account leaves this one alone. -/
theorem Serves.kept_query (h : Serves e i db) (hne : name ≠ e.username) (ticks : UInt64) :
    Kept e i db (userIsLocked ticks name db).2 := by
  unfold userIsLocked
  cases hj : lockIndexByName name db with
  | none => exact ⟨h, rfl⟩
  | some j =>
    dsimp only
    split
    · exact ⟨h, rfl⟩
    split
    · exact h.kept_setLock hne hj _
    · exact ⟨h, rfl⟩

/-- Clearing the failures of another account leaves this one alone. -/
theorem Serves.kept_clearFailures (h : Serves e i db) (hne : name ≠ e.username) :
    Kept e i db (clearFailures name db) := by
  unfold clearFailures
  cases hj : lockIndexByName name db with
  | none => exact ⟨h, rfl⟩
  | some j => exact h.kept_setLock hne hj _

/-- A failure of another account leaves this one alone. -/
theorem Serves.kept_countFailure (h : Serves e i db) (hne : name ≠ e.username) (env : LoginEnv) :
    Kept e i db (countFailure env name db) := by
  unfold countFailure
  cases hj : lockIndexByName name db with
  | none => exact ⟨h, rfl⟩
  | some j =>
    dsimp only
    split <;> exact h.kept_setLock hne hj _

/-- A login of another account leaves this one alone. -/
theorem Serves.kept_authenticate (h : Serves e i db) (hne : name ≠ e.username) (env : LoginEnv)
    (password : List UInt8) : Kept e i db (userAuthenticate env name password db).2 := by
  obtain ⟨hquery, hlock⟩ := h.kept_query hne env.ticks
  unfold userAuthenticate
  split
  · exact ⟨h, rfl⟩
  split
  · exact ⟨h, rfl⟩
  · dsimp only
    split
    · exact ⟨hquery, hlock⟩
    split
    · exact ⟨hquery, hlock⟩
    split
    · exact (hquery.kept_clearFailures hne).imp id fun hk => hk.trans hlock
    split
    · exact (hquery.kept_countFailure hne env).imp id fun hk => hk.trans hlock
    · exact (hquery.kept_clearFailures hne).imp id fun hk => hk.trans hlock

/-- A call for another account leaves this one alone. -/
theorem Serves.other (h : Serves e i db) (hne : c.call.name ≠ e.username) :
    Kept e i db (lockStep p db c).2 := by
  unfold lockStep
  cases hcall : c.call with
  | authenticate name password =>
    rw [hcall] at hne
    exact h.kept_authenticate hne _ password
  | isLocked name =>
    rw [hcall] at hne
    exact h.kept_query hne _
  | adminUnlock name =>
    rw [hcall] at hne
    dsimp only
    unfold userAdminUnlock
    cases hj : lockIndexByName name db with
    | none => exact ⟨h, rfl⟩
    | some j => exact h.kept_setLock hne hj _

/-- A call for the account makes of its lock what `lockAfter` says. -/
theorem Serves.own (h : Serves e i db) (hname : c.call.name = e.username) :
    Serves e i (lockStep p db c).2 ∧ accountLock e.username (lockStep p db c).2 =
      lockAfter p e c (accountLock e.username db) := by
  obtain ⟨ticks, call⟩ := c
  unfold lockStep
  cases call with
  | authenticate name password =>
    have hname : name = e.username := hname
    subst hname
    exact (h.authenticate ticks _ password).2
  | isLocked name =>
    have hname : name = e.username := hname
    subst hname
    exact h.query ticks
  | adminUnlock name =>
    have hname : name = e.username := hname
    subst hname
    dsimp only [lockAfter]
    unfold userAdminUnlock
    rw [h.index]
    exact ⟨h.setLock i _, h.lock_setLock _⟩

/-- The entry of the account stays where it is. -/
theorem Serves.step (h : Serves e i db) (p : Policy) (c : TimedCall) :
    Serves e i (lockStep p db c).2 := by
  by_cases hname : c.call.name = e.username
  · exact (h.own hname).1
  · exact (h.other hname).1

/-- Every call makes of the account's lock what `lockAfter` says, or leaves it alone. -/
theorem Serves.cases (h : Serves e i db) (p : Policy) (c : TimedCall) :
    let lock := accountLock e.username db
    let lock' := accountLock e.username (lockStep p db c).2
    (¬ Resets p e db c ∧ ¬ ComparesWrong e db c ∧ lock' = lock) ∨
    (Resets p e db c ∧ ¬ ComparesWrong e db c ∧ lock' = {} ∧
      (c.call = .adminUnlock e.username ∨ ¬ IsHeld c.ticks lock)) ∨
    (ComparesWrong e db c ∧ (Resets p e db c ↔ IsExpired c.ticks lock) ∧ ¬ IsHeld c.ticks lock ∧
      lock' = failed (p.env c.ticks) (expire c.ticks lock)) := by
  dsimp only
  by_cases hname : c.call.name = e.username
  · obtain ⟨hserves, hlock⟩ := h.own (p := p) hname
    rw [hlock]
    obtain ⟨ticks, call⟩ := c
    have hexpired : IsExpired ticks (accountLock e.username db) →
        ¬ IsHeld ticks (accountLock e.username db) :=
      fun hx hh => absurd hx.2 (UInt64.not_le.mpr hh.2)
    cases call with
    | isLocked name =>
      have hname : name = e.username := hname
      subst hname
      by_cases hx : IsExpired ticks (accountLock e.username db)
      · simp [Resets, ComparesWrong, LockCall.name, lockAfter, expire, hx, hexpired hx]
      · simp [Resets, ComparesWrong, LockCall.name, lockAfter, expire, hx]
    | adminUnlock name =>
      have hname : name = e.username := hname
      subst hname
      simp [Resets, ComparesWrong, LockCall.name, lockAfter]
    | authenticate name password =>
      have hname : name = e.username := hname
      subst hname
      have hanswer := (h.authenticate (p := p) ticks e.username password).1
      by_cases hh : IsHeld ticks (accountLock e.username db)
      · have hx : ¬ IsExpired ticks (accountLock e.username db) := fun hx => hexpired hx hh
        simp [Resets, ComparesWrong, LockCall.name, lockAfter, lockStep, hanswer, hh, hx]
      by_cases hd : IsDisabled e
      · by_cases hx : IsExpired ticks (accountLock e.username db)
        · simp [Resets, ComparesWrong, LockCall.name, lockAfter, lockStep, hanswer, hh, hd, hx,
            expire]
        · simp [Resets, ComparesWrong, LockCall.name, lockAfter, lockStep, hanswer, hh, hd, hx,
            expire]
      by_cases hp : e.password = [] ∨ e.password = password
      · have hwrong : e.password = [] ∨ e.password = password := hp
        rw [← not_not (a := _ ∨ _), not_or] at hwrong
        simp [Resets, ComparesWrong, LockCall.name, lockAfter, lockStep, hanswer, hh, hd, hp,
          hwrong]
      · obtain ⟨h1, h2⟩ := not_or.mp hp
        simp [Resets, ComparesWrong, LockCall.name, lockAfter, lockStep, hanswer, hh, hd, h1, h2]
  · have hnot : ¬ ComparesWrong e db c := by
      unfold ComparesWrong
      cases hcall : c.call with
      | authenticate name password =>
        rw [hcall] at hname
        exact fun hw => hname hw.1
      | isLocked name => exact not_false
      | adminUnlock name => exact not_false
    exact .inl ⟨fun hr => hname hr.1, hnot, (h.other hname).2⟩

structure LockInv (p : Policy) (n : Nat) (lock : LockState) : Prop where
  count : lock.failCount.toNat = n
  le : n ≤ p.limit
  idle : lock.lockUntilTick = 0 → n < p.limit

/-- A setting of 0 is replaced by the default. -/
theorem registryNumber_pos {default : UInt32} (hd : default ≠ 0) (value : Option (List UInt8)) :
    0 < (registryNumber default value).toNat := by
  have hne : registryNumber default value ≠ 0 := by
    unfold registryNumber
    split
    · exact hd
    split
    · exact hd
    split
    · exact hd
    · assumption
  exact Nat.pos_of_ne_zero fun h => hne (UInt32.toNat_inj.mp h)

/-- The limit is positive. -/
theorem Policy.limit_pos (p : Policy) : 0 < p.limit := registryNumber_pos (by decide) _

/-- The time of a lock is positive. -/
theorem Policy.lockTicks_pos (p : Policy) : 0 < p.lockTicks := by
  refine Nat.mul_pos ?_ (registryNumber_pos (by decide) _)
  split
  · decide
  · exact Nat.pos_of_ne_zero fun h => ‹¬ p.hz = 0› (UInt32.toNat_inj.mp h)

/-- The empty lock counts no failures. -/
theorem lockInv_empty (p : Policy) : LockInv p 0 {} := ⟨rfl, Nat.zero_le _, fun _ => p.limit_pos⟩

/-- One failure more; the last one locks. -/
theorem LockInv.failed (h : LockInv p n lock) (hopen : lock.lockUntilTick = 0) (ticks : UInt64)
    (hfit : ticks.toNat + p.lockTicks < 2 ^ 64) :
    LockInv p (n + 1) (AccountLockout.failed (p.env ticks) lock) ∧ (n + 1 = p.limit →
      (AccountLockout.failed (p.env ticks) lock).lockUntilTick.toNat = ticks.toNat +
      p.lockTicks) := by
  have hlt := h.idle hopen
  have hlimit : p.limit < 2 ^ 32 := (registryNumber 5 p.failMax).toNat_lt
  have hcount : (lock.failCount + 1).toNat = n + 1 := by
    rw [UInt32.toNat_add, h.count]
    exact Nat.mod_eq_of_lt (by show n + 1 < 2 ^ 32; omega)
  have hle : lockFailMax (p.env ticks) ≤ lock.failCount + 1 ↔ p.limit ≤ n + 1 := by
    rw [UInt32.le_iff_toNat_le, hcount]
    rfl
  have huntil : (ticks + (if p.hz = 0 then 1 else p.hz).toUInt64 * (registryNumber 900 p.lockSeconds).toUInt64).toNat =
      ticks.toNat + p.lockTicks := by
    have hmul : (if p.hz = 0 then 1 else p.hz).toNat * (registryNumber 900 p.lockSeconds).toNat = p.lockTicks := rfl
    rw [UInt64.toNat_add, UInt64.toNat_mul, UInt32.toNat_toUInt64, UInt32.toNat_toUInt64, hmul,
      Nat.mod_eq_of_lt (show p.lockTicks < 2 ^ 64 by omega), Nat.mod_eq_of_lt hfit]
  unfold AccountLockout.failed
  dsimp only
  by_cases hlast : p.limit ≤ n + 1
  · rw [if_pos (hle.mpr hlast)]
    refine ⟨⟨hcount, by omega, fun hzero => ?_⟩, fun _ => huntil⟩
    have hpos := p.lockTicks_pos
    have hzero := (congrArg UInt64.toNat hzero).symm.trans huntil
    rw [UInt64.toNat_zero] at hzero
    omega
  · rw [if_neg fun hx => hlast (hle.mp hx)]
    exact ⟨⟨hcount, by omega, fun _ => by omega⟩, fun heq => by omega⟩

/-- A lock that has expired starts the count again. -/
theorem LockInv.expire (h : LockInv p n lock) {ticks : UInt64} (hheld : ¬ IsHeld ticks lock) :
    LockInv p (if IsExpired ticks lock then 0 else n) (AccountLockout.expire ticks lock) ∧
      (AccountLockout.expire ticks lock).lockUntilTick = 0 := by
  unfold AccountLockout.expire
  by_cases hx : IsExpired ticks lock
  · rw [if_pos hx, if_pos hx]
    exact ⟨lockInv_empty p, rfl⟩
  · rw [if_neg hx, if_neg hx]
    refine ⟨h, by_contra fun hne => ?_⟩
    rcases UInt64.le_total lock.lockUntilTick ticks with hle | hle
    · exact hx ⟨hne, hle⟩
    · exact hheld ⟨hne, UInt64.lt_of_le_of_ne hle fun heq => hx ⟨hne, heq ▸ UInt64.le_refl _⟩⟩

/-- Every call keeps the count of the failures since the last reset. -/
theorem LockInv.step (h : LockInv p n (accountLock e.username db)) (hserves : Serves e i db)
    (hfit : c.ticks.toNat + p.lockTicks < 2 ^ 64) :
    LockInv p ((if Resets p e db c then 0 else n) + if ComparesWrong e db c then 1 else 0)
      (accountLock e.username (lockStep p db c).2) := by
  rcases hserves.cases p c with ⟨hr, hw, hlock⟩ | ⟨hr, hw, hlock, -⟩ | ⟨hw, hr, hheld, hlock⟩
  · rw [hlock, if_neg hr, if_neg hw]
    exact h
  · rw [hlock, if_pos hr, if_neg hw]
    exact lockInv_empty p
  · obtain ⟨hinv, hopen⟩ := h.expire hheld
    rw [hlock, if_pos hw, if_congr hr rfl rfl]
    exact (hinv.failed hopen c.ticks hfit).1

/-- The lock counts the wrong passwords since the last reset, after every history. -/
theorem LockInv.run {calls : List TimedCall} (h : LockInv p n (accountLock e.username db))
    (hserves : Serves e i db) (hfit : DeadlinesFit p calls) :
    LockInv p (wrongSinceReset p e db n calls) (accountLock e.username (lockRun p db calls)) ∧
      Serves e i (lockRun p db calls) := by
  induction calls generalizing db n with
  | nil => exact ⟨h, hserves⟩
  | cons c calls ih =>
    exact ih (h.step hserves (hfit c List.mem_cons_self)) (hserves.step p c) fun d hd => hfit d
      (List.mem_cons_of_mem _ hd)

/-- The entry of the account stays where it is, after every history. -/
theorem Serves.run (h : Serves e i db) (p : Policy) (calls : List TimedCall) :
    Serves e i (lockRun p db calls) := by
  induction calls generalizing db with
  | nil => exact h
  | cons c calls ih => exact ih (h.step p c)

/-- One history after another. -/
theorem lockRun_append (p : Policy) (db : UserDb) (xs ys : List TimedCall) :
    lockRun p db (xs ++ ys) = lockRun p (lockRun p db xs) ys := List.foldl_append

/-- The count of one history after another. -/
theorem wrongSinceReset_append (p : Policy) (e : UserEntry) (db : UserDb) (n : Nat)
    (xs ys : List TimedCall) :
    wrongSinceReset p e db n (xs ++ ys) =
      wrongSinceReset p e (lockRun p db xs) (wrongSinceReset p e db n xs) ys := by
  induction xs generalizing db n with
  | nil => rfl
  | cons c xs ih => exact ih _ _

/-- A lock that holds is kept until it is taken off. -/
theorem Serves.run_held {calls : List TimedCall} (h : Serves e i db)
    (hheld : ∀ d ∈ calls, IsHeld d.ticks (accountLock e.username db))
    (hunlock : ∀ d ∈ calls, d.call ≠ .adminUnlock e.username) :
    accountLock e.username (lockRun p db calls) = accountLock e.username db := by
  induction calls generalizing db with
  | nil => rfl
  | cons c calls ih =>
    have hc := hheld c List.mem_cons_self
    have hsame : accountLock e.username (lockStep p db c).2 = accountLock e.username db := by
      rcases h.cases p c with ⟨-, -, hlock⟩ | ⟨-, -, -, hopen⟩ | ⟨-, -, hopen, -⟩
      · exact hlock
      · exact absurd hc (hopen.resolve_left (hunlock c List.mem_cons_self))
      · exact absurd hc hopen
    refine (ih (h.step p c) (fun d hd => ?_) fun d hd => hunlock d (List.mem_cons_of_mem _ hd)).trans hsame
    rw [hsame]
    exact hheld d (List.mem_cons_of_mem _ hd)

/-- Only the calls for an account matter to its lock. -/
theorem Serves.run_filter {other : UserDb} (h : Serves e i db) (ho : Serves e i other) (p : Policy)
    (calls : List TimedCall) (hlock : accountLock e.username db = accountLock e.username other) :
    accountLock e.username (lockRun p db calls) =
      accountLock e.username (lockRun p other (calls.filter fun c => decide (c.call.name = e.username))) := by
  induction calls generalizing db other with
  | nil => exact hlock
  | cons c calls ih =>
    by_cases hname : c.call.name = e.username
    · rw [List.filter_cons_of_pos (by simpa using hname)]
      exact ih (h.own hname).1 (ho.own hname).1 ((h.own hname).2.trans (hlock ▸ (ho.own hname).2.symm))
    · rw [List.filter_cons_of_neg (by simpa using hname)]
      exact ih (h.other hname).1 ho ((h.other hname).2.trans hlock)

end

/-- At boot every named account has its entry, with an empty lock. -/
theorem serves_bootDb {users : List UserEntry} {e : UserEntry}
    (hcount : users.length ≤ userMaxCount) (hnamed : e.username ≠ [])
    (hfound : userLookupByName e.username users = some e) :
    ∃ i, Serves e i (bootDb users) ∧ accountLock e.username (bootDb users) = {} := by
  cases hi : lockIndexByName e.username (bootDb users) with
  | none =>
    have hnone := List.findIdx?_eq_none_iff.mp hi e (List.mem_of_find?_eq_some hfound)
    simp at hnone
  | some i =>
    obtain ⟨hlt, -⟩ := List.findIdx?_eq_some_iff_getElem.mp hi
    have hserves : Serves e i (bootDb users) :=
      ⟨hnamed, hfound, hi, by simpa [bootDb] using Nat.lt_of_lt_of_le hlt hcount⟩
    refine ⟨i, hserves, ?_⟩
    rw [hserves.lock_eq]
    simp [bootDb, List.getD_eq_getElem?_getD, List.getElem?_replicate]
    split <;> rfl

/-- The lockout keeps its law for every account of every table. -/
theorem lockout_kept (p : Policy) {users : List UserEntry} {e : UserEntry}
    (hcount : users.length ≤ userMaxCount) (hnamed : e.username ≠ [])
    (hfound : userLookupByName e.username users = some e) : Lockout p users e := by
  obtain ⟨i, hboot, hempty⟩ := serves_bootDb hcount hnamed hfound
  have hstart : LockInv p 0 (accountLock e.username (bootDb users)) := hempty ▸ lockInv_empty p
  refine ⟨fun calls hfit => (hstart.run hboot hfit).1.le, ?_,
    fun calls => hboot.run_filter hboot p calls rfl, ?_⟩
  · intro before c after hfit hwrong hcounted hunlock ticks hticks hlt password
    have hbefore : DeadlinesFit p before := fun d hd => hfit d (List.mem_append_left _ hd)
    obtain ⟨hinv, hserves⟩ := hstart.run hboot hbefore
    have hfitc : c.ticks.toNat + p.lockTicks < 2 ^ 64 := hfit c (by simp)
    rw [wrongSinceReset_append] at hcounted
    have huntil : (accountLock e.username (lockStep p (lockRun p (bootDb users) before) c).2).lockUntilTick.toNat =
        c.ticks.toNat + p.lockTicks := by
      rcases hserves.cases p c with ⟨-, hw, -⟩ | ⟨-, hw, -⟩ | ⟨hw, hr, hheld, hlock⟩
      · exact absurd hwrong hw
      · exact absurd hwrong hw
      · obtain ⟨hinv', hopen⟩ := hinv.expire hheld
        rw [hlock]
        refine (hinv'.failed hopen c.ticks hfitc).2 ?_
        rw [← hcounted]
        show _ = (if Resets p e _ c then 0 else _) + if ComparesWrong e _ c then 1 else 0
        rw [if_pos hw, if_congr hr rfl rfl]
    have hheld : ∀ t : UInt64, t ≤ ticks →
        IsHeld t (accountLock e.username (lockStep p (lockRun p (bootDb users) before) c).2) := by
      intro t ht
      have ht := UInt64.le_iff_toNat_le.mp ht
      refine ⟨fun hzero => ?_, UInt64.lt_iff_toNat_lt.mpr (by omega)⟩
      rw [hzero, UInt64.toNat_zero] at huntil
      omega
    have hkept := (hserves.step p c).run_held (p := p) (fun d hd => hheld d.ticks (hticks d hd)) hunlock
    have hnow : IsHeld ticks (accountLock e.username (lockRun p (bootDb users) (before ++ c :: after))) := by
      rw [lockRun_append]
      exact hkept.symm ▸ hheld ticks (UInt64.le_refl _)
    have hanswer := ((hboot.run p (before ++ c :: after)).authenticate (p := p) ticks e.username password).1
    exact ⟨Bool.eq_false_iff.mpr fun htrue => (hanswer.mp htrue).1 hnow, fun hw => hw.2.1 hnow⟩
  · intro calls ticks password hopen henabled
    have hanswer := ((hboot.run p calls).authenticate (p := p) ticks e.username password).1
    rw [hanswer]
    constructor
    · exact fun hall => hall.2.2.symm
    · exact fun hp => ⟨hopen, henabled, hp.symm⟩

def guest : UserEntry := { uid := 1001, gid := 1001, username := guestName, password := [] }

/-- An account that can be locked. -/
def member : UserEntry := { uid := 1002, gid := 1002, username := [0x6D], password := [0x70, 0x77] }

def wrongCall : TimedCall := ⟨1, .authenticate [0x6D] [0x78]⟩

/-- After five wrong passwords in a row the right one is refused too. -/
theorem lockout_kept_member : Lockout ⟨none, none, 100⟩ [guest, member] member ∧
    (userAuthenticate (Policy.env ⟨none, none, 100⟩ 2) member.username member.password
      (lockRun ⟨none, none, 100⟩ (bootDb [guest, member]) (List.replicate 4 wrongCall ++
        [wrongCall]))).1 = false := by
  have hlockout : Lockout ⟨none, none, 100⟩ [guest, member] member :=
    lockout_kept _ (by decide) (by decide) (by decide)
  refine ⟨hlockout, ?_⟩
  have hrefused := hlockout.refused (List.replicate 4 wrongCall) wrongCall [] ?_ (by decide) (by decide) (by simp) 2
    (by simp) (by decide) member.password
  · exact hrefused.1
  · unfold DeadlinesFit
    decide

/-- An account with an empty password accepts any other. -/
theorem not_exactPassword : ¬ IsHeld 0 (accountLock guestName (bootDb defaultUsers)) ∧ ¬ IsDisabled guest ∧
    guest.password ≠ [0x78] ∧
    (userAuthenticate (Policy.env ⟨none, none, 100⟩ 0) guestName [0x78] (bootDb defaultUsers)).1 =
      true := by
  decide

end Monios.Analysis.AccountLockout
