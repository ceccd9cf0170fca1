import Monios.Model.UserMgmt
import Monios.Library.Run

/-!
# The lines of the user database

The parser of the database walks over its text byte by byte. What it reads is said here in terms of
the lines of the text: the accounts are those of the first 32 lines that have a name, and an account
has the fields of its line, cut to the room that the source has for them (`userLoadDatabase_eq`).
-/

set_option autoImplicit false

namespace Monios.Analysis.UserDatabase

open Monios.Model.UserMgmt

def databaseFields (p : List UInt8) : List (List UInt8) :=
  (p.takeWhile fun c => decide (c ≠ 0x0A ∧ c ≠ 0x0D)).splitOn 0x3A

def databaseField (k : Nat) (p : List UInt8) : List UInt8 := (databaseFields p).getD k []

def lineEntry (p : List UInt8) : UserEntry where
  uid := userAtoi ((databaseField 0 p).take 15) 0
  gid := userAtoi ((databaseField 1 p).take 15) 0
  username := (databaseField 2 p).take 31
  password := (databaseField 3 p).take 63

def databaseLines (file : List UInt8) : List (List UInt8) :=
  (((file.takeWhile (· ≠ 0)).splitOn 0x0A).filter fun line => decide (databaseField 2 line ≠ [])).take userMaxCount

section

variable {c : UInt8} {p : List UInt8} (k : Nat)

theorem databaseField_nil : databaseField k [] = [] := by
  unfold databaseField databaseFields
  cases k with
  | zero => rfl
  | succ k => rfl

/-- A field ends at the end of the line. -/
theorem databaseField_end (h : c = 0x0A ∨ c = 0x0D) : databaseField k (c :: p) = [] := by
  have htake : (c :: p).takeWhile (fun c => decide (c ≠ 0x0A ∧ c ≠ 0x0D)) = [] := by
    rw [List.takeWhile_cons_of_neg]
    rcases h with rfl | rfl
    all_goals decide
  unfold databaseField databaseFields
  rw [htake]
  exact databaseField_nil k

/-- A colon ends a field. -/
theorem databaseFields_colon : databaseFields (0x3A :: p) = [] :: databaseFields p := by
  unfold databaseFields
  rw [List.takeWhile_cons_of_pos (by decide)]
  unfold List.splitOn
  rw [List.splitOnP_cons_eq_if_modifyHead, if_pos (by decide)]

/-- Any other character belongs to the first field. -/
theorem databaseFields_cons (hcolon : c ≠ 0x3A) (hend : ¬ (c = 0x0A ∨ c = 0x0D)) :
    databaseFields (c :: p) = (databaseFields p).modifyHead (List.cons c) := by
  unfold databaseFields
  rw [List.takeWhile_cons_of_pos (by simpa using hend)]
  unfold List.splitOn
  rw [List.splitOnP_cons_eq_if_modifyHead, if_neg (by simpa using hcolon)]

theorem databaseFields_ne_nil (p : List UInt8) : databaseFields p ≠ [] := List.splitOnP_ne_nil _ _

theorem databaseField_cons_zero (hcolon : c ≠ 0x3A) (hend : ¬ (c = 0x0A ∨ c = 0x0D)) :
    databaseField 0 (c :: p) = c :: databaseField 0 p := by
  unfold databaseField
  rw [databaseFields_cons hcolon hend]
  cases hfields : databaseFields p with
  | nil => exact absurd hfields (databaseFields_ne_nil p)
  | cons field fields => rfl

theorem databaseField_cons_succ (hcolon : c ≠ 0x3A) (hend : ¬ (c = 0x0A ∨ c = 0x0D)) :
    databaseField (k + 1) (c :: p) = databaseField (k + 1) p := by
  unfold databaseField
  rw [databaseFields_cons hcolon hend]
  cases databaseFields p with
  | nil => rfl
  | cons field fields => rfl

/-- The fields of a line are not changed by what follows it. -/
theorem databaseField_line (p : List UInt8) :
    databaseField k (p.takeWhile fun c => decide (c ≠ 0x0A)) = databaseField k p := by
  unfold databaseField databaseFields
  congr 2
  induction p with
  | nil => rfl
  | cons c p ih =>
    by_cases hline : c = 0x0A
    · rw [List.takeWhile_cons_of_neg (by simp [hline]), List.takeWhile_cons_of_neg (by simp [hline])]
      rfl
    · rw [List.takeWhile_cons_of_pos (by simp [hline]), List.takeWhile_cons, List.takeWhile_cons,
        ih]

end

/-- `skip_field` copies a field cut to its buffer and goes on behind the colon. -/
theorem skipField_spec (dstSize : Nat) (p dst : List UInt8) :
    (skipField dstSize p dst).1 = dst ++ (databaseField 0 p).take (dstSize - 1 - dst.length) ∧
      (∀ k, databaseField k (skipField dstSize p dst).2 = databaseField (k + 1) p) ∧
      skipLine (skipField dstSize p dst).2 = skipLine p := by
  induction p generalizing dst with
  | nil =>
    refine ⟨?_, fun k => ?_, rfl⟩
    · rw [databaseField_nil]
      simp [skipField]
    · rw [databaseField_nil]
      exact databaseField_nil k
  | cons c p ih =>
    unfold skipField
    split
    · next hcolon =>
      cases hcolon
      refine ⟨?_, fun k => ?_, rfl⟩
      · unfold databaseField
        rw [databaseFields_colon]
        simp
      · unfold databaseField
        rw [databaseFields_colon]
        rfl
    split
    · next hend =>
      refine ⟨?_, fun k => ?_, rfl⟩
      · rw [databaseField_end 0 hend]
        simp
      · rw [databaseField_end k hend, databaseField_end (k + 1) hend]
    · next hcolon hend =>
      obtain ⟨hcopy, hfields, hline⟩ := ih (if dst.length + 1 < dstSize then dst ++ [c] else dst)
      have hskip : skipLine (c :: p) = skipLine p := if_neg fun h => hend (Or.inl h)
      refine ⟨?_, fun k => ?_, ?_⟩
      · rw [hcopy, databaseField_cons_zero hcolon hend]
        split
        · next hroom =>
          have hone : dstSize - 1 - dst.length = dstSize - 1 - (dst ++ [c]).length + 1 := by
            rw [List.length_append, List.length_singleton]
            omega
          rw [hone, List.take_succ_cons, List.append_assoc]
          rfl
        · next hroom =>
          have hzero : dstSize - 1 - dst.length = 0 := by omega
          rw [hzero, List.take_zero, List.take_zero]
      · rw [hfields, databaseField_cons_succ k hcolon hend]
      · rw [hline, hskip]

/-- The reader of an entry takes the fields of its line. -/
theorem readEntry_spec (p : List UInt8) :
    (readEntry p).1 = lineEntry p ∧ skipLine (readEntry p).2 = skipLine p := by
  obtain ⟨huid, hrest₁, hline₁⟩ := skipField_spec 16 p []
  obtain ⟨hgid, hrest₂, hline₂⟩ := skipField_spec 16 (skipField 16 p []).2 []
  unfold readEntry
  dsimp only
  generalize (skipField 16 p []).2 = p₁ at *
  obtain ⟨hname, hrest₃, hline₃⟩ := skipField_spec userNameMax (skipField 16 p₁ []).2 []
  generalize (skipField 16 p₁ []).2 = p₂ at *
  obtain ⟨hpass, -, hline₄⟩ := skipField_spec userPassMax (skipField userNameMax p₂ []).2 []
  generalize (skipField userNameMax p₂ []).2 = p₃ at *
  obtain ⟨-, -, hline₅⟩ := skipField_spec userHomeMax (skipField userPassMax p₃ []).2 []
  generalize (skipField userPassMax p₃ []).2 = p₄ at *
  obtain ⟨-, -, hline₆⟩ := skipField_spec userShellMax (skipField userHomeMax p₄ []).2 []
  refine ⟨?_, ?_⟩
  · rw [huid, hgid, hname, hpass, hrest₃, hrest₂, hrest₁, hrest₂, hrest₁, hrest₁]
    rfl
  · rw [hline₆, hline₅, hline₄, hline₃, hline₂, hline₁]

theorem length_skipLine_le (p : List UInt8) : (skipLine p).length ≤ p.length := by
  induction p with
  | nil => exact Nat.le_refl _
  | cons c p ih =>
    unfold skipLine
    rw [List.length_cons]
    split
    · exact Nat.le_succ _
    · exact Nat.le_succ_of_le ih

theorem length_skipLine_cons (c : UInt8) (p : List UInt8) :
    (skipLine (c :: p)).length ≤ p.length := by
  unfold skipLine
  split
  · exact Nat.le_refl _
  · exact length_skipLine_le p

/-- The lines of a file are its first line and those behind it. -/
theorem splitOn_line (p : List UInt8) :
    ∃ rest, p.splitOn 0x0A = (p.takeWhile fun c => decide (c ≠ 0x0A)) :: rest ∧
      (rest = (skipLine p).splitOn 0x0A ∨ rest = [] ∧ skipLine p = []) := by
  induction p with
  | nil => exact ⟨[], rfl, Or.inr ⟨rfl, rfl⟩⟩
  | cons c p ih =>
    unfold List.splitOn at ih ⊢
    rw [List.splitOnP_cons_eq_if_modifyHead]
    by_cases hline : c = 0x0A
    · refine ⟨_, ?_, Or.inl rfl⟩
      rw [if_pos (by simpa using hline), List.takeWhile_cons_of_neg (by simp [hline])]
      unfold skipLine
      rw [if_pos hline]
    · obtain ⟨rest, hsplit, hrest⟩ := ih
      refine ⟨rest, ?_, ?_⟩
      · rw [if_neg (by simpa using hline), List.takeWhile_cons_of_pos (by simp [hline]), hsplit]
        rfl
      · rw [skipLine, if_neg hline]
        exact hrest

def namedEntries (p : List UInt8) : List UserEntry :=
  ((p.splitOn 0x0A).filter fun line => decide (databaseField 2 line ≠ [])).map lineEntry

theorem namedEntries_nil : namedEntries [] = [] := by
  unfold namedEntries
  rw [List.splitOn_nil, List.filter_cons_of_neg (by simp [databaseField_nil])]
  rfl

/-- An entry depends on its line only. -/
theorem lineEntry_line (p : List UInt8) :
    lineEntry (p.takeWhile fun c => decide (c ≠ 0x0A)) = lineEntry p := by
  unfold lineEntry
  simp only [databaseField_line]

/-- An entry is kept when its user name is not empty. -/
theorem lineEntry_username_iff (p : List UInt8) :
    (lineEntry p).username ≠ [] ↔ databaseField 2 p ≠ [] := by
  unfold lineEntry
  simp [List.take_eq_nil_iff]

/-- The entries of a file are that of its first line and those behind it. -/
theorem namedEntries_eq (p : List UInt8) :
    namedEntries p = (if (lineEntry p).username ≠ [] then [lineEntry p] else []) ++
      namedEntries (skipLine p) := by
  obtain ⟨rest, hsplit, hrest⟩ := splitOn_line p
  have hbehind : namedEntries (skipLine p) = (rest.filter fun line => decide (databaseField 2 line ≠ [])).map lineEntry := by
    rcases hrest with rfl | ⟨rfl, hnil⟩
    · rfl
    · rw [hnil]
      exact namedEntries_nil
  rw [hbehind]
  unfold namedEntries
  rw [hsplit, List.filter_cons, databaseField_line]
  by_cases hname : databaseField 2 p = []
  · rw [if_neg (by simpa using hname), if_neg (by rw [lineEntry_username_iff]; simpa using hname)]
    rfl
  · rw [if_pos (by simpa using hname), if_pos ((lineEntry_username_iff p).mpr hname),
      List.map_cons, lineEntry_line]
    rfl

/-- The loop over the file appends its entries up to the limit. -/
theorem userLoadFrom_eq {rounds : Nat} {p : List UInt8} {users : List UserEntry}
    (hrounds : p.length ≤ rounds) (hroom : users.length ≤ userMaxCount) :
    userLoadFrom rounds p users = (users ++ namedEntries p).take userMaxCount := by
  induction rounds generalizing p users with
  | zero =>
    rw [List.eq_nil_of_length_eq_zero (Nat.le_zero.mp hrounds), namedEntries_nil, List.append_nil,
      List.take_of_length_le hroom]
    rfl
  | succ rounds ih =>
    cases p with
    | nil =>
      rw [namedEntries_nil, List.append_nil, List.take_of_length_le hroom]
      rfl
    | cons c p =>
      obtain ⟨hentry, hline⟩ := readEntry_spec (c :: p)
      unfold userLoadFrom
      dsimp only
      split
      · next hless =>
        have hskip := length_skipLine_cons c p
        rw [List.length_cons] at hrounds
        rw [hentry, hline, ih (by omega), namedEntries_eq (c :: p)]
        · split
          · rw [List.append_assoc]
          · rfl
        · split
          · rw [List.length_append]
            exact hless
          · exact hroom
      · next hfull =>
        have hlength : users.length = userMaxCount := by omega
        rw [← hlength, List.take_left' rfl]

/-- `user_load_database` keeps the entries of the file, or the built-in ones when there are none. -/
theorem userLoadDatabase_eq (file : List UInt8) : userLoadDatabase file =
      if databaseLines file = [] then defaultUsers else (databaseLines file).map lineEntry := by
  have htext : userLoadFrom (file.takeWhile (· ≠ 0)).length (file.takeWhile (· ≠ 0)) [] =
      (databaseLines file).map lineEntry := by
    rw [userLoadFrom_eq (Nat.le_refl _) (Nat.zero_le _), List.nil_append]
    unfold namedEntries databaseLines
    rw [List.map_take]
  unfold userLoadDatabase
  dsimp only
  rw [htext]
  simp only [List.map_eq_nil_iff]
  split
  · next hfile =>
    rw [hfile, if_pos]
    unfold databaseLines
    rw [List.takeWhile_nil, List.splitOn_nil, List.filter_cons_of_neg (by simp [databaseField_nil])]
    rfl
  · rfl

def accountLine (file name : List UInt8) : Option (List UInt8) :=
  (databaseLines file).find? fun line => (lineEntry line).username = name

/-- The account of a name is the first line with this name. -/
theorem userLookupByName_load (file name : List UInt8) :
    userLookupByName name (userLoadDatabase file) =
      if databaseLines file = [] then userLookupByName name defaultUsers
      else (accountLine file name).map lineEntry := by
  rw [userLoadDatabase_eq]
  split
  · rfl
  · unfold userLookupByName accountLine
    rw [List.find?_map]
    rfl

def decimalValue (s : List UInt8) : Nat := s.foldl (fun v c => v * 10 + (c.toNat - 0x30)) 0

def StatesUid (line : List UInt8) (uid : Nat) : Prop :=
  databaseField 0 line ≠ [] ∧ (databaseField 0 line).all isDigit = true ∧ decimalValue (databaseField 0 line) = uid

instance (line : List UInt8) (uid : Nat) : Decidable (StatesUid line uid) :=
  inferInstanceAs (Decidable (_ ∧ _))

def readUid (line : List UInt8) : Nat :=
  decimalValue (((databaseField 0 line).take 15).takeWhile isDigit) % 2 ^ 32

/-- A number may be cut to 32 bits at any digit. -/
theorem foldl_digits_mod (s : List UInt8) (v : Nat) :
    s.foldl (fun v c => v * 10 + (c.toNat - 0x30)) (v % 2 ^ 32) % 2 ^ 32 =
      s.foldl (fun v c => v * 10 + (c.toNat - 0x30)) v % 2 ^ 32 := by
  induction s generalizing v with
  | nil => exact Nat.mod_mod _ _
  | cons c s ih =>
    have hfirst : (v % 2 ^ 32 * 10 + (c.toNat - 0x30)) % 2 ^ 32 = (v * 10 + (c.toNat - 0x30)) % 2 ^ 32 := by omega
    rw [List.foldl_cons, List.foldl_cons, ← ih, hfirst, ih]

/-- `user_atoi` reads the leading digits modulo 2^32. -/
theorem userAtoi_toNat (s : List UInt8) (v : UInt32) :
    (userAtoi s v).toNat = (s.takeWhile isDigit).foldl (fun v c => v * 10 + (c.toNat - 0x30)) v.toNat % 2 ^ 32 := by
  induction s generalizing v with
  | nil => exact (Nat.mod_eq_of_lt v.toNat_lt).symm
  | cons c s ih =>
    unfold userAtoi
    split
    · next hdigit =>
      have hlow : (0x30 : UInt8) ≤ c := (of_decide_eq_true hdigit).1
      have hstep : (v * 10 + (c - 0x30).toUInt32).toNat = (v.toNat * 10 + (c.toNat - 0x30)) % 2 ^ 32 := by
        rw [UInt32.toNat_add, UInt32.toNat_mul, UInt8.toNat_toUInt32,
          UInt8.toNat_sub_of_le _ _ hlow]
        change (v.toNat * 10 % 2 ^ 32 + (c.toNat - 48)) % 2 ^ 32 = _
        omega
      rw [ih, hstep, foldl_digits_mod, List.takeWhile_cons_of_pos hdigit, List.foldl_cons]
    · next hdigit =>
      rw [List.takeWhile_cons_of_neg hdigit]
      exact (Nat.mod_eq_of_lt v.toNat_lt).symm

/-- The user id of a line. -/
theorem lineEntry_uid (line : List UInt8) : (lineEntry line).uid.toNat = readUid line :=
  userAtoi_toNat _ 0

end Monios.Analysis.UserDatabase

/-!
# Who becomes root

What is asked of a call (`RootSafe`): when the process that makes it is not root, no process is root
after it that was not before, unless the call has authenticated an account whose line states the
user 0. Four things go wrong.
-/

namespace Monios.Analysis.RootAccess

open Monios.Library Monios.Model Monios.Model.UserMgmt Monios.Analysis.UserDatabase

variable {file : List UInt8} {s s' : System} {k : Kernel} {i : Fin 64}

def AuthenticatesRoot (file : List UInt8) (s : System) : UserCall → Prop
  | .login env name password =>
    (userAuthenticate env name password s.db).1 = true ∧ ∃ line, accountLine file name = some line ∧ StatesUid line 0
  | .su env name password =>
    (userAuthenticate env name password s.db).1 = true ∧ ∃ line, accountLine file name = some line ∧ StatesUid line 0
  | _ => False

def NoNewRoot (file : List UInt8) (s : System) (call : UserCall) (kernel : Kernel) : Prop :=
  ∀ j, (kernel.pcbs j).used = true → (kernel.pcbs j).euid = 0 →
    ((s.kernel.pcbs j).used = true ∧ (s.kernel.pcbs j).euid = 0) ∨ AuthenticatesRoot file s call

def RootSafe (file : List UInt8) (s : System) (call : UserCall) : Prop :=
  ∀ s', userStep s call = some s' → ∀ i, pcbGetCurrent s.kernel = some i → (s.kernel.pcbs i).euid ≠ 0 →
    NoNewRoot file s call s'.kernel

def ReadRight (file : List UInt8) (env : LoginEnv) (name password : List UInt8) (db : UserDb) :
    Prop :=
  (userAuthenticate env name password db).1 = true →
    ∀ line, accountLine file name = some line → readUid line = 0 → StatesUid line 0

def Guarded (file : List UInt8) (s : System) (i : Fin 64) : UserCall → Prop
  | .setuid uid => ¬ (uid = 0 ∧ (s.kernel.pcbs i).uid = 0)
  | .login env name password => ReadRight file env name password s.db
  | .su env name password => ReadRight file env name password s.db
  | .logout => False
  | .fork _ vmOk stackOk =>
    vmOk = true → stackOk = true → (pcbClaimSlot s.kernel).map Prod.fst ≠ some i
  | _ => True

def RootGuarded (file : List UInt8) (s : System) (call : UserCall) : Prop :=
  ∀ i, pcbGetCurrent s.kernel = some i → (s.kernel.pcbs i).euid ≠ 0 → Guarded file s i call

/-- The current process is in use and found by its id. -/
theorem pcbGetCurrent_some (h : pcbGetCurrent k = some i) :
    (k.pcbs i).used = true ∧ pcbFindByPid k (k.pcbs i).pid = some i := by
  unfold pcbGetCurrent at h
  split at h
  · cases h
  · have hfound := List.find?_some h
    rw [Bool.and_eq_true, decide_eq_true_eq] at hfound
    refine ⟨hfound.1, ?_⟩
    rw [hfound.2]
    exact h

theorem setPcb_same (p : Pcb) : (k.setPcb i p).pcbs i = p := Function.update_self _ _ _

theorem setPcb_other {j : Fin 64} (hj : j ≠ i) (p : Pcb) : (k.setPcb i p).pcbs j = k.pcbs j :=
  Function.update_of_ne hj _ _

variable {call : UserCall}

/-- A call that changes one process makes a new root process only if this one is. -/
theorem noNewRoot_setPcb {p : Pcb} (heuid : (s.kernel.pcbs i).euid ≠ 0) (hused : p.used = true) :
    NoNewRoot file s call (s.kernel.setPcb i p) ↔ (p.euid = 0 → AuthenticatesRoot file s call) := by
  constructor
  · intro hsafe hzero
    have hself := hsafe i
    rw [setPcb_same] at hself
    exact (hself hused hzero).resolve_left fun h => heuid h.2
  · intro hroot j
    by_cases hj : j = i
    · rw [hj, setPcb_same]
      exact fun _ hzero => Or.inr (hroot hzero)
    · rw [setPcb_other hj]
      exact fun hused hzero => Or.inl ⟨hused, hzero⟩

/-- A call that changes no process makes no new root process. -/
theorem noNewRoot_same : NoNewRoot file s call s.kernel :=
  fun _ hused hzero => Or.inl ⟨hused, hzero⟩

/-- The credentials of the current process are set in its own entry. -/
theorem pcbSetCredentials_eq (h : pcbGetCurrent k = some i) (uid gid euid egid : Nat) :
    pcbSetCredentials (k.pcbs i).pid uid gid euid egid k =
      k.setPcb i { k.pcbs i with uid := uid, gid := gid, euid := euid, egid := egid } := by
  unfold pcbSetCredentials
  rw [(pcbGetCurrent_some h).2]

/-- `sys_setuid` makes a new root process when the real user id is 0. -/
theorem noNewRoot_sysSetuid (h : pcbGetCurrent s.kernel = some i)
    (heuid : (s.kernel.pcbs i).euid ≠ 0) (uid : UInt32) :
    NoNewRoot file s (.setuid uid) (sysSetuid uid s).2.kernel ↔
      ¬ (uid = 0 ∧ (s.kernel.pcbs i).uid = 0) := by
  have hzero : uid = 0 ↔ uid.toNat = 0 := UInt32.toNat_inj.symm
  unfold sysSetuid
  rw [h]
  dsimp only
  split
  · next hrefused =>
    refine iff_of_true noNewRoot_same fun hback => hrefused.2.1 ?_
    rw [hzero.mp hback.1, hback.2]
  · next htaken =>
    dsimp only
    refine (noNewRoot_setPcb heuid ?_).trans ?_
    · exact (pcbGetCurrent_some h).1
    change (uid.toNat = 0 → False) ↔ _
    rw [hzero]
    refine not_congr ⟨fun hroot => ⟨hroot, ?_⟩, fun hback => hback.1⟩
    by_contra hreal
    exact htaken ⟨heuid, hroot ▸ Ne.symm hreal, hroot ▸ Ne.symm heuid⟩

/-- `sys_setgid` never does, unless the session says so. -/
theorem noNewRoot_sysSetgid (h : pcbGetCurrent s.kernel = some i)
    (heuid : (s.kernel.pcbs i).euid ≠ 0) (gid : UInt32) :
    NoNewRoot file s (.setgid gid) (sysSetgid gid s).2.kernel := by
  unfold sysSetgid
  rw [h]
  dsimp only
  split
  · exact noNewRoot_same
  · refine (noNewRoot_setPcb heuid ?_).mpr fun hzero => absurd ?_ heuid
    · split <;> exact (pcbGetCurrent_some h).1
    · split at hzero <;> exact hzero

/-- Logging out sets all ids to 0. -/
theorem not_noNewRoot_userLogout (h : pcbGetCurrent s.kernel = some i)
    (heuid : (s.kernel.pcbs i).euid ≠ 0) :
    ¬ NoNewRoot file s .logout (userLogout s).kernel := by
  unfold userLogout
  rw [h]
  dsimp only
  rw [pcbSetCredentials_eq h, noNewRoot_setPcb heuid]
  · exact fun hsafe => hsafe rfl
  · exact (pcbGetCurrent_some h).1

theorem userIsLocked_users (ticks : UInt64) (name : List UInt8) (db : UserDb) :
    (userIsLocked ticks name db).2.users = db.users := by
  unfold userIsLocked
  split
  · rfl
  · dsimp only
    split
    · rfl
    · split <;> rfl

theorem clearFailures_users (name : List UInt8) (db : UserDb) :
    (clearFailures name db).users = db.users := by
  unfold clearFailures
  split <;> rfl

theorem countFailure_users (env : LoginEnv) (name : List UInt8) (db : UserDb) :
    (countFailure env name db).users = db.users := by
  unfold countFailure
  split
  · rfl
  · dsimp only
    split <;> rfl

/-- Authenticating changes no account. -/
theorem userAuthenticate_users (env : LoginEnv) (name password : List UInt8) (db : UserDb) :
    (userAuthenticate env name password db).2.users = db.users := by
  have hlocked := userIsLocked_users env.ticks name db
  unfold userAuthenticate
  split
  · rfl
  split
  · rfl
  · dsimp only
    split
    · exact hlocked
    split
    · exact hlocked
    split
    · rw [clearFailures_users, hlocked]
    split
    · rw [countFailure_users, hlocked]
    · rw [clearFailures_users, hlocked]

variable {name password : List UInt8}

/-- An account that is authenticated is not disabled. -/
theorem userAuthenticate_enabled {env : LoginEnv} {db : UserDb} {e : UserEntry}
    (h : (userAuthenticate env name password db).1 = true)
    (he : userLookupByName name db.users = some e) :
    e.password.head? ≠ some 0x21 := by
  intro hdisabled
  unfold userAuthenticate at h
  rw [he] at h
  dsimp only at h
  split at h
  · cases h
  split at h
  · cases h
  · rw [if_pos (Or.inl hdisabled)] at h
    cases h

/-- Every built-in account with user id 0 is disabled. -/
theorem defaultUsers_disabled {e : UserEntry} (he : e ∈ defaultUsers) (hroot : e.uid.toNat = 0) :
    e.password.head? = some 0x21 := by
  unfold defaultUsers at he
  simp only [List.mem_cons, List.not_mem_nil, or_false] at he
  rcases he with rfl | rfl | rfl
  · rfl
  · cases hroot
  · cases hroot

/-- An authenticated account is root if and only if its line says so. -/
theorem authenticated_root_iff {env : LoginEnv} {e : UserEntry}
    (hload : s.db.users = userLoadDatabase file)
    (h : (userAuthenticate env name password s.db).1 = true)
    (he : userLookupByName name s.db.users = some e) :
    e.uid.toNat = 0 ↔ ∃ line, accountLine file name = some line ∧ readUid line = 0 := by
  have henabled := userAuthenticate_enabled h he
  rw [hload, userLookupByName_load] at he
  split at he
  · next hnone =>
    refine iff_of_false (fun hroot => henabled (defaultUsers_disabled (List.mem_of_find?_eq_some he) hroot)) ?_
    rintro ⟨line, hline, -⟩
    unfold accountLine at hline
    rw [hnone] at hline
    cases hline
  · obtain ⟨line, hline, rfl⟩ := Option.map_eq_some_iff.mp he
    rw [lineEntry_uid]
    refine ⟨fun hread => ⟨line, hline, hread⟩, ?_⟩
    rintro ⟨line', hline', hread⟩
    rw [hline] at hline'
    exact Option.some.inj hline' ▸ hread

/-- The code's reading of the ids of an account is right if they do not wrap around. -/
theorem readRight_iff {env : LoginEnv} {e : UserEntry}
    (hload : s.db.users = userLoadDatabase file)
    (h : (userAuthenticate env name password s.db).1 = true)
    (he : userLookupByName name s.db.users = some e) :
    (e.uid.toNat = 0 → (userAuthenticate env name password s.db).1 = true ∧
      ∃ line, accountLine file name = some line ∧ StatesUid line 0) ↔
      ReadRight file env name password s.db := by
  rw [authenticated_root_iff hload h he]
  constructor
  · intro hsafe _ line hline hread
    obtain ⟨-, line', hline', hstates⟩ := hsafe ⟨line, hline, hread⟩
    rw [hline] at hline'
    exact Option.some.inj hline' ▸ hstates
  · rintro hright ⟨line, hline, hread⟩
    exact ⟨h, line, hline, hright h line hline hread⟩

/-- For a name without an account nothing is read. -/
theorem readRight_of_none {env : LoginEnv}
    (he : userLookupByName name s.db.users = none) : ReadRight file env name password s.db := by
  intro hauth
  unfold userAuthenticate at hauth
  rw [he] at hauth
  split at hauth
  · cases hauth
  · cases hauth

/-- Logging in makes a root process only of an account that authenticates as root. -/
theorem noNewRoot_userLogin (hload : s.db.users = userLoadDatabase file)
    (h : pcbGetCurrent s.kernel = some i) (heuid : (s.kernel.pcbs i).euid ≠ 0) (env : LoginEnv)
    (name password : List UInt8) :
    NoNewRoot file s (.login env name password) (userLogin env name password s).2.kernel ↔
      ReadRight file env name password s.db := by
  have husers := userAuthenticate_users env name password s.db
  unfold userLogin
  dsimp only
  by_cases hauth : (userAuthenticate env name password s.db).1 = true
  · rw [hauth, husers, if_neg (by decide)]
    cases he : userLookupByName name s.db.users with
    | none =>
      exact iff_of_true noNewRoot_same (readRight_of_none he)
    | some e =>
      rw [h]
      dsimp only
      rw [pcbSetCredentials_eq h, noNewRoot_setPcb heuid]
      · exact readRight_iff hload hauth he
      · exact (pcbGetCurrent_some h).1
  · rw [if_pos (by simpa using hauth)]
    exact iff_of_true noNewRoot_same fun hauth' => absurd hauth' hauth

/-- `user_su` does so too, when the account's ids are read right. -/
theorem noNewRoot_userSu (hload : s.db.users = userLoadDatabase file)
    (h : pcbGetCurrent s.kernel = some i) (heuid : (s.kernel.pcbs i).euid ≠ 0) (env : LoginEnv)
    (name password : List UInt8) :
    NoNewRoot file s (.su env name password) (userSu env name password s).2.kernel ↔
      ReadRight file env name password s.db := by
  unfold userSu
  cases he : userLookupByName name s.db.users with
  | none =>
    exact iff_of_true noNewRoot_same (readRight_of_none he)
  | some e =>
    rw [h]
    dsimp only
    rw [if_pos heuid]
    by_cases hauth : (userAuthenticate env name password s.db).1 = true
    · rw [if_neg (by simpa using hauth)]
      dsimp only
      rw [pcbSetCredentials_eq h, noNewRoot_setPcb heuid]
      · exact readRight_iff hload hauth he
      · exact (pcbGetCurrent_some h).1
    · rw [if_pos (by simpa using hauth)]
      exact iff_of_true noNewRoot_same fun hauth' => absurd hauth' hauth

theorem poolAllocSlot_pcbs {k' : Kernel} {c : Fin 64} (h : poolAllocSlot k = some (c, k')) :
    k'.pcbs = k.pcbs ∧ k.pool c = false := by
  unfold poolAllocSlot at h
  split at h
  · next hfree =>
    cases h
    exact ⟨rfl, by simpa using List.find?_some hfree⟩
  · cases h

theorem poolAllocSlot_full (h : poolAllocSlot k = none) (j : Fin 64) : k.pool j = true := by
  unfold poolAllocSlot at h
  split at h
  · cases h
  · next hfull => simpa using List.find?_eq_none.mp hfull j (List.mem_finRange j)

/-- Claiming a slot changes this slot only. -/
theorem pcbClaimSlot_pcbs {k' : Kernel} {c j : Fin 64} (h : pcbClaimSlot k = some (c, k'))
    (hj : j ≠ c) :
    k'.pcbs j = k.pcbs j := by
  unfold pcbClaimSlot at h
  split at h
  · next hfree =>
    cases h
    rw [(poolAllocSlot_pcbs hfree).1]
  · next hfull =>
    split at h
    · next reused _ =>
      obtain ⟨hpcbs, hclear⟩ := poolAllocSlot_pcbs h
      -- the only clear bit is that of the entry that has been wiped
      have hc : c = reused := by
        by_contra hne
        change Function.update k.pool reused false c = false at hclear
        rw [Function.update_of_ne hne, poolAllocSlot_full hfull c] at hclear
        cases hclear
      rw [hpcbs, setPcb_other (hc ▸ hj)]
    · cases h

/-- A child is put into the slot that was claimed, with the ids of its parent. -/
theorem pcbCreateChild_pcbs {k' : Kernel} {c : Fin 64} {parentPid : Int}
    (h : pcbCreateChild parentPid k = some (c, k')) :
    (pcbClaimSlot k).map Prod.fst = some c ∧ (k'.pcbs c).used = true ∧ (k'.pcbs c).euid = 0 ∧
      ∀ j, j ≠ c → k'.pcbs j = k.pcbs j := by
  unfold pcbCreateChild at h
  cases hclaim : pcbClaimSlot k with
  | none =>
    rw [hclaim] at h
    cases h
  | some claimed =>
    obtain ⟨c', k₁⟩ := claimed
    rw [hclaim] at h
    dsimp only at h
    obtain ⟨rfl, rfl⟩ := Prod.mk.inj (Option.some.inj h)
    refine ⟨rfl, ?_, ?_, fun j hj => ?_⟩
    · rw [setPcb_same]
      split <;> rfl
    · rw [setPcb_same]
      split <;> rfl
    · rw [setPcb_other hj, setPcb_other hj]
      exact (pcbClaimSlot_pcbs hclaim hj : k₁.pcbs j = k.pcbs j)

/-- A child is root only if its parent is. -/
theorem noNewRoot_sysFork (h : pcbGetCurrent s.kernel = some i) (heuid : (s.kernel.pcbs i).euid ≠ 0)
    (frame : SyscallFrame) (vmOk stackOk : Bool) :
    NoNewRoot file s (.fork frame vmOk stackOk) (sysFork frame vmOk stackOk s.kernel).2.2 ↔
      (vmOk = true → stackOk = true → (pcbClaimSlot s.kernel).map Prod.fst ≠ some i) := by
  unfold sysFork
  rw [h]
  dsimp only
  cases hcreate : pcbCreateChild (s.kernel.pcbs i).pid s.kernel with
  | none =>
    refine iff_of_true noNewRoot_same fun _ _ hclaim => ?_
    unfold pcbCreateChild at hcreate
    obtain ⟨claimed, hclaimed, -⟩ := Option.map_eq_some_iff.mp hclaim
    rw [hclaimed] at hcreate
    cases hcreate
  | some made =>
    obtain ⟨c, k⟩ := made
    obtain ⟨hclaim, hused, hzero, hothers⟩ := pcbCreateChild_pcbs hcreate
    -- an entry that is not in use is root for no one
    have hfailed {p : Pcb} (hp : p.used = false) : NoNewRoot file s (.fork frame vmOk stackOk) (k.setPcb c p) := by
      intro j
      by_cases hj : j = c
      · rw [hj, setPcb_same, hp]
        exact fun hfalse => absurd hfalse Bool.false_ne_true
      · rw [setPcb_other hj, hothers j hj]
        exact fun hused hzero => Or.inl ⟨hused, hzero⟩
    dsimp only
    cases vmOk with
    | false => exact iff_of_true (hfailed rfl) fun hvm => absurd hvm Bool.false_ne_true
    | true =>
      cases stackOk with
      | false => exact iff_of_true (hfailed rfl) fun _ hstack => absurd hstack Bool.false_ne_true
      | true =>
        rw [hclaim]
        simp only [Bool.not_true, Bool.false_eq_true, if_false, forall_true_left, ne_eq,
          Option.some.injEq]
        by_cases hown : c = i
        · refine iff_of_false (fun hsafe => ?_) fun hne => hne hown
          have hself := hsafe c
          rw [setPcb_same] at hself
          rcases hself hused (hown ▸ hzero) with hbefore | hnone
          · exact heuid (hown ▸ hbefore.2)
          · exact hnone
        · refine iff_of_true (fun j => ?_) hown
          by_cases hj : j = c
          · rw [hj, setPcb_same, hothers i (Ne.symm hown)]
            exact fun _ hroot => absurd hroot heuid
          · rw [setPcb_other hj, hothers j hj]
            exact fun hused hzero => Or.inl ⟨hused, hzero⟩

/-- A switch of the process changes no credentials. -/
theorem noNewRoot_goOn {k : Kernel} {pid : Int} (h : goOn pid s.kernel = some k) :
    NoNewRoot file s call k := by
  obtain ⟨j, -, rfl⟩ := Option.map_eq_some_iff.mp h
  intro l
  change ((s.kernel.setPcb j _).pcbs l).used = true → ((s.kernel.setPcb j _).pcbs l).euid = 0 → _
  by_cases hl : l = j
  · rw [hl, setPcb_same]
    exact fun hused hzero => Or.inl ⟨hused, hzero⟩
  · rw [setPcb_other hl]
    exact fun hused hzero => Or.inl ⟨hused, hzero⟩

/-- No call changes the accounts that were loaded. -/
theorem userStep_users (h : userStep s call = some s') : s'.db.users = s.db.users := by
  cases call with
  | setuid uid =>
    cases h
    unfold sysSetuid
    split
    · rfl
    · dsimp only
      split <;> rfl
  | setgid gid =>
    cases h
    unfold sysSetgid
    split
    · rfl
    · dsimp only
      split <;> rfl
  | login env name password =>
    cases h
    have husers := userAuthenticate_users env name password s.db
    unfold userLogin
    dsimp only
    split
    · exact husers
    split
    · exact husers
    split
    · exact husers
    · exact husers
  | su env name password =>
    cases h
    have husers := userAuthenticate_users env name password s.db
    unfold userSu
    split
    · rfl
    split
    · dsimp only
      split <;> split <;> first | exact husers | rfl
    · dsimp only
      split <;> split <;> first | exact husers | rfl
  | logout =>
    cases h
    unfold userLogout
    split <;> rfl
  | fork frame vmOk stackOk =>
    cases h
    rfl
  | goOn pid =>
    obtain ⟨kernel, -, rfl⟩ := Option.map_eq_some_iff.mp h
    rfl

/-- A step makes no unauthenticated root process if and only if its guard holds. -/
theorem rootSafe_iff (hload : s.db.users = userLoadDatabase file)
    (hstep : userStep s call = some s') :
    RootSafe file s call ↔ RootGuarded file s call := by
  have honly : RootSafe file s call ↔
      ∀ i, pcbGetCurrent s.kernel = some i → (s.kernel.pcbs i).euid ≠ 0 → NoNewRoot file s call s'.kernel := by
    unfold RootSafe
    rw [hstep]
    refine ⟨fun hsafe => hsafe s' rfl, ?_⟩
    rintro hsafe _ ⟨⟩
    exact hsafe
  rw [honly]
  refine forall_congr' fun i => forall_congr' fun h => forall_congr' fun heuid => ?_
  cases call with
  | setuid uid =>
    cases hstep
    exact noNewRoot_sysSetuid h heuid uid
  | setgid gid =>
    cases hstep
    exact iff_of_true (noNewRoot_sysSetgid h heuid gid) trivial
  | login env name password =>
    cases hstep
    exact noNewRoot_userLogin hload h heuid env name password
  | su env name password =>
    cases hstep
    exact noNewRoot_userSu hload h heuid env name password
  | logout =>
    cases hstep
    exact iff_of_false (not_noNewRoot_userLogout h heuid) id
  | fork frame vmOk stackOk =>
    cases hstep
    exact noNewRoot_sysFork h heuid frame vmOk stackOk
  | goOn pid =>
    obtain ⟨kernel, hgo, rfl⟩ := Option.map_eq_some_iff.mp hstep
    exact iff_of_true (noNewRoot_goOn hgo) trivial

def loadedSystem (file : List UInt8) (kernel : Kernel) (locks : List LockState)
    (sessionUid sessionGid : UInt32) : System where
  kernel := kernel
  db := { users := userLoadDatabase file, locks := locks, sessionUid := sessionUid, sessionGid := sessionGid }

/-- Whatever the database and the processes are, the calls of a run make no one root without
authentication exactly when they meet the condition. -/
theorem root_authenticated (file : List UInt8) (kernel : Kernel) (locks : List LockState)
    (sessionUid sessionGid : UInt32) (calls : List UserCall) (s : System) :
    RunWhile userStep (RootSafe file)
      (loadedSystem file kernel locks sessionUid sessionGid) calls s ↔
      RunWhile userStep (RootGuarded file)
        (loadedSystem file kernel locks sessionUid sessionGid) calls s := by
  refine RunWhile.congr (I := fun s => s.db.users = userLoadDatabase file) ?_ ?_ rfl
  · intro s call s' hload hstep
    rw [userStep_users hstep, hload]
  · intro s call s' hload hstep
    exact rootSafe_iff hload hstep

attribute [local instance] neZero_slots in
def rootKernel : Kernel where
  pcbs := fun i => if i = 0 then { used := true, pid := 1, state := .running } else {}
  pool := fun i => decide (i = 0)
  nextPid := 2
  currentPid := 1
  context := none
  frames := []

def quietEnv : LoginEnv := { failMax := none, lockSeconds := none, ticks := 0, hz := 100 }

/-- A user who becomes root by `su` stays so for `sys_setuid(0)`: the claim fails over runs. -/
theorem not_root_authenticated :
    ¬ ∀ (file : List UInt8) (kernel : Kernel) (locks : List LockState)
      (sessionUid sessionGid : UInt32)
      (calls : List UserCall) (s : System),
      Run userStep (loadedSystem file kernel locks sessionUid sessionGid) calls s →
        RunWhile userStep (RootSafe file)
          (loadedSystem file kernel locks sessionUid sessionGid) calls s := by
  intro hsafe
  -- 0:0:root:! and 5:5:guest:
  let file : List UInt8 := [0x30, 0x3A, 0x30, 0x3A] ++ rootName ++ [0x3A, 0x21, 0x0A] ++
    [0x35, 0x3A, 0x35, 0x3A] ++ guestName ++ [0x3A, 0x0A]
  let system := loadedSystem file rootKernel [] 0 0
  let guest := (userSu quietEnv guestName [] system).2
  have hrun : RunWhile userStep (RootSafe file) system ([.su quietEnv guestName []] ++ [.setuid 0]) (sysSetuid 0 guest).2 :=
    hsafe file rootKernel [] 0 0 _ _ (Run.cons rfl (Run.cons rfl (Run.nil _)))
  have hlast : RootSafe file guest (.setuid 0) := hrun.last rfl
  have hcurrent : pcbGetCurrent guest.kernel = some 0 := by decide +kernel
  have hguest : (guest.kernel.pcbs 0).euid = 5 := by decide
  have hback : ((sysSetuid 0 guest).2.kernel.pcbs 0).used = true ∧
      ((sysSetuid 0 guest).2.kernel.pcbs 0).euid = 0 := by
    decide
  have hnew := hlast _ rfl 0 hcurrent (by rw [hguest]; decide) 0 hback.1 hback.2
  rcases hnew with hbefore | hnone
  · rw [hguest] at hbefore
    cases hbefore.2
  · exact hnone

end Monios.Analysis.RootAccess
