import Monios.Model.Installer

/-!
# Privilege decisions and user memory

Two kernel states agree when they differ in the memory of the process at most. The level and the
checks of the system-call layer read the kernel's own copy and give the same answers in both
(`privilegeAnswer_level`, `privilegeAnswer_gated`).
-/

set_option autoImplicit false

namespace Monios.Analysis

open Monios.Model

def UserAddress (a : UInt64) : Prop := execUserAddressMin ≤ a ∧ a < execUserAddressMax

instance (a : UInt64) : Decidable (UserAddress a) := inferInstanceAs (Decidable (_ ∧ _))

structure AgreeOutsideUser (s t : LaunchState) : Prop where
  kernel : t.kernel = s.kernel
  launchInfo : t.launchInfo = s.launchInfo
  media : t.media = s.media
  memory : ∀ a, ¬ UserAddress a → t.memory a = s.memory a

def storeByte (s : LaunchState) (w : UInt64 × UInt8) : LaunchState :=
  { s with memory := Function.update s.memory w.1 w.2 }

def storeBytes (s : LaunchState) (stores : List (UInt64 × UInt8)) : LaunchState :=
  stores.foldl storeByte s

def PrivilegeIndependent (s : LaunchState) : Prop :=
  ∀ t, AgreeOutsideUser s t → ∀ d, privilegeAnswer t d = privilegeAnswer s d

def StoreIndependent (s : LaunchState) : Prop :=
  ∀ stores : List (UInt64 × UInt8), (∀ w ∈ stores, UserAddress w.1) →
    ∀ d, privilegeAnswer (storeBytes s stores) d = privilegeAnswer s d

/-- The decisions do not read the memory of the process: there is no launch block, or no
installation media. -/
def NoLaunchRead (s : LaunchState) : Prop :=
  execActive s.kernel = false ∨ s.launchInfo = 0 ∨ installerBootMediaPresent s.media = false

def AlwaysReturns {σ α : Type} (p : α → Prop) (x : StateM σ α) : Prop := ∀ b, p (x b).1

section

variable {σ α β : Type} {p : β → Prop}

theorem AlwaysReturns.pure {v : β} (h : p v) : AlwaysReturns p (pure v : StateM σ β) := fun _ => h

theorem AlwaysReturns.bind (x : StateM σ α) {f : α → StateM σ β} (h : ∀ a, AlwaysReturns p (f a)) :
    AlwaysReturns p (x >>= f) :=
  fun b => h (x b).1 (x b).2

theorem AlwaysReturns.ite {c : Prop} [Decidable c] {x y : StateM σ β} (hx : AlwaysReturns p x)
    (hy : AlwaysReturns p y) :
    AlwaysReturns p (if c then x else y) := by
  split
  · exact hx
  · exact hy

end

theorem execFillUserEnv_returns (args : LaunchArgs) (info : UInt64) :
    AlwaysReturns (fun a => a = 0 ∨ a = info) (execFillUserEnv args info) := by
  unfold execFillUserEnv
  refine AlwaysReturns.ite (.pure (Or.inr rfl)) (.bind _ fun _ => ?_)
  refine AlwaysReturns.ite (.pure (Or.inl rfl)) (.bind _ fun _ => ?_)
  exact AlwaysReturns.ite (.pure (Or.inl rfl)) (.bind _ fun _ => .bind _ fun _ => .pure (Or.inr rfl))

theorem execFillUserLaunchInfo_returns (args : LaunchArgs) (info userArgv : UInt64) :
    AlwaysReturns (fun a => a = 0 ∨ a = info) (execFillUserLaunchInfo args info userArgv) := by
  unfold execFillUserLaunchInfo
  -- the fields in front of the directory, and those with the three strings
  refine .bind _ fun _ => .bind _ fun _ => .bind _ fun _ => .bind _ fun _ => .bind _ fun _ =>
    .bind _ fun _ =>
    .bind _ fun _ => .bind _ fun _ => ?_
  refine .bind _ fun _ => .bind _ fun _ => .bind _ fun _ => .bind _ fun _ => .bind _ fun _ =>
    .bind _ fun _ => ?_
  refine .bind _ fun _ => .bind _ fun _ => .bind _ fun _ => ?_
  refine AlwaysReturns.ite (.pure (Or.inl rfl)) (.bind _ fun _ => ?_)
  exact AlwaysReturns.ite (.pure (Or.inl rfl)) (execFillUserEnv_returns args info)

theorem execBuildUserLaunchInfo_address (args : LaunchArgs) (m : Memory) :
    (execBuildUserLaunchInfo args m).1 = 0 ∨
      (execBuildUserLaunchInfo args m).1 = execUserDataBase := by
  have halloc : (execUserAlloc launchInfoSize 16 execUserDataLimit ⟨execUserDataBase, m⟩).1 =
      execUserDataBase := by
    simp only [execUserAlloc]
    rw [if_neg (by decide), if_neg (by decide)]
    exact (by decide : execUserDataBase + (16 - 1) &&& ~~~(16 - 1) = execUserDataBase)
  unfold execBuildUserLaunchInfo
  simp only [bind, StateT.bind]
  generalize execUserAlloc launchInfoSize 16 execUserDataLimit ⟨execUserDataBase, m⟩ = r at halloc ⊢
  obtain ⟨info, b⟩ := r
  obtain rfl : info = execUserDataBase := halloc
  refine (?_ : AlwaysReturns (fun a => a = 0 ∨ a = execUserDataBase) _) b
  refine AlwaysReturns.ite (.pure (Or.inl rfl)) (.ite (execFillUserLaunchInfo_returns args _ _) ?_)
  exact .bind _ fun _ => .ite (.pure (Or.inl rfl)) (execFillUserLaunchInfo_returns args _ _)

def launchStateOf (k : Kernel) (args : LaunchArgs) (m : Memory) (media : BootMedia) :
    LaunchState where
  kernel := k
  launchInfo := (execBuildUserLaunchInfo args m).1
  memory := (execBuildUserLaunchInfo args m).2
  media := media
  launchInfo_eq := execBuildUserLaunchInfo_address args m

variable {s t : LaunchState}

theorem privilegeAnswer_level (h : AgreeOutsideUser s t) :
    privilegeAnswer t .level = privilegeAnswer s .level := by
  simp only [privilegeAnswer, h.kernel]

theorem privilegeAnswer_gated (h : AgreeOutsideUser s t) (call : GatedCall) :
    privilegeAnswer t (.gated call) = privilegeAnswer s (.gated call) := by
  simp only [privilegeAnswer, h.kernel]

theorem installerPrivileged_eq_false (h : NoLaunchRead s) : installerPrivileged s = false := by
  unfold installerPrivileged execCurrentLaunchInfo
  rcases h with h | h | h
  · simp [h]
  · simp [h]
  · simp [h]

theorem NoLaunchRead.of_agree (hs : NoLaunchRead s) (h : AgreeOutsideUser s t) :
    NoLaunchRead t := by
  unfold NoLaunchRead
  rw [h.kernel, h.launchInfo, h.media]
  exact hs

theorem NoLaunchRead.independent (hs : NoLaunchRead s) : PrivilegeIndependent s := by
  intro t h d
  cases d with
  | installer =>
    simp only [privilegeAnswer]
    rw [installerPrivileged_eq_false hs, installerPrivileged_eq_false (hs.of_agree h)]
  | level => exact privilegeAnswer_level h
  | gated call => exact privilegeAnswer_gated h call

theorem AgreeOutsideUser.storeByte (h : AgreeOutsideUser s t) {w : UInt64 × UInt8}
    (hw : UserAddress w.1) :
    AgreeOutsideUser s (Analysis.storeByte t w) where
  kernel := h.kernel
  launchInfo := h.launchInfo
  media := h.media
  memory := by
    intro a ha
    have hne : a ≠ w.1 := fun heq => ha (heq ▸ hw)
    simp only [Analysis.storeByte, Function.update_of_ne hne]
    exact h.memory a ha

theorem AgreeOutsideUser.storeBytes {stores : List (UInt64 × UInt8)} (h : AgreeOutsideUser s t)
    (hstores : ∀ w ∈ stores, UserAddress w.1) :
    AgreeOutsideUser s (Analysis.storeBytes t stores) := by
  induction stores generalizing t with
  | nil => exact h
  | cons w stores ih =>
    exact ih (h.storeByte (hstores w List.mem_cons_self)) fun v hv => hstores v
      (List.mem_cons_of_mem _ hv)

theorem AgreeOutsideUser.refl (s : LaunchState) : AgreeOutsideUser s s :=
  ⟨rfl, rfl, rfl, fun _ _ => rfl⟩

theorem PrivilegeIndependent.storeIndependent (h : PrivilegeIndependent s) :
    StoreIndependent s := by
  intro stores hstores
  exact h _ ((AgreeOutsideUser.refl s).storeBytes hstores)

def storesAt (a : UInt64) : List UInt8 → List (UInt64 × UInt8)
  | [] => []
  | b :: bs => (a, b) :: storesAt (a + 1) bs

def forgeStores : List (UInt64 × UInt8) :=
  storesAt 0x043C0008 [0, 0, 0, 0] ++ storesAt 0x043C0038 [0, 1, 0x3C, 4, 0, 0, 0, 0] ++
    storesAt 0x043C0100 (setupPath ++ [0])

def dropStores : List (UInt64 × UInt8) := storesAt 0x043C0008 [3, 0, 0, 0]

theorem userAddress_forgeStores : ∀ w ∈ forgeStores, UserAddress w.1 := by
  have hall : (forgeStores.all fun w => decide (UserAddress w.1)) = true := by decide
  simpa using hall

theorem userAddress_dropStores : ∀ w ∈ dropStores, UserAddress w.1 := by
  have hall : (dropStores.all fun w => decide (UserAddress w.1)) = true := by decide
  simpa using hall

section

variable (k : Kernel) (m : Memory) (media : BootMedia)
  (hcases : execUserDataBase = 0 ∨ execUserDataBase = execUserDataBase)

theorem readMem32_forge :
    readMem32 (storeBytes ⟨k, execUserDataBase, m, media, hcases⟩ forgeStores).memory
      (execUserDataBase + 8) = 0 := by
  simp [storeBytes, forgeStores, storesAt, storeByte, execUserDataBase, setupPath, Function.update,
    readMem32]

theorem readMem64_forge :
    readMem64 (storeBytes ⟨k, execUserDataBase, m, media, hcases⟩ forgeStores).memory
      (execUserDataBase + 56) =
      0x043C0100 := by
  simp [storeBytes, forgeStores, storesAt, storeByte, execUserDataBase, setupPath, Function.update,
    readMem32,
    readMem64]
  decide

theorem strcasecmpAt_forge :
    strcasecmpAt (storeBytes ⟨k, execUserDataBase, m, media, hcases⟩ forgeStores).memory 0x043C0100 setupPath =
      true := by
  simp [storeBytes, forgeStores, storesAt, storeByte, setupPath, Function.update, strcasecmpAt]

end

section

variable (hactive : execActive s.kernel = true) (hinfo : s.launchInfo = execUserDataBase)
include hactive hinfo

theorem installerPrivileged_forge (hmedia : installerBootMediaPresent s.media = true) :
    installerPrivileged (storeBytes s forgeStores) = true := by
  obtain ⟨k, info, m, media, hcases⟩ := s
  simp only at hactive hinfo hmedia
  subst hinfo
  have hinfo : execCurrentLaunchInfo (storeBytes ⟨k, execUserDataBase, m, media, hcases⟩ forgeStores) =
      execUserDataBase := if_pos hactive
  have hmedia' : (storeBytes ⟨k, execUserDataBase, m, media, hcases⟩ forgeStores).media = media :=
    rfl
  have hlevel := readMem32_forge k m media hcases
  have hpath := readMem64_forge k m media hcases
  have htext := strcasecmpAt_forge k m media hcases
  unfold installerPrivileged
  simp only [hinfo, hmedia', hmedia, hlevel, hpath, htext]
  decide

theorem installerPrivileged_drop : installerPrivileged (storeBytes s dropStores) = false := by
  obtain ⟨k, info, m, media, hcases⟩ := s
  simp only at hactive hinfo
  subst hinfo
  have hinfo : execCurrentLaunchInfo (storeBytes ⟨k, execUserDataBase, m, media, hcases⟩ dropStores) =
      execUserDataBase := if_pos hactive
  have hlevel : readMem32 (storeBytes ⟨k, execUserDataBase, m, media, hcases⟩ dropStores).memory
      (execUserDataBase + 8) = 3 := by
    simp [storeBytes, dropStores, storesAt, storeByte, execUserDataBase, Function.update, readMem32]
  unfold installerPrivileged
  simp [hinfo, hlevel, execPrivR2]

theorem not_storeIndependent (hmedia : installerBootMediaPresent s.media = true) :
    ¬ StoreIndependent s := by
  intro h
  have hforge := h forgeStores userAddress_forgeStores .installer
  have hdrop := h dropStores userAddress_dropStores .installer
  simp only [privilegeAnswer, installerPrivileged_forge hactive hinfo hmedia,
    installerPrivileged_drop hactive hinfo] at hforge hdrop
  rw [← hdrop] at hforge
  simp at hforge

end

theorem StoreIndependent.noLaunchRead (h : StoreIndependent s) : NoLaunchRead s := by
  unfold NoLaunchRead
  rcases s.launchInfo_eq with hinfo | hinfo
  · exact Or.inr (Or.inl hinfo)
  · cases hactive : execActive s.kernel with
    | false => exact Or.inl rfl
    | true =>
      cases hmedia : installerBootMediaPresent s.media with
      | false => exact Or.inr (Or.inr rfl)
      | true => exact absurd h (not_storeIndependent hactive hinfo hmedia)

/-- The decisions are independent of the memory of the process, and of what the process stores
there, in exactly the states in which `installer_privileged` does not come to reading the launch
block. -/
theorem privilegeIndependent_iff (s : LaunchState) :
    (PrivilegeIndependent s ↔ NoLaunchRead s) ∧ (StoreIndependent s ↔ NoLaunchRead s) := by
  refine ⟨⟨fun h => h.storeIndependent.noLaunchRead, NoLaunchRead.independent⟩, ?_⟩
  exact ⟨StoreIndependent.noLaunchRead, fun h => h.independent.storeIndependent⟩

def appOnMedia : LaunchState :=
  launchStateOf
    { pcbs := fun _ => {}, pool := fun _ => false, nextPid := 1, currentPid := -1,
      context := some { privilegeLevel := execPrivR3 }, frames := [] }
    { argv := [], cwd := [0x43, 0x3A, 0x5C], programPath := [0x43, 0x3A, 0x5C, 0x41, 0x2E, 0x45, 0x58, 0x45], env := [],
      imageFlags := 0, privilegeLevel := execPrivR3, subsystem := 0, userName := [0x62, 0x6F, 0x62] }
    (fun _ => 0)
    { fileFlag := true, fileUefi := true, fileMbr := false, isoInit := false, isoFlag := false, isoUefi := false, isoMbr := false }

theorem not_privilegeIndependent_appOnMedia :
    installerPrivileged appOnMedia = false ∧
      installerPrivileged (storeBytes appOnMedia forgeStores) = true ∧
      ¬ PrivilegeIndependent appOnMedia ∧ ¬ StoreIndependent appOnMedia := by
  have hforge : installerPrivileged (storeBytes appOnMedia forgeStores) = true :=
    installerPrivileged_forge rfl rfl rfl
  have hstore : ¬ StoreIndependent appOnMedia := not_storeIndependent rfl rfl rfl
  exact ⟨by rfl, hforge, fun h => hstore h.storeIndependent, hstore⟩

end Monios.Analysis
