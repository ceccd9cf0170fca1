import Monios.Model.DriverPackage

/-!
# Who runs in kernel mode

`exec_run_with_flags` enters an image in kernel mode only when the caller has said that it trusts
it, and the file is a package whose signature verifies with the stored key, whose payload has the
digest of the manifest, and which asks for R0. An image that needs R0 or R2 is not entered at a
weaker level (`enters_permitted`).
-/

set_option autoImplicit false

namespace Monios.Analysis.KernelEntry

open Monios.Library Monios.Model Monios.Model.Hash

variable {payload path : List UInt8} {scan : ResourceScan} {flags : UInt32} {opened : OpenedImage}

section

variable (a b m : UInt32)

theorem or_flag_iff : (a ||| b) &&& m ≠ 0 ↔ a &&& m ≠ 0 ∨ b &&& m ≠ 0 := by
  have hdistrib : (a ||| b) &&& m = a &&& m ||| b &&& m := by
    apply UInt32.toBitVec_inj.mp
    exact BitVec.and_or_distrib_right
  rw [hdistrib, ne_eq, UInt32.or_eq_zero_iff, not_and_or]

theorem ite_flag_iff {c : Prop} [Decidable c] :
    (if c then a ||| b else a) &&& m ≠ 0 ↔ a &&& m ≠ 0 ∨ (c ∧ b &&& m ≠ 0) := by
  split
  · next hc => simp only [or_flag_iff, hc, true_and]
  · next hc => simp only [hc, false_and, or_false]

end

theorem execFlagsForPreparedImage_iff {flags m : UInt32}
    (hconsole : execImageFlagConsole &&& m = 0) (hgui : execImageFlagGui &&& m = 0)
    (hrest : ~~~(execImageFlagConsole ||| execImageFlagGui) &&& m = m) :
    execFlagsForPreparedImage payload path scan flags &&& m ≠ 0 ↔ (flags &&& m ≠ 0 ∨
        (execPathIsDriverImage path = true ∧
          (execImageFlagDriver ||| execImageFlagNeedsR2 ||| execImageFlagConsole) &&& m ≠ 0)) ∨
      execPrivilegeFlagsForPath path &&& m ≠ 0 ∨
      (peCertificatePresent payload = true ∧ execImageFlagCertPresent &&& m ≠ 0) ∨
      (peResourcePresent payload = true ∧
        (execImageFlagResourceTable &&& m ≠ 0 ∨
          (scan.icon = true ∧ execImageFlagIconResource &&& m ≠ 0) ∨
          (scan.manifest = true ∧ execImageFlagManifestResource &&& m ≠ 0) ∨
          (scan.elevated = true ∧ execImageFlagNeedsR2 &&& m ≠ 0))) := by
  have hbase : flags &&& ~~~(execImageFlagConsole ||| execImageFlagGui) &&& m = flags &&& m := by
    rw [UInt32.and_assoc, hrest]
  unfold execFlagsForPreparedImage
  dsimp only
  have hsurface : (if execPathIsDriverImage path = true then
        flags &&& ~~~(execImageFlagConsole ||| execImageFlagGui) |||
          (execImageFlagDriver ||| execImageFlagNeedsR2 ||| execImageFlagConsole)
      else if peSubsystem payload = 2 then flags &&& ~~~(execImageFlagConsole ||| execImageFlagGui) ||| execImageFlagGui
      else flags &&& ~~~(execImageFlagConsole ||| execImageFlagGui) ||| execImageFlagConsole) &&& m ≠ 0 ↔
      flags &&& m ≠ 0 ∨ (execPathIsDriverImage path = true ∧
        (execImageFlagDriver ||| execImageFlagNeedsR2 ||| execImageFlagConsole) &&& m ≠ 0) := by
    split
    · next hdriver => rw [or_flag_iff, hbase, eq_true hdriver, true_and]
    · next hdriver =>
      rw [eq_false hdriver, false_and, or_false]
      split
      · simp only [or_flag_iff, hbase, hgui, ne_eq, not_true_eq_false, or_false]
      · simp only [or_flag_iff, hbase, hconsole, ne_eq, not_true_eq_false, or_false]
  generalize (if execPathIsDriverImage path = true then
        flags &&& ~~~(execImageFlagConsole ||| execImageFlagGui) |||
          (execImageFlagDriver ||| execImageFlagNeedsR2 ||| execImageFlagConsole)
      else if peSubsystem payload = 2 then flags &&& ~~~(execImageFlagConsole ||| execImageFlagGui) ||| execImageFlagGui
      else flags &&& ~~~(execImageFlagConsole ||| execImageFlagGui) ||| execImageFlagConsole) = surface at hsurface ⊢
  split
  · next hresource =>
    simp only [ite_flag_iff, or_flag_iff, hsurface, hresource, true_and, or_assoc]
  · next hresource =>
    simp only [ite_flag_iff, or_flag_iff, hsurface, hresource, Bool.false_eq_true, false_and,
      or_false, or_assoc]

theorem packageFlag_iff {flags m : UInt32}
    (hm : m = execImageFlagSigned ∨ m = execImageFlagNeedsR0) :
    execFlagsForPreparedImage payload path scan
      (flags ||| execDefaultFlagsForPath path) &&& m ≠ 0 ↔ flags &&& m ≠ 0 := by
  have hdefault : execDefaultFlagsForPath path &&& m = 0 := by
    unfold execDefaultFlagsForPath
    rcases hm with rfl | rfl <;> repeat' split
    all_goals decide
  have hprivilege : execPrivilegeFlagsForPath path &&& m = 0 := by
    unfold execPrivilegeFlagsForPath
    rcases hm with rfl | rfl <;> split
    all_goals decide
  have hflags : (flags ||| execDefaultFlagsForPath path) &&& m ≠ 0 ↔ flags &&& m ≠ 0 := by
    rw [or_flag_iff, hdefault]
    simp only [ne_eq, not_true_eq_false, or_false]
  have hothers : ([execImageFlagDriver ||| execImageFlagNeedsR2 ||| execImageFlagConsole, execImageFlagCertPresent,
      execImageFlagResourceTable, execImageFlagIconResource, execImageFlagManifestResource, execImageFlagNeedsR2].all
        fun c => c &&& m == 0) = true := by
    rcases hm with rfl | rfl <;> decide
  simp only [List.all_cons, Bool.and_eq_true, beq_iff_eq] at hothers
  obtain ⟨hdriver, hcert, htable, hicon, hmanifest, helevated, -⟩ := hothers
  have hconsole : execImageFlagConsole &&& m = 0 := by rcases hm with rfl | rfl <;> decide
  have hgui : execImageFlagGui &&& m = 0 := by rcases hm with rfl | rfl <;> decide
  have hrest : ~~~(execImageFlagConsole ||| execImageFlagGui) &&& m = m := by rcases hm with rfl | rfl <;> decide
  rw [execFlagsForPreparedImage_iff hconsole hgui hrest, hflags, hprivilege]
  simp only [hdriver, hcert, htable, hicon, hmanifest, helevated, ne_eq, not_true_eq_false,
    and_false, or_false]

theorem needsR2_flag
    (h : flags &&& execImageFlagNeedsR2 ≠ 0 ∨ execPathIsDriverImage path = true ∨
      execPathIsElevatedTool path = true ∨
      (peResourcePresent payload = true ∧ scan.elevated = true)) :
    execFlagsForPreparedImage payload path scan
    (flags ||| execDefaultFlagsForPath path) &&& execImageFlagNeedsR2 ≠ 0 := by
  rw [execFlagsForPreparedImage_iff (by decide) (by decide) (by decide)]
  rcases h with hflags | hdriver | htool | ⟨hresource, helevated⟩
  · exact Or.inl (Or.inl ((or_flag_iff _ _ _).mpr (Or.inl hflags)))
  · exact Or.inl (Or.inr ⟨hdriver, by decide⟩)
  · refine Or.inr (Or.inl ?_)
    unfold execPrivilegeFlagsForPath
    rw [htool, Bool.or_true, if_pos rfl]
    decide
  · exact Or.inr (Or.inr (Or.inr ⟨hresource, Or.inr (Or.inr (Or.inr ⟨helevated, by decide⟩))⟩))

def rzsPayload (image : List UInt8) : List UInt8 :=
  slice image (readRzsHeader image).headerSize (readRzsHeader image).imageSize

def rzsManifest (image : List UInt8) : List UInt8 :=
  let header := readRzsHeader image
  execBuildRzsManifest header.magic header.version header.headerSize header.imageSize header.imageFlags header.signatureSize
    header.imageSha256

def SignedManifest (key : RzsKey) (image : List UInt8) : Prop :=
  rsaVerifySignature (rsaPubkeyInit key.modulus key.exponent) (readRzsHeader image).signature (sha256 (rzsManifest image))
    .sha256 = true

structure TrustedDriver (key : RzsKey) (image : List UInt8) : Prop where
  magic : (readRzsHeader image).magic = rzsMagic
  version : (readRzsHeader image).version = rzsVersion
  inside : (readRzsHeader image).headerSize + (readRzsHeader image).imageSize ≤ image.length
  signature : SignedManifest key image
  digest : sha256 (rzsPayload image) = (readRzsHeader image).imageSha256
  needsR0 : (readRzsHeader image).imageFlags &&& execImageFlagNeedsR0 ≠ 0

theorem execVerifyRzsHeader_some {key : RzsKey} {image payload : List UInt8}
    (h : execVerifyRzsHeader key image = some (payload, flags)) :
    (readRzsHeader image).magic = rzsMagic ∧ (readRzsHeader image).version = rzsVersion ∧
      (readRzsHeader image).headerSize + (readRzsHeader image).imageSize ≤ image.length ∧
      payload = rzsPayload image ∧
      sha256 (rzsPayload image) = (readRzsHeader image).imageSha256 ∧
      ((SignedManifest key image ∧
        flags = (readRzsHeader image).imageFlags &&& rzsFlagMask ||| execImageFlagSigned) ∨
        ((readRzsHeader image).imageFlags &&& execImageFlagNeedsR0 = 0 ∧
          flags = (readRzsHeader image).imageFlags &&& rzsFlagMask)) := by
  unfold execVerifyRzsHeader at h
  dsimp only at h
  split at h
  · cases h
  split at h
  · cases h
  next hmagic =>
  split at h
  · cases h
  next hversion =>
  split at h
  · cases h
  next hsizes =>
  split at h
  · cases h
  next hdigest =>
  have hmagic := of_not_not hmagic
  have hversion := of_not_not fun hne => hversion (Or.inl hne)
  have hdigest : sha256 (rzsPayload image) = (readRzsHeader image).imageSha256 := of_not_not hdigest
  have hinside : (readRzsHeader image).headerSize + (readRzsHeader image).imageSize ≤
      image.length := by
    simp only [not_or] at hsizes
    omega
  split at h
  · split at h
    · next hsigned =>
      obtain ⟨rfl, rfl⟩ := Prod.mk.inj (Option.some.inj h)
      refine ⟨hmagic, hversion, hinside, rfl, hdigest, Or.inl ⟨?_, rfl⟩⟩
      unfold SignedManifest rzsManifest
      dsimp only
      rw [← hdigest]
      exact hsigned
    · cases h
  · split at h
    · cases h
    · next hlow =>
      obtain ⟨rfl, rfl⟩ := Prod.mk.inj (Option.some.inj h)
      exact ⟨hmagic, hversion, hinside, rfl, hdigest, Or.inr ⟨of_not_not hlow, rfl⟩⟩

theorem mask_flag_iff {flags m : UInt32} (hm : rzsFlagMask &&& m = m) :
    flags &&& rzsFlagMask &&& m ≠ 0 ↔ flags &&& m ≠ 0 := by
  rw [UInt32.and_assoc, hm]

def imageFile (env : ExecEnv) (path : List UInt8) : List UInt8 :=
  env.files.read path (env.files.size path).toNat

def IsPackage (path : List UInt8) : Prop := execPathHasSuffix path (ascii ".rzs") = true

instance (path : List UInt8) : Decidable (IsPackage path) := inferInstanceAs (Decidable (_ = true))

def imagePayload (path image : List UInt8) : List UInt8 :=
  if IsPackage path then rzsPayload image else image

def NeedsR0 (path image : List UInt8) : Prop :=
  IsPackage path ∧ (readRzsHeader image).imageFlags &&& execImageFlagNeedsR0 ≠ 0

/-- The image needs R2: its package or its manifest asks for it, or its name stands for a driver or
an elevated tool. -/
def NeedsR2 (env : ExecEnv) (path image : List UInt8) : Prop :=
  (IsPackage path ∧ (readRzsHeader image).imageFlags &&& execImageFlagNeedsR2 ≠ 0) ∨
    execPathIsDriverImage path = true ∨ execPathIsElevatedTool path = true ∨
    (peResourcePresent (imagePayload path image) = true ∧
      ∃ scan, env.scanPeResources (imagePayload path image) = some scan ∧ scan.elevated = true)

/-- What an entry has to meet: kernel mode is for trusted drivers that the caller trusts, and no
image gets less than it needs. -/
def Permitted (key : RzsKey) (env : ExecEnv) (call : ExecCall) (driver : Bool) (entry : Nat)
    (w : ExecWorld) : Prop :=
  ∃ path context, pathResolve call.cwd call.path pathMaxLen = some path ∧ w.context = some context ∧
    (driver = true ↔ context.privilegeLevel = execPrivR0) ∧
    (driver = true → call.runFlags &&& execRunFlagTrustedR0 ≠ 0 ∧ IsPackage path ∧
      TrustedDriver key (imageFile env path) ∧ entry = peEntry (rzsPayload (imageFile env path))) ∧
    (NeedsR0 path (imageFile env path) → context.privilegeLevel = execPrivR0) ∧
    (NeedsR2 env path (imageFile env path) → context.privilegeLevel ≤ execPrivR2)

def EntersOnly (env : ExecEnv) (call : ExecCall) (w : ExecWorld)
    (permitted : Bool → Nat → ExecWorld → Prop) : Prop :=
  ∀ enter : Bool → Nat → UInt64 → ExecWorld → ExecWorld × ChildEnd,
    (∀ driver entry info w, permitted driver entry w → enter driver entry info w = env.enter driver entry info w) →
    execRunWithFlags { env with enter := enter } call w = execRunWithFlags env call w

section

variable {key : RzsKey} {env : ExecEnv} {call : ExecCall}

theorem execPrepareImage_some {path image payload : List UInt8}
    (h : execPrepareImage (rzsEnv key env) path image = some (payload, flags)) :
    payload = imagePayload path image ∧ ∃ base, flags = base ||| execDefaultFlagsForPath path ∧
      (base &&& execImageFlagSigned ≠ 0 → base &&& execImageFlagNeedsR0 ≠ 0 → IsPackage path ∧
        TrustedDriver key image) ∧
      (NeedsR0 path image → base &&& execImageFlagNeedsR0 ≠ 0) ∧
      (IsPackage path → (readRzsHeader image).imageFlags &&& execImageFlagNeedsR2 ≠ 0 →
        base &&& execImageFlagNeedsR2 ≠ 0) := by
  unfold execPrepareImage at h
  dsimp only at h
  by_cases hpackage : IsPackage path
  · have hsuffix : execPathHasSuffix path (ascii ".rzs") = true := hpackage
    rw [if_pos hsuffix] at h
    split at h
    · cases h
    next payload' base hverify =>
    split at h
    · cases h
    obtain ⟨rfl, rfl⟩ := Prod.mk.inj (Option.some.inj h)
    obtain ⟨hmagic, hversion, hinside, hpayload, hdigest, hflags⟩ :=
      execVerifyRzsHeader_some hverify
    have hR0 : base &&& execImageFlagNeedsR0 ≠ 0 ↔
        (readRzsHeader image).imageFlags &&& execImageFlagNeedsR0 ≠ 0 := by
      rcases hflags with ⟨-, rfl⟩ | ⟨-, rfl⟩
      · rw [or_flag_iff, mask_flag_iff (by decide)]
        exact or_iff_left (by decide)
      · exact mask_flag_iff (by decide)
    have hR2 : (readRzsHeader image).imageFlags &&& execImageFlagNeedsR2 ≠ 0 →
        base &&& execImageFlagNeedsR2 ≠ 0 := by
      intro hneeds
      rcases hflags with ⟨-, rfl⟩ | ⟨-, rfl⟩
      · exact (or_flag_iff _ _ _).mpr (Or.inl ((mask_flag_iff (by decide)).mpr hneeds))
      · exact (mask_flag_iff (by decide)).mpr hneeds
    refine ⟨?_, base, rfl, fun hsigned hneeds => ⟨hpackage, ?_⟩, fun hneeds => hR0.mpr hneeds.2,
      fun _ => hR2⟩
    · rw [hpayload, imagePayload, if_pos hpackage]
    · rcases hflags with ⟨hsignature, -⟩ | ⟨hlow, rfl⟩
      · exact ⟨hmagic, hversion, hinside, hsignature, hdigest, hR0.mp hneeds⟩
      · exact absurd hlow (hR0.mp hneeds)
  · have hsuffix : ¬ execPathHasSuffix path (ascii ".rzs") = true := hpackage
    rw [if_neg hsuffix] at h
    dsimp only at h
    split at h
    · cases h
    obtain ⟨rfl, rfl⟩ := Prod.mk.inj (Option.some.inj h)
    refine ⟨?_, 0, rfl, fun hsigned => absurd hsigned (by decide),
      fun hneeds => absurd hneeds.1 hpackage,
      fun hneeds => absurd hneeds hpackage⟩
    rw [imagePayload, if_neg hpackage]

theorem execValidatePreparedImage_scan {payload : List UInt8} {scan scan' : ResourceScan}
    (h : execValidatePreparedImage env payload = some scan)
    (hresource : peResourcePresent payload = true)
    (hscan : env.scanPeResources payload = some scan') : scan = scan' := by
  unfold execValidatePreparedImage at h
  split at h
  · cases h
  · rw [hscan] at h
    exact (Option.some.inj h).symm

structure OpenedFrom (key : RzsKey) (env : ExecEnv) (call : ExecCall) (opened : OpenedImage) : Prop where
  resolved : pathResolve call.cwd call.path pathMaxLen = some opened.resolved
  payload : opened.payload = imagePayload opened.resolved (imageFile env opened.resolved)
  trusted : opened.imageFlags &&& execImageFlagSigned ≠ 0 → opened.imageFlags &&& execImageFlagNeedsR0 ≠ 0 →
    IsPackage opened.resolved ∧ TrustedDriver key (imageFile env opened.resolved)
  needsR0 : NeedsR0 opened.resolved (imageFile env opened.resolved) → opened.imageFlags &&& execImageFlagNeedsR0 ≠ 0
  needsR2 : NeedsR2 env opened.resolved (imageFile env opened.resolved) → opened.imageFlags &&& execImageFlagNeedsR2 ≠ 0

theorem openedFrom {w w' : ExecWorld}
    (h : execOpenImage (rzsEnv key env) call w = (some opened, w')) :
    OpenedFrom key env call opened := by
  unfold execOpenImage at h
  split at h
  · cases h
  next resolved hresolved =>
  split at h
  · cases h
  split at h
  · cases h
  dsimp only at h
  split at h
  · cases h
  split at h
  · cases h
  split at h
  · cases h
  next payload flags scan hprepared =>
  split at h
  · cases h
  obtain ⟨hopened, -⟩ := Prod.mk.inj h
  obtain rfl := Option.some.inj hopened
  obtain ⟨⟨payload', flags'⟩, hprepare, hvalid⟩ := Option.bind_eq_some_iff.mp hprepared
  obtain ⟨scan', hvalidate, heq⟩ := Option.map_eq_some_iff.mp hvalid
  cases heq
  obtain ⟨hpayload, base, rfl, htrusted, hR0, hR2⟩ := execPrepareImage_some hprepare
  replace hpayload : payload = imagePayload resolved (imageFile env resolved) := hpayload
  refine ⟨hresolved, hpayload, fun hsigned hneeds => ?_, fun hneeds => ?_, fun hneeds => ?_⟩
  · exact htrusted ((packageFlag_iff (Or.inl rfl)).mp hsigned)
      ((packageFlag_iff (Or.inr rfl)).mp hneeds)
  · exact (packageFlag_iff (Or.inr rfl)).mpr (hR0 hneeds)
  · apply needsR2_flag
    rcases hneeds with ⟨hpackage, hflag⟩ | hdriver | htool | ⟨hresource, scan', hscan, helevated⟩
    · exact Or.inl (hR2 hpackage hflag)
    · exact Or.inr (Or.inl hdriver)
    · exact Or.inr (Or.inr (Or.inl htool))
    · dsimp only at hresource hscan
      rw [← hpayload] at hresource hscan
      refine Or.inr (Or.inr (Or.inr ⟨hresource, ?_⟩))
      rw [execValidatePreparedImage_scan hvalidate hresource hscan]
      exact helevated

theorem execRunPrivilegeLevel_iff (runFlags imageFlags : UInt32) :
    execRunAsR0Driver runFlags imageFlags = true ↔
      execRunPrivilegeLevel runFlags imageFlags = execPrivR0 := by
  unfold execRunPrivilegeLevel
  split
  · next hdriver => exact iff_of_true hdriver rfl
  · next hdriver =>
    refine iff_of_false hdriver ?_
    split <;> decide

theorem execRunAsR0Driver_iff (runFlags imageFlags : UInt32) :
    execRunAsR0Driver runFlags imageFlags = true ↔
      imageFlags &&& execImageFlagDriver ≠ 0 ∧ imageFlags &&& execImageFlagSigned ≠ 0 ∧
        imageFlags &&& execImageFlagNeedsR0 ≠ 0 ∧ runFlags &&& execRunFlagTrustedR0 ≠ 0 := by
  unfold execRunAsR0Driver
  simp only [Bool.and_eq_true, bne_iff_ne, and_assoc]

theorem execRunImageFlags_iff {runFlags imageFlags m : UInt32}
    (hm : execImageFlagConsole &&& m = 0) :
    execRunImageFlags runFlags imageFlags &&& m ≠ 0 ↔ imageFlags &&& m ≠ 0 := by
  unfold execRunImageFlags
  split
  · rw [or_flag_iff, hm]
    simp only [ne_eq, not_true_eq_false, or_false]
  · rfl

theorem OpenedFrom.permitted (h : OpenedFrom key env call opened) {w : ExecWorld}
    {context : RunContext} (hcontext : w.context = some context)
    (hlevel : context.privilegeLevel =
      execRunPrivilegeLevel call.runFlags (execRunImageFlags call.runFlags opened.imageFlags))
    (hR0 : ¬ (execRunImageFlags call.runFlags opened.imageFlags &&& execImageFlagNeedsR0 ≠ 0 ∧
      (execRunImageFlags call.runFlags opened.imageFlags &&& execImageFlagDriver = 0 ∨
        execRunPrivilegeLevel call.runFlags
          (execRunImageFlags call.runFlags opened.imageFlags) ≠ execPrivR0)))
    (hR2 : ¬ (execRunImageFlags call.runFlags opened.imageFlags &&& execImageFlagNeedsR2 ≠ 0 ∧
      execRunPrivilegeLevel call.runFlags
        (execRunImageFlags call.runFlags opened.imageFlags) > execPrivR2)) :
    Permitted key env call (execRunAsR0Driver call.runFlags (execRunImageFlags call.runFlags opened.imageFlags))
      (peEntry opened.payload) w := by
  refine ⟨opened.resolved, context, h.resolved, hcontext, ?_, fun hdriver => ?_, fun hneeds => ?_,
    fun hneeds => ?_⟩
  · rw [hlevel]
    exact execRunPrivilegeLevel_iff _ _
  · obtain ⟨-, hsigned, hneeds, htrusts⟩ := (execRunAsR0Driver_iff _ _).mp hdriver
    obtain ⟨hpackage, htrusted⟩ :=
      h.trusted ((execRunImageFlags_iff (by decide)).mp hsigned) ((execRunImageFlags_iff (by decide)).mp hneeds)
    refine ⟨htrusts, hpackage, htrusted, ?_⟩
    rw [h.payload, imagePayload, if_pos hpackage]
  · rw [hlevel]
    by_contra hweak
    exact hR0 ⟨(execRunImageFlags_iff (by decide)).mpr (h.needsR0 hneeds), Or.inr hweak⟩
  · rw [hlevel]
    by_contra hweak
    exact hR2 ⟨(execRunImageFlags_iff (by decide)).mpr (h.needsR2 hneeds), UInt32.not_le.mp hweak⟩

variable {enter : Bool → Nat → UInt64 → ExecWorld → ExecWorld × ChildEnd}

theorem execStart_congr (h : OpenedFrom key env call opened)
    (henter : ∀ driver entry info w, Permitted key env call driver entry w →
      enter driver entry info w = env.enter driver entry info w) (dlls : List LoadedDll) (w :
      ExecWorld) :
    execStart { rzsEnv key env with enter := enter } call opened dlls w =
      execStart (rzsEnv key env) call opened dlls w := by
  unfold execStart
  dsimp only
  split
  · rfl
  next hR0 =>
  split
  · rfl
  next hR2 =>
  split
  · rfl
  split
  · rfl
  next stack heap _ =>
  rw [henter _ _ _ _ (h.permitted rfl rfl hR0 hR2)]
  rfl

end

section

variable {env : ExecEnv} {enter : Bool → Nat → UInt64 → ExecWorld → ExecWorld × ChildEnd}

theorem execBindDescriptors_enter (bind : List UInt8 → BindState → Bool × BindState)
    (payload : List UInt8) (rva n i : Nat) (s : BindState) :
    execBindDescriptors { env with enter := enter } bind payload rva n i s =
      execBindDescriptors env bind payload rva n i s := by
  induction n generalizing i s with
  | zero => rfl
  | succ n ih =>
    unfold execBindDescriptors
    simp only [ih]
    rfl

theorem execBindImports_enter (fuel : Nat) :
    execBindImports { env with enter := enter } fuel = execBindImports env fuel := by
  induction fuel with
  | zero => rfl
  | succ fuel ih =>
    funext payload s
    unfold execBindImports
    rw [ih]
    simp only [execBindDescriptors_enter]

end

/-- Whatever the file, the path, the flags of the call and the key are: `exec_run_with_flags` enters
kernel mode only for a package that the key has signed, that has the digest of its manifest and asks
for R0, when the caller trusts it, and no image that needs R0 or R2 is entered at a weaker level. -/
theorem enters_permitted (key : RzsKey) (env : ExecEnv) (call : ExecCall) (w : ExecWorld) :
    EntersOnly (rzsEnv key env) call w (Permitted key env call) := by
  intro enter henter
  unfold execRunWithFlags
  split
  · rfl
  have hopen : execOpenImage { rzsEnv key env with enter := enter } call w =
      execOpenImage (rzsEnv key env) call w := rfl
  rw [hopen]
  cases hopened : execOpenImage (rzsEnv key env) call w with
  | mk result w' =>
    cases result with
    | none => rfl
    | some opened =>
      dsimp only
      split
      · rfl
      · rw [execBindImports_enter]
        split
        · rfl
        · exact execStart_congr (openedFrom hopened) henter _ _

end Monios.Analysis.KernelEntry
