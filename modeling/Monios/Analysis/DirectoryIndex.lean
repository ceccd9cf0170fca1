import Monios.Model.NtfsIndex

/-!
# The directory index as a map

Additions to and removals from the index that `ntfs_mkdir` makes, against what its readers find in
it.
-/

set_option autoImplicit false

namespace Monios.Analysis.DirectoryIndex

open Monios.Library Monios.Model.NtfsIndex

structure Entry where
  name : List UInt8
  reference : Nat
  isDir : Bool

inductive IndexCall
  | add (parentMft childRef : Nat) (name : List UInt8) (isDir : Bool)
  | remove (name : List UInt8)

def exec (rounds : Nat) : IndexCall → Index (Option Bool)
  | .add parentMft childRef name isDir => ntfsIndexAddEntry rounds 256 parentMft childRef name isDir
  | .remove name => ntfsIndexRemoveEntry rounds 256 name

def after (rounds : Nat) (m : Nat → UInt8) (c : IndexCall) : Nat → UInt8 :=
  if (exec rounds c).result m = some true then (exec rounds c).state m else m

def entriesAfter (rounds : Nat) (m : Nat → UInt8) (entries : List Entry) (c : IndexCall) :
    List Entry :=
  if (exec rounds c).result m = some true then
    match c with
    | .add _ childRef name isDir => entries ++ [⟨name, childRef, isDir⟩]
    | .remove name => entries.filter fun e => e.name ≠ name
  else entries

structure IsMap (m : Nat → UInt8) (entries : List Entry) : Prop where
  finds : ∀ name, (ntfsFindInIndex 16 240 name).result m =
    (entries.find? fun e => e.name.map lower = name.map lower).map fun e => e.reference % 2 ^ 48
  lists : ∃ size, ∀ bufferSize, size ≤ bufferSize → (ntfsListIndexEntries 16 240 bufferSize).result m =
    (true, entries.flatMap fun e => e.name ++ (if e.isDir then [0x2F] else []) ++ [0x0A])
  empties : ∃ rounds, (ntfsRmdirEmpty rounds).result m = some (decide (entries = []))
  inside : ∀ name bufferSize rounds, ∀ e ∈ (ntfsFindInIndex 16 240 name).log m ++
    (ntfsListIndexEntries 16 240 bufferSize).log m ++ (ntfsRmdirEmpty rounds).log m, e.1 + e.2 ≤ 256

def KeepsMap (rounds : Nat) : (Nat → UInt8) → List Entry → List IndexCall → Prop
  | m, entries, [] => IsMap m entries
  | m, entries, c :: calls => IsMap m entries ∧ (∀ e ∈ (exec rounds c).log m, e.1 + e.2 ≤ 256) ∧
      KeepsMap rounds (after rounds m c) (entriesAfter rounds m entries c) calls

def Fits : IndexCall → Prop
  | .add _ _ name _ => addedSize (ntfsUtf8ToUtf16 name 255).length ≤ 240
  | .remove _ => False

theorem littleValue_littleBytes (n v : Nat) : littleValue (littleBytes n v) = v % 256 ^ n := by
  induction n generalizing v with
  | zero => simp [littleBytes, littleValue, Nat.mod_one]
  | succ n ih =>
    have h := ih (v / 256)
    unfold littleValue at h
    unfold littleBytes littleValue
    rw [List.foldr_cons, h, UInt8.toNat_ofNat']
    show v % 256 + 256 * (v / 256 % 256 ^ n) = v % 256 ^ (n + 1)
    rw [Nat.pow_succ', Nat.mod_mul]

variable {m : Nat → UInt8}

theorem load_store_behind {a o n : Nat} {bytes : List UInt8} (h : o + n ≤ a) :
    load (store m a bytes) o n = load m o n := by
  refine List.map_congr_left fun k hk => store_frame (.inl ?_)
  have := List.mem_range.mp hk
  omega

section

variable {m : Nat → UInt8} {o t : Nat}

theorem get_eq (offset bytes : Nat) (m : Nat → UInt8) :
    get offset bytes m = (littleValue (load m offset bytes), m, [(offset, bytes)]) := rfl

theorem bounds_eq (ho : littleValue (load m 16 4) = o) (ht : littleValue (load m 20 4) = t) :
    ntfsIndexBounds 16 240 m =
      (if o < 16 ∨ t < o ∨ 240 < t then none else some (o, t), m, [(16, 4), (20, 4)]) := by
  unfold ntfsIndexBounds
  rw [if_neg (by decide)]
  refine (Traced.bind_of_eq _ (get_eq 16 4 m)).trans ?_
  rw [Traced.bind_of_eq _ (get_eq 20 4 m), ho, ht]
  rfl

theorem find_eq (ho : littleValue (load m 16 4) = o) (ht : littleValue (load m 20 4) = t)
    (hend : t < o + entrySize) (name : List UInt8) :
    ntfsFindInIndex 16 240 name m = (none, m, [(16, 4), (20, 4)]) := by
  unfold ntfsFindInIndex
  refine (Traced.bind_of_eq _ (bounds_eq ho ht)).trans ?_
  split
  · rfl
  · cases t with
    | zero => rfl
    | succ t =>
      dsimp only
      unfold findFrom
      rw [if_pos hend]
      rfl

end

theorem isMap_empty (ho : littleValue (load m 16 4) = 16) (ht : littleValue (load m 20 4) = 16) :
    IsMap m [] := by
  have hfind := find_eq ho ht (by decide)
  have hlist (bufferSize : Nat) : ntfsListIndexEntries 16 240 bufferSize m = ((true, []), m, [(16, 4), (20, 4)]) := by
    unfold ntfsListIndexEntries
    exact (Traced.bind_of_eq _ (bounds_eq ho ht)).trans rfl
  have hrmdir (rounds : Nat) : ntfsRmdirEmpty (rounds + 1) m = (some true, m, [(16, 4), (20, 4)]) := by
    unfold ntfsRmdirEmpty
    refine (Traced.bind_of_eq _ (get_eq 16 4 _)).trans ?_
    unfold rmdirFrom
    rw [Traced.bind_of_eq _ (get_eq 20 4 _), ho, ht]
    rfl
  refine ⟨fun name => Traced.result_of_eq (hfind name), ⟨0, fun size _ => Traced.result_of_eq (hlist size)⟩,
    ⟨1, Traced.result_of_eq (hrmdir 0)⟩, fun name bufferSize rounds e he => ?_⟩
  rw [Traced.log_of_eq (hfind name), Traced.log_of_eq (hlist bufferSize)] at he
  cases rounds with
  | zero =>
    have hlog : (ntfsRmdirEmpty 0).log m = [(16, 4)] := rfl
    rw [hlog] at he
    revert e
    decide
  | succ rounds =>
    rw [Traced.log_of_eq (hrmdir rounds)] at he
    revert e
    decide

theorem remove_empty (rounds : Nat) (name : List UInt8) (ho : littleValue (load m 16 4) = 16)
    (ht : littleValue (load m 20 4) = 16) :
    (ntfsIndexRemoveEntry rounds 256 name).result m ≠ some true ∧
      (ntfsIndexRemoveEntry rounds 256 name).log m = [(16, 4), (20, 4)] := by
  have heq : ∃ answer, answer ≠ some true ∧ ntfsIndexRemoveEntry rounds 256 name m =
      (answer, m, [(16, 4), (20, 4)]) := by
    unfold ntfsIndexRemoveEntry
    rw [if_neg (by decide), Traced.bind_of_eq _ (get_eq 16 4 m),
      Traced.bind_of_eq _ (get_eq 20 4 m), ho, ht]
    cases rounds with
    | zero => exact ⟨none, nofun, rfl⟩
    | succ rounds => exact ⟨some false, nofun, rfl⟩
  obtain ⟨answer, hanswer, heq⟩ := heq
  exact ⟨fun h => hanswer ((Traced.result_of_eq heq).symm.trans h), Traced.log_of_eq heq⟩

theorem add_full {chars : Nat} (rounds parentMft childRef : Nat) {name : List UInt8} (isDir : Bool)
    (ht : littleValue (load m 20 4) = 16) (hchars : (ntfsUtf8ToUtf16 name 255).length = chars)
    (h : 240 < addedSize chars) (hsmall : addedSize chars < 2 ^ 31) :
    ntfsIndexAddEntry rounds 256 parentMft childRef name isDir m =
      (some false, m, [(16, 4), (20, 4)]) := by
  have hfull : 256 < sum32 16 (addedSize chars) := by
    unfold sum32
    omega
  unfold ntfsIndexAddEntry
  rw [if_neg (by decide)]
  refine (Traced.bind_of_eq _ (get_eq 16 4 _)).trans ?_
  rw [Traced.bind_of_eq _ (get_eq 20 4 _), ht]
  dsimp only
  rw [hchars, if_pos hfull]
  rfl

theorem load_offset {v : Nat} (hv : v < 2 ^ 32) :
    littleValue (load (store m 16 (littleBytes 8 v)) 16 4) = v := by
  have hload : load (store m 16 (littleBytes 8 v)) 16 4 = littleBytes 4 v := rfl
  rw [hload, littleValue_littleBytes]
  exact Nat.mod_eq_of_lt hv

theorem load_total {v : Nat} (hv : v < 2 ^ 32) :
    littleValue (load (store m 20 (littleBytes 4 v)) 20 4) = v := by
  have hload : load (store m 20 (littleBytes 4 v)) 20 4 = littleBytes 4 v := rfl
  rw [hload, littleValue_littleBytes]
  exact Nat.mod_eq_of_lt hv

abbrev Gives {α : Type} (Q : α → (Nat → UInt8) → Prop) (c : Index α) (m : Nat → UInt8) : Prop :=
  Traced.Ends (fun _ _ _ => True) Q c m

theorem gives_get_bind {β : Type} {offset bytes v : Nat} {Q : β → (Nat → UInt8) → Prop}
    {f : Nat → Index β} (hv : littleValue (load m offset bytes) = v) (hf : Gives Q (f v) m) :
    Gives Q (get offset bytes >>= f) m := by
  obtain rfl := hv
  exact ⟨trivial, hf.2⟩

theorem gives_put_bind {β : Type} {offset : Nat} {bytes : List UInt8}
    {Q : β → (Nat → UInt8) → Prop} {f : Unit → Index β} (hf : ∀ m', m' = store m offset bytes →
      Gives Q (f ()) m') : Gives Q (put offset bytes >>= f) m :=
  ⟨trivial, (hf _ rfl).2⟩

theorem add_first {chars : Nat} (rounds parentMft childRef : Nat) {name : List UInt8} (isDir : Bool)
    (ho : littleValue (load m 16 4) = 16) (ht : littleValue (load m 20 4) = 16)
    (hchars : (ntfsUtf8ToUtf16 name 255).length = chars) (h : addedSize chars ≤ 240) :
    Gives (fun r t => r = some true ∧ littleValue (load t 16 4) = addedSize chars ∧
      littleValue (load t 20 4) = 16 +
      addedSize chars) (ntfsIndexAddEntry rounds 256 parentMft childRef name isDir) m := by
  have hsum : sum32 16 (addedSize chars) = 16 + addedSize chars := Nat.mod_eq_of_lt (by omega)
  have hroom : ¬ 256 < 16 + addedSize chars := by omega
  unfold ntfsIndexAddEntry
  rw [if_neg (by decide)]
  refine gives_get_bind ho (gives_get_bind ht ?_)
  dsimp only
  rw [hchars, hsum, if_neg hroom, if_neg (Nat.lt_irrefl 16)]
  refine gives_put_bind fun m₁ h₁ => gives_put_bind fun m₂ h₂ => gives_put_bind fun m₃ h₃ =>
    gives_put_bind fun m₄ h₄ => ?_
  refine Traced.Ends.bind_same rfl ?_
  rw [if_neg (by decide)]
  refine gives_put_bind fun m₅ h₅ => gives_put_bind fun m₆ h₆ => gives_put_bind fun m₇ h₇ =>
    gives_put_bind fun m₈ h₈ => ?_
  refine gives_put_bind fun m₉ h₉ => gives_put_bind fun m₁₀ h₁₀ => gives_put_bind fun m₁₁ h₁₁ => ?_
  have hoffset : littleValue (load m₁₁ 16 4) = addedSize chars := by
    subst h₁₁ h₁₀ h₉ h₈ h₇ h₆ h₅ h₄ h₃ h₂
    simp (disch := decide) only [load_store_behind]
    exact load_offset (by omega)
  have htotal : littleValue (load m₁₁ 20 4) = 16 + addedSize chars := by
    rw [h₁₁]
    exact load_total (by omega)
  refine gives_get_bind rfl (gives_get_bind htotal (.ite (fun _ => ?_) fun _ => ⟨trivial, rfl, hoffset, htotal⟩))
  refine gives_put_bind fun m₁₂ h₁₂ => ⟨trivial, rfl, ?_, ?_⟩
  · rw [h₁₂, Traced.state_pure, load_store_behind (by decide)]
    exact hoffset
  · rw [h₁₂, Traced.state_pure, load_store_behind (by decide)]
    exact htotal

theorem length_utf16From (rounds room : Nat) (utf8 : List UInt8) :
    (utf16From rounds room utf8).length ≤ room := by
  induction rounds generalizing room utf8 with
  | zero => simp [utf16From]
  | succ rounds ih =>
    cases room with
    | zero => simp [utf16From]
    | succ room =>
      cases utf8 with
      | nil => simp [utf16From]
      | cons c rest => exact Nat.succ_le_succ (ih room _)

section

variable {m : Nat → UInt8} {rounds : Nat} {c : IndexCall}

theorem call_empty (ho : littleValue (load m 16 4) = 16) (ht : littleValue (load m 20 4) = 16)
    (h : ¬ Fits c) :
    (exec rounds c).result m ≠ some true ∧ (exec rounds c).log m = [(16, 4), (20, 4)] := by
  cases c with
  | remove name => exact remove_empty rounds name ho ht
  | add parentMft childRef name isDir =>
    have hle : (ntfsUtf8ToUtf16 name 255).length ≤ 254 := length_utf16From _ _ _
    have hsmall : addedSize (ntfsUtf8ToUtf16 name 255).length < 2 ^ 31 := by
      unfold addedSize
      omega
    have hadd := add_full rounds parentMft childRef isDir ht rfl (Nat.not_le.mp h) hsmall
    refine ⟨?_, Traced.log_of_eq hadd⟩
    have hresult : (exec rounds (.add parentMft childRef name isDir)).result m = some false :=
      Traced.result_of_eq hadd
    rw [hresult]
    rintro ⟨⟩

theorem not_isMap_of_fits (ho : littleValue (load m 16 4) = 16)
    (ht : littleValue (load m 20 4) = 16) (h : Fits c) :
    ¬ IsMap (after rounds m c) (entriesAfter rounds m [] c) := by
  cases c with
  | remove name => exact h.elim
  | add parentMft childRef name isDir =>
    obtain ⟨-, hresult, hoffset, htotal⟩ := add_first rounds parentMft childRef isDir ho ht rfl h
    have hdone : (exec rounds (.add parentMft childRef name isDir)).result m = some true := hresult
    unfold after entriesAfter
    rw [if_pos hdone, if_pos hdone]
    intro hmap
    have hfind := (Traced.result_of_eq (find_eq hoffset htotal (by unfold entrySize; omega) name)).symm.trans (hmap.finds name)
    simp at hfind

theorem keepsMap_empty (ho : littleValue (load m 16 4) = 16) (ht : littleValue (load m 20 4) = 16)
    (calls : List IndexCall) :
    KeepsMap rounds m [] calls ↔ ∀ c ∈ calls, ¬ Fits c := by
  induction calls with
  | nil => exact iff_of_true (isMap_empty ho ht) (by simp)
  | cons c calls ih =>
    rw [List.forall_mem_cons]
    by_cases hc : Fits c
    · refine iff_of_false (fun hkeeps => @not_isMap_of_fits m rounds c ho ht hc ?_) fun hall =>
        hall.1 hc
      cases calls with
      | nil => exact hkeeps.2.2
      | cons d calls => exact hkeeps.2.2.1
    · obtain ⟨hresult, hlog⟩ := @call_empty m rounds c ho ht hc
      have hafter : after rounds m c = m := if_neg hresult
      have hentries : entriesAfter rounds m [] c = [] := if_neg hresult
      unfold KeepsMap
      rw [hafter, hentries, hlog, ih]
      refine ⟨fun hkeeps => ⟨hc, hkeeps.2.2⟩, fun hall => ⟨isMap_empty ho ht, ?_, hall.2⟩⟩
      decide

end

theorem load_mkdirIndex (rest : Nat → UInt8) : littleValue (load (mkdirIndex rest) 16 4) = 16 ∧
    littleValue (load (mkdirIndex rest) 20 4) = 16 := ⟨rfl, rfl⟩

/-- The index of a new directory stays a map exactly as long as no entry that fits is added to it.
-/
theorem keepsMap_iff (rounds : Nat) (rest : Nat → UInt8) (calls : List IndexCall) :
    KeepsMap rounds (mkdirIndex rest) [] calls ↔ ∀ c ∈ calls, ¬ Fits c :=
  keepsMap_empty (load_mkdirIndex rest).1 (load_mkdirIndex rest).2 calls

/-- After `a` has been added the index is no longer the map of its entries. -/
theorem not_keepsMap_oneFile :
    ¬ KeepsMap 256 (mkdirIndex fun _ => 0) [] [.add 5 64 [0x61] false] := by
  rw [keepsMap_empty (load_mkdirIndex _).1 (load_mkdirIndex _).2]
  intro h
  have hfits : addedSize (ntfsUtf8ToUtf16 [0x61] 255).length ≤ 240 := by decide
  exact h _ List.mem_cons_self hfits

end Monios.Analysis.DirectoryIndex
