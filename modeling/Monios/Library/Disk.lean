import Monios.Library.Block

/-!
# Disks and the writes made to them

A disk maps an address to the contents of one atomic unit of storage. What a piece of code does to a
disk is the list of its writes, in order; a power loss leaves the disk with the writes of a prefix
of that list.
-/

set_option autoImplicit false

namespace Monios.Library

variable {β : Type*}

def applyWrites (d : Nat → β) (ws : List (Nat × β)) : Nat → β :=
  ws.foldl (fun d w => Function.update d w.1 w.2) d

@[simp] theorem applyWrites_nil (d : Nat → β) : applyWrites d [] = d := rfl

@[simp] theorem applyWrites_cons (d : Nat → β) (w : Nat × β) (ws : List (Nat × β)) :
    applyWrites d (w :: ws) = applyWrites (Function.update d w.1 w.2) ws := rfl

theorem applyWrites_append (d : Nat → β) (ws vs : List (Nat × β)) :
    applyWrites d (ws ++ vs) = applyWrites (applyWrites d ws) vs := by
  unfold applyWrites
  rw [List.foldl_append]

theorem applyWrites_concat (d : Nat → β) (ws : List (Nat × β)) (w : Nat × β) :
    applyWrites d (ws ++ [w]) = Function.update (applyWrites d ws) w.1 w.2 :=
  applyWrites_append d ws [w]

theorem applyWrites_of_forall_ne (d : Nat → β) {ws : List (Nat × β)} {x : Nat}
    (h : ∀ w ∈ ws, w.1 ≠ x) : applyWrites d ws x = d x := by
  induction ws generalizing d with
  | nil => rfl
  | cons w ws ih =>
    rw [applyWrites_cons, ih _ fun v hv => h v (List.mem_cons_of_mem _ hv)]
    exact Function.update_of_ne (Ne.symm (h w List.mem_cons_self)) _ _

def lastWrite (ws : List (Nat × β)) (x : Nat) : Option β :=
  ws.foldl (fun o w => if w.1 = x then some w.2 else o) none

@[simp] theorem lastWrite_nil (x : Nat) : lastWrite ([] : List (Nat × β)) x = none := rfl

theorem lastWrite_concat (ws : List (Nat × β)) (w : Nat × β) (x : Nat) :
    lastWrite (ws ++ [w]) x = if w.1 = x then some w.2 else lastWrite ws x := by
  unfold lastWrite
  rw [List.foldl_append]
  rfl

theorem mem_of_lastWrite {ws : List (Nat × β)} {x : Nat} {image : β}
    (h : lastWrite ws x = some image) : (x, image) ∈ ws := by
  induction ws using List.reverseRecOn with
  | nil => simp at h
  | append_singleton ws w ih =>
    rw [lastWrite_concat] at h
    split at h
    · next hw =>
        obtain rfl := Option.some.inj h
        subst hw
        simp
    · exact List.mem_append_left _ (ih h)

theorem applyWrites_eq_lastWrite (d : Nat → β) (ws : List (Nat × β)) (x : Nat) :
    applyWrites d ws x = (lastWrite ws x).getD (d x) := by
  induction ws using List.reverseRecOn with
  | nil => rfl
  | append_singleton ws w ih =>
    rw [applyWrites_concat, lastWrite_concat]
    by_cases h : w.1 = x
    · rw [if_pos h, ← h, Function.update_self]
      rfl
    · rw [if_neg h, Function.update_of_ne (Ne.symm h), ih]

end Monios.Library

/-!
# A store behind a volatile cache

A device that caches writes has two contents: what a read returns (`visible`) and what is left when
the power fails (`durable`). With every command the device may save any of what it caches; `saved`
says what.
-/

namespace Monios.Library

structure WriteCache (ι β : Type*) where
  visible : ι → β
  durable : ι → β

namespace WriteCache

variable {ι β : Type*}

def save (s : WriteCache ι β) (saved : ι → Bool) : WriteCache ι β where
  visible := s.visible
  durable := fun x => if saved x then s.visible x else s.durable x

def put [DecidableEq ι] (s : WriteCache ι β) (x : ι) (v : β) : WriteCache ι β where
  visible := Function.update s.visible x v
  durable := s.durable

def Settled (s : WriteCache ι β) (x : ι) (v : β) : Prop := s.visible x = v ∧ s.durable x = v

def Keeps (s t : WriteCache ι β) (x : ι) : Prop :=
  t.visible x = s.visible x ∧ (t.durable x = s.durable x ∨ t.durable x = s.visible x)

variable {s t u : WriteCache ι β} {x : ι}

theorem Keeps.refl (s : WriteCache ι β) (x : ι) : Keeps s s x := ⟨rfl, .inl rfl⟩

theorem Keeps.trans (h : Keeps s t x) (h' : Keeps t u x) : Keeps s u x := by
  obtain ⟨hv, hd⟩ := h
  obtain ⟨hv', hd'⟩ := h'
  constructor
  · rw [hv', hv]
  · rcases hd' with hd' | hd'
    · rw [hd']
      exact hd
    · right
      rw [hd', hv]

theorem Keeps.settled {v : β} (h : Keeps s t x) (hs : s.Settled x v) : t.Settled x v := by
  obtain ⟨hv, hd⟩ := h
  constructor
  · rw [hv, hs.1]
  · rcases hd with hd | hd
    · rw [hd, hs.2]
    · rw [hd, hs.1]

theorem keeps_save (s : WriteCache ι β) (saved : ι → Bool) (x : ι) : Keeps s (s.save saved) x := by
  constructor
  · rfl
  · unfold save
    cases h : saved x <;> simp [h]

theorem keeps_put [DecidableEq ι] (s : WriteCache ι β) {y : ι} (v : β) (h : x ≠ y) :
    Keeps s (s.put y v) x := by
  constructor
  · simp [put, Function.update_of_ne h]
  · exact .inl rfl

theorem settled_save {saved : ι → Bool} (h : saved x = true) :
    (s.save saved).Settled x (s.visible x) := by
  constructor
  · rfl
  · simp [save, h]

@[simp] theorem visible_save (s : WriteCache ι β) (saved : ι → Bool) :
    (s.save saved).visible = s.visible := rfl

@[simp] theorem visible_put_self [DecidableEq ι] (s : WriteCache ι β) (x : ι) (v : β) :
    (s.put x v).visible x = v := by
  simp [put]

end WriteCache

end Monios.Library
