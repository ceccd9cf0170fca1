import Mathlib.Algebra.Order.Ring.Int
import Mathlib.Data.List.Basic

/-!
# A heap of blocks that lie one behind the other

Blocks have a header of `hdr` bytes and fill the heap. `place` takes the first free block that is
large enough and splits it when what is left is worth a block of its own, `release` marks a block
free, and `coalesce` merges free neighbours.
-/

set_option autoImplicit false

namespace Monios.Library

structure HeapBlock where
  size : Nat
  free : Bool
deriving DecidableEq

namespace HeapBlock

variable {hdr : Nat}

def Live (hdr : Nat) : Nat → List HeapBlock → Nat → Nat → Prop
  | _, [], _, _ => False
  | a, b :: bs, p, n =>
    (b.free = false ∧ p = a + hdr ∧ n = b.size) ∨ Live hdr (a + hdr + b.size) bs p n

def total (hdr : Nat) : List HeapBlock → Nat
  | [] => 0
  | b :: bs => hdr + b.size + total hdr bs

def place (hdr overhead size : Nat) : Nat → List HeapBlock → Option (Nat × List HeapBlock)
  | _, [] => none
  | a, b :: bs =>
    if b.free ∧ size ≤ b.size then
      some (a + hdr,
        if overhead ≤ b.size - size then ⟨size, false⟩ :: ⟨b.size - size - hdr, true⟩ :: bs else ⟨b.size, false⟩ :: bs)
    else (place hdr overhead size (a + hdr + b.size) bs).map fun r => (r.1, b :: r.2)

def blockAt (hdr p : Nat) : Nat → List HeapBlock → Option HeapBlock
  | _, [] => none
  | a, b :: bs => if a + hdr = p then some b else blockAt hdr p (a + hdr + b.size) bs

def release (hdr p : Nat) : Nat → List HeapBlock → List HeapBlock
  | _, [] => []
  | a, b :: bs =>
    if a + hdr = p then ⟨b.size, true⟩ :: bs else b :: release hdr p (a + hdr + b.size) bs

def coalesceFrom (hdr : Nat) (cur : HeapBlock) : List HeapBlock → List HeapBlock
  | [] => [cur]
  | b :: bs =>
    if cur.free ∧ b.free then coalesceFrom hdr ⟨cur.size + hdr + b.size, true⟩ bs else cur :: coalesceFrom hdr b bs

def coalesce (hdr : Nat) : List HeapBlock → List HeapBlock
  | [] => []
  | b :: bs => coalesceFrom hdr b bs

theorem Live.le {a p n : Nat} {bs : List HeapBlock} (h : Live hdr a bs p n) : a + hdr ≤ p := by
  induction bs generalizing a with
  | nil => exact h.elim
  | cons b bs ih =>
    rcases h with ⟨-, rfl, -⟩ | h
    · exact Nat.le_refl _
    · have := ih h
      omega

theorem Live.add_le {a p n : Nat} {bs : List HeapBlock} (h : Live hdr a bs p n) :
    p + n ≤ a + total hdr bs := by
  induction bs generalizing a with
  | nil => exact h.elim
  | cons b bs ih =>
    unfold total
    rcases h with ⟨-, rfl, rfl⟩ | h
    · omega
    · have := ih h
      omega

theorem Live.mem {a p n : Nat} {bs : List HeapBlock} (h : Live hdr a bs p n) :
    ∃ b ∈ bs, b.size = n := by
  induction bs generalizing a with
  | nil => exact h.elim
  | cons b bs ih =>
    rcases h with ⟨-, -, rfl⟩ | h
    · exact ⟨b, List.mem_cons_self .., rfl⟩
    · obtain ⟨b', hb', hn⟩ := ih h
      exact ⟨b', List.mem_cons_of_mem _ hb', hn⟩

theorem Live.blockAt_eq (hpos : 0 < hdr) {a p n : Nat} {bs : List HeapBlock}
    (h : Live hdr a bs p n) :
    blockAt hdr p a bs = some ⟨n, false⟩ := by
  induction bs generalizing a with
  | nil => exact h.elim
  | cons b bs ih =>
    unfold blockAt
    rcases h with ⟨hf, rfl, rfl⟩ | h
    · rw [if_pos rfl, ← hf]
    · have := h.le
      rw [if_neg (by omega)]
      exact ih h

theorem live_of_blockAt {a p n : Nat} {bs : List HeapBlock}
    (h : blockAt hdr p a bs = some ⟨n, false⟩) : Live hdr a bs p n := by
  induction bs generalizing a with
  | nil => exact nomatch h
  | cons b bs ih =>
    unfold blockAt at h
    split at h
    · next hp =>
        obtain rfl := Option.some.inj h
        exact .inl ⟨rfl, hp.symm, rfl⟩
    · exact .inr (ih h)

theorem place_live (hpos : 0 < hdr) {overhead size a p : Nat} (hover : hdr ≤ overhead)
    {bs bs' : List HeapBlock} (h : place hdr overhead size a bs = some (p, bs')) :
    (∀ n, ¬ Live hdr a bs p n) ∧ ∃ m, ∀ q n, Live hdr a bs' q n ↔ Live hdr a bs q n ∨
      (q = p ∧ n = m) := by
  induction bs generalizing a bs' with
  | nil => exact nomatch h
  | cons b bs ih =>
    unfold place at h
    split at h
    · next hc =>
        obtain ⟨rfl, hbs⟩ := Prod.mk.inj (Option.some.inj h)
        have hnone : ∀ n, ¬ Live hdr a (b :: bs) (a + hdr) n := by
          rintro n (⟨hf, -, -⟩ | hl)
          · rw [hc.1] at hf
            exact nomatch hf
          · have := hl.le
            omega
        refine ⟨hnone, ?_⟩
        split at hbs
        · -- the rest becomes a free block, and the blocks behind it stay where they are
          next hsplit =>
            subst hbs
            refine ⟨size, fun q n => ?_⟩
            have haddr : a + hdr + size + hdr + (b.size - size - hdr) = a + hdr + b.size := by omega
            simp only [Live, haddr, hc.1, Bool.true_eq_false, false_and, false_or, true_and]
            exact or_comm
        · subst hbs
          refine ⟨b.size, fun q n => ?_⟩
          simp only [Live, hc.1, Bool.true_eq_false, false_and, false_or, true_and]
          exact or_comm
    · next hc =>
        obtain ⟨⟨p', bs1⟩, hplace, heq⟩ := Option.map_eq_some_iff.mp h
        obtain ⟨rfl, rfl⟩ := Prod.mk.inj heq
        obtain ⟨hnone, m, hm⟩ := ih hplace
        have hp : a + hdr + b.size + hdr ≤ p' := ((hm p' m).mpr (.inr ⟨rfl, rfl⟩)).le
        refine ⟨?_, m, fun q n => ?_⟩
        · rintro n (⟨-, hq, -⟩ | hl)
          · simp only [] at hq
            omega
          · exact hnone n hl
        · simp only [Live, hm, or_assoc]

theorem place_fits {overhead size a p : Nat} {bs bs' : List HeapBlock}
    (h : place hdr overhead size a bs = some (p, bs')) :
    ∃ m, size ≤ m ∧ Live hdr a bs' p m := by
  induction bs generalizing a bs' with
  | nil => exact nomatch h
  | cons b bs ih =>
    unfold place at h
    split at h
    · next hc =>
        obtain ⟨rfl, rfl⟩ := Prod.mk.inj (Option.some.inj h)
        split
        · exact ⟨size, le_rfl, .inl ⟨rfl, rfl, rfl⟩⟩
        · exact ⟨b.size, hc.2, .inl ⟨rfl, rfl, rfl⟩⟩
    · obtain ⟨⟨p', bs1⟩, hplace, heq⟩ := Option.map_eq_some_iff.mp h
      obtain ⟨rfl, rfl⟩ := Prod.mk.inj heq
      obtain ⟨m, hm, hlive⟩ := ih hplace
      exact ⟨m, hm, .inr hlive⟩

theorem release_live (hpos : 0 < hdr) {a p : Nat} (bs : List HeapBlock) (q n : Nat) :
    Live hdr a (release hdr p a bs) q n ↔ Live hdr a bs q n ∧ q ≠ p := by
  induction bs generalizing a with
  | nil => simp [release, Live]
  | cons b bs ih =>
    unfold release
    split
    · next hp =>
        simp only [Live, Bool.true_eq_false, false_and, false_or]
        constructor
        · intro hl
          have := hl.le
          exact ⟨.inr hl, by omega⟩
        · rintro ⟨⟨-, rfl, -⟩ | hl, hne⟩
          · exact absurd hp hne
          · exact hl
    · next hp =>
        simp only [Live, ih]
        constructor
        · rintro (⟨h1, rfl, h3⟩ | ⟨hl, hne⟩)
          · exact ⟨.inl ⟨h1, rfl, h3⟩, hp⟩
          · exact ⟨.inr hl, hne⟩
        · rintro ⟨h | hl, hne⟩
          · exact .inl h
          · exact .inr ⟨hl, hne⟩

theorem coalesceFrom_live {a : Nat} (cur : HeapBlock) (bs : List HeapBlock) (q n : Nat) :
    Live hdr a (coalesceFrom hdr cur bs) q n ↔ Live hdr a (cur :: bs) q n := by
  induction bs generalizing a cur with
  | nil => rfl
  | cons b bs ih =>
    unfold coalesceFrom
    split
    · next hc =>
        rw [ih]
        simp only [Live, hc.1, hc.2, Bool.true_eq_false, false_and, false_or]
        rw [show a + hdr + (cur.size + hdr + b.size) = a + hdr + cur.size + hdr + b.size by omega]
    · simp only [Live, ih]

theorem coalesce_live {a : Nat} (bs : List HeapBlock) (q n : Nat) :
    Live hdr a (coalesce hdr bs) q n ↔ Live hdr a bs q n := by
  cases bs with
  | nil => rfl
  | cons b bs => exact coalesceFrom_live b bs q n

/-! ## The blocks fill the heap and are not empty -/

def Fills (hdr t : Nat) (bs : List HeapBlock) : Prop := total hdr bs = t ∧ ∀ b ∈ bs, 0 < b.size

theorem Fills.place {overhead size a p : Nat} (hover : hdr < overhead) (hsize : 0 < size) {t : Nat}
    {bs bs' : List HeapBlock} (hf : Fills hdr t bs)
    (h : place hdr overhead size a bs = some (p, bs')) : Fills hdr t bs' := by
  induction bs generalizing a t bs' with
  | nil => exact nomatch h
  | cons b bs ih =>
    obtain ⟨htot, hpos⟩ := hf
    unfold HeapBlock.place at h
    unfold total at htot
    split at h
    · next hc =>
        obtain ⟨-, hbs⟩ := Prod.mk.inj (Option.some.inj h)
        split at hbs
        · subst hbs
          refine ⟨?_, ?_⟩
          · simp only [total]
            omega
          · intro x hx
            simp only [List.mem_cons] at hx
            rcases hx with rfl | rfl | hx
            · exact hsize
            · show 0 < b.size - size - hdr
              omega
            · exact hpos x (List.mem_cons_of_mem _ hx)
        · subst hbs
          refine ⟨htot, ?_⟩
          intro x hx
          simp only [List.mem_cons] at hx
          rcases hx with rfl | hx
          · exact hpos b (List.mem_cons_self ..)
          · exact hpos x (List.mem_cons_of_mem _ hx)
    · obtain ⟨⟨p', bs1⟩, hplace, heq⟩ := Option.map_eq_some_iff.mp h
      obtain ⟨rfl, rfl⟩ := Prod.mk.inj heq
      obtain ⟨h1, h2⟩ := ih ⟨rfl, fun x hx => hpos x (List.mem_cons_of_mem _ hx)⟩ hplace
      refine ⟨?_, ?_⟩
      · unfold total
        rw [h1]
        exact htot
      · intro x hx
        rcases List.mem_cons.mp hx with rfl | hx
        · exact hpos x (List.mem_cons_self ..)
        · exact h2 x hx

theorem Fills.release {a p t : Nat} {bs : List HeapBlock} (hf : Fills hdr t bs) :
    Fills hdr t (release hdr p a bs) := by
  induction bs generalizing a t with
  | nil => exact hf
  | cons b bs ih =>
    obtain ⟨htot, hpos⟩ := hf
    unfold total at htot
    unfold HeapBlock.release
    split
    · refine ⟨htot, ?_⟩
      intro x hx
      rcases List.mem_cons.mp hx with rfl | hx
      · exact hpos b (List.mem_cons_self ..)
      · exact hpos x (List.mem_cons_of_mem _ hx)
    · obtain ⟨h1, h2⟩ := ih (a := a + hdr + b.size) ⟨rfl, fun x hx => hpos x (List.mem_cons_of_mem _ hx)⟩
      refine ⟨?_, ?_⟩
      · unfold total
        rw [h1]
        exact htot
      · intro x hx
        rcases List.mem_cons.mp hx with rfl | hx
        · exact hpos x (List.mem_cons_self ..)
        · exact h2 x hx

theorem Fills.coalesceFrom {t : Nat} {cur : HeapBlock} {bs : List HeapBlock}
    (hf : Fills hdr t (cur :: bs)) :
    Fills hdr t (coalesceFrom hdr cur bs) := by
  induction bs generalizing cur t with
  | nil => exact hf
  | cons b bs ih =>
    obtain ⟨htot, hpos⟩ := hf
    simp only [total] at htot
    have hcur : 0 < cur.size := hpos cur (List.mem_cons_self ..)
    have hrest : ∀ x ∈ b :: bs, 0 < x.size := fun x hx => hpos x (List.mem_cons_of_mem _ hx)
    unfold HeapBlock.coalesceFrom
    split
    · refine ih ⟨?_, ?_⟩
      · simp only [total]
        omega
      · intro x hx
        rcases List.mem_cons.mp hx with rfl | hx
        · show 0 < cur.size + hdr + b.size
          omega
        · exact hrest x (List.mem_cons_of_mem _ hx)
    · have hfrom : Fills hdr (total hdr (b :: bs)) (b :: bs) := ⟨rfl, hrest⟩
      obtain ⟨h1, h2⟩ := ih hfrom
      refine ⟨?_, ?_⟩
      · simp only [total] at h1 ⊢
        omega
      · intro x hx
        rcases List.mem_cons.mp hx with rfl | hx
        · exact hcur
        · exact h2 x hx

theorem Fills.coalesce {t : Nat} {bs : List HeapBlock} (hf : Fills hdr t bs) :
    Fills hdr t (coalesce hdr bs) := by
  cases bs with
  | nil => exact hf
  | cons b bs => exact hf.coalesceFrom

theorem Live.apart {a p n q m : Nat} {bs : List HeapBlock} (hp : Live hdr a bs p n)
    (hq : Live hdr a bs q m) (hlt : p < q) :
    p + n + hdr ≤ q := by
  induction bs generalizing a with
  | nil => exact hp.elim
  | cons b bs ih =>
    rcases hp with ⟨-, rfl, rfl⟩ | hp
    · rcases hq with ⟨-, rfl, -⟩ | hq
      · exact absurd hlt (Nat.lt_irrefl _)
      · exact hq.le
    · rcases hq with ⟨-, rfl, -⟩ | hq
      · have := hp.le
        omega
      · exact ih hp hq

theorem place_eq_none {overhead size a : Nat} {bs : List HeapBlock} :
    place hdr overhead size a bs = none ↔ ∀ b ∈ bs, ¬ (b.free = true ∧ size ≤ b.size) := by
  induction bs generalizing a with
  | nil => simp [place]
  | cons b bs ih =>
    unfold place
    split
    · next hc =>
        refine iff_of_false (fun h => by cases h) fun h => ?_
        exact h b (List.mem_cons_self ..) hc
    · next hc =>
        rw [Option.map_eq_none_iff, ih, List.forall_mem_cons]
        exact ⟨fun h => ⟨hc, h⟩, And.right⟩

/-! ## What is used, and how small a block gets -/

def usedBytes : List HeapBlock → Nat
  | [] => 0
  | b :: bs => (if b.free then 0 else b.size) + usedBytes bs

def MinSize (m : Nat) (bs : List HeapBlock) : Prop := ∀ b ∈ bs, m ≤ b.size

def NoFreePair : List HeapBlock → Prop
  | [] => True
  | b :: bs => (b.free = true → ∀ c ∈ bs.head?, c.free = false) ∧ NoFreePair bs

theorem usedBytes_le_total (bs : List HeapBlock) : usedBytes bs ≤ total hdr bs := by
  induction bs with
  | nil => exact Nat.le_refl 0
  | cons b bs ih =>
    unfold usedBytes total
    split
    · omega
    · omega

theorem usedBytes_release {a p : Nat} {b : HeapBlock} {bs : List HeapBlock}
    (hb : blockAt hdr p a bs = some b) (hused : b.free = false) :
    usedBytes (release hdr p a bs) + b.size = usedBytes bs := by
  induction bs generalizing a with
  | nil => exact nomatch hb
  | cons c bs ih =>
    unfold blockAt at hb
    unfold release
    split at hb
    · next hp =>
        obtain rfl := Option.some.inj hb
        rw [if_pos hp]
        simp only [usedBytes, hused, if_true, Bool.false_eq_true, if_false]
        omega
    · next hp =>
        rw [if_neg hp]
        have := ih hb
        simp only [usedBytes]
        omega

theorem usedBytes_coalesceFrom (cur : HeapBlock) (bs : List HeapBlock) :
    usedBytes (coalesceFrom hdr cur bs) = usedBytes (cur :: bs) := by
  induction bs generalizing cur with
  | nil => rfl
  | cons b bs ih =>
    unfold coalesceFrom
    split
    · next hc =>
        rw [ih]
        simp only [usedBytes, hc.1, hc.2, if_true]
        omega
    · unfold usedBytes
      rw [ih]

theorem MinSize.release {m a p : Nat} {bs : List HeapBlock} (h : MinSize m bs) :
    MinSize m (release hdr p a bs) := by
  induction bs generalizing a with
  | nil => exact h
  | cons b bs ih =>
    obtain ⟨hb, hbs⟩ := List.forall_mem_cons.mp h
    unfold HeapBlock.release
    split
    · exact List.forall_mem_cons.mpr ⟨hb, hbs⟩
    · exact List.forall_mem_cons.mpr ⟨hb, ih hbs⟩

theorem MinSize.coalesceFrom {m : Nat} {cur : HeapBlock} {bs : List HeapBlock}
    (h : MinSize m (cur :: bs)) :
    MinSize m (coalesceFrom hdr cur bs) := by
  induction bs generalizing cur with
  | nil => exact h
  | cons b bs ih =>
    obtain ⟨hcur, hbs⟩ := List.forall_mem_cons.mp h
    unfold HeapBlock.coalesceFrom
    split
    · refine ih (List.forall_mem_cons.mpr ⟨?_, (List.forall_mem_cons.mp hbs).2⟩)
      show m ≤ cur.size + hdr + b.size
      omega
    · exact List.forall_mem_cons.mpr ⟨hcur, ih hbs⟩

theorem noFreePair_coalesceFrom (cur : HeapBlock) (bs : List HeapBlock) :
    NoFreePair (coalesceFrom hdr cur bs) ∧
      ∀ c ∈ (coalesceFrom hdr cur bs).head?, c.free = cur.free := by
  induction bs generalizing cur with
  | nil =>
    refine ⟨⟨fun _ c hc => (nomatch hc), trivial⟩, fun c hc => ?_⟩
    rw [← Option.some.inj hc]
  | cons b bs ih =>
    unfold coalesceFrom
    split
    · next hc =>
        obtain ⟨hpair, hhead⟩ := ih ⟨cur.size + hdr + b.size, true⟩
        exact ⟨hpair, fun c hc' => (hhead c hc').trans hc.1.symm⟩
    · next hc =>
        obtain ⟨hpair, hhead⟩ := ih b
        refine ⟨⟨fun hfree c hc' => ?_, hpair⟩, fun c hc' => by rw [← Option.some.inj hc']⟩
        rw [hhead c hc']
        exact Bool.eq_false_iff.mpr fun hb => hc ⟨hfree, hb⟩

theorem MinSize.place {m overhead size a p : Nat} (hover : hdr + m ≤ overhead) (hsize : m ≤ size)
    {bs bs' : List HeapBlock} (h : MinSize m bs)
    (hplace : place hdr overhead size a bs = some (p, bs')) : MinSize m bs' := by
  induction bs generalizing a bs' with
  | nil => exact nomatch hplace
  | cons b bs ih =>
    obtain ⟨hb, hbs⟩ := List.forall_mem_cons.mp h
    unfold HeapBlock.place at hplace
    split at hplace
    · obtain ⟨-, rfl⟩ := Prod.mk.inj (Option.some.inj hplace)
      split
      · refine List.forall_mem_cons.mpr ⟨hsize, List.forall_mem_cons.mpr ⟨?_, hbs⟩⟩
        show m ≤ b.size - size - hdr
        omega
      · exact List.forall_mem_cons.mpr ⟨hb, hbs⟩
    · obtain ⟨⟨p', bs1⟩, hplace', heq⟩ := Option.map_eq_some_iff.mp hplace
      obtain ⟨rfl, rfl⟩ := Prod.mk.inj heq
      exact List.forall_mem_cons.mpr ⟨hb, ih hbs hplace'⟩

theorem head_place {overhead size a p : Nat} {bs bs' : List HeapBlock}
    (hhead : ∀ c ∈ bs.head?, c.free = false) (hplace : place hdr overhead size a bs =
      some (p, bs')) : ∀ c ∈ bs'.head?, c.free = false := by
  cases bs with
  | nil => exact nomatch hplace
  | cons b bs =>
    unfold HeapBlock.place at hplace
    split at hplace
    · next hc =>
        rw [hhead b rfl] at hc
        exact absurd hc.1 Bool.false_ne_true
    · obtain ⟨⟨p', bs1⟩, -, heq⟩ := Option.map_eq_some_iff.mp hplace
      obtain ⟨rfl, rfl⟩ := Prod.mk.inj heq
      exact hhead

theorem NoFreePair.place {overhead size a p : Nat} {bs bs' : List HeapBlock} (h : NoFreePair bs)
    (hplace : place hdr overhead size a bs = some (p, bs')) : NoFreePair bs' := by
  induction bs generalizing a bs' with
  | nil => exact nomatch hplace
  | cons b bs ih =>
    obtain ⟨hpair, hbs⟩ := h
    unfold HeapBlock.place at hplace
    split at hplace
    · next hc =>
        obtain ⟨-, rfl⟩ := Prod.mk.inj (Option.some.inj hplace)
        split
        · exact ⟨fun hfree => absurd hfree Bool.false_ne_true, fun _ => hpair hc.1, hbs⟩
        · exact ⟨fun hfree => absurd hfree Bool.false_ne_true, hbs⟩
    · obtain ⟨⟨p', bs1⟩, hplace', heq⟩ := Option.map_eq_some_iff.mp hplace
      obtain ⟨rfl, rfl⟩ := Prod.mk.inj heq
      exact ⟨fun hfree => head_place (hpair hfree) hplace', ih hbs hplace'⟩

theorem usedBytes_coalesce (bs : List HeapBlock) : usedBytes (coalesce hdr bs) = usedBytes bs := by
  cases bs with
  | nil => rfl
  | cons b bs => exact usedBytes_coalesceFrom b bs

theorem MinSize.coalesce {m : Nat} {bs : List HeapBlock} (h : MinSize m bs) :
    MinSize m (coalesce hdr bs) := by
  cases bs with
  | nil => exact h
  | cons b bs => exact h.coalesceFrom

theorem noFreePair_coalesce (bs : List HeapBlock) : NoFreePair (coalesce hdr bs) := by
  cases bs with
  | nil => trivial
  | cons b bs => exact (noFreePair_coalesceFrom b bs).1

end HeapBlock

end Monios.Library
