import Monios.Library.Climb
import Monios.Analysis.ChainSoundness

/-!
# The order of a certificate chain

`x509_verify_chain` climbs the presented list (`verifyChain_eq`): from a certificate it goes on to
the first one left that has the issuer's name and whose key verifies the signature, and never comes
back to try another one. `climber` says what it asks of the certificates on the way, which includes
a count of the CA certificates of the whole list.
-/

set_option autoImplicit false

namespace Monios.Analysis.ChainOrder

open Monios.Library Monios.Model Monios.Analysis.ChainSoundness

def issues (P : Primitives) (c j : Cert) : Bool :=
  x509CheckNameMatch j.subject c.issuer && x509VerifySignature P c j

/-- A path from the first certificate of a list to a certificate of the trust store, through a part
of the others, with a root of the store at its end or without.  A constraint on the length counts
the CA certificates between the first certificate and the one with the constraint. -/
structure ValidPath (P : Primitives) (currentTime : Nat) (store : List Cert) (c : Cert)
  (rest issuers : List Cert) : Prop where
  presented : issuers.Subperm rest ∨ ∃ front root, issuers = front ++ [root] ∧ front.Subperm rest ∧ root ∈ store
  linked : (c :: issuers).IsChain fun c j => issues P c j = true
  isCa : ∀ j ∈ issuers, j.isCa = true
  pathLen : ∀ below j above, issuers = below ++ j :: above → 0 ≤ j.pathLenConstraint →
    ((below.filter Cert.isCa).length : Int) ≤ j.pathLenConstraint
  valid : ∀ d ∈ c :: issuers, x509CheckValidity d currentTime = true
  anchored : ∃ root, (c :: issuers).getLast? = some root ∧ x509TrustContains store root = true

def otherCas (rest : List Cert) (j : Cert) : Nat := rest.countP Cert.isCa - j.isCa.toNat

def climber (P : Primitives) (currentTime : Nat) (store rest : List Cert) : Climber Cert where
  stop c := if x509CheckNameMatch c.subject c.issuer then some (x509TrustContains store c && x509VerifySignature P c c) else none
  next := issues P
  admits j := (j.isCa || x509TrustContains store j) &&
    !decide (0 ≤ j.pathLenConstraint ∧ j.pathLenConstraint < (otherCas rest j : Int))
  finish c :=
    match x509FindIssuer store c.issuer with
    | some root => x509CheckValidity root currentTime && x509VerifySignature P c root
    | none => false

theorem climber_perm (P : Primitives) (currentTime : Nat) (store : List Cert)
    {rest rest' : List Cert} (h : rest'.Perm rest) :
    climber P currentTime store rest' = climber P currentTime store rest := by
  unfold climber otherCas
  rw [h.countP_eq]

section

variable {P : Primitives} {currentTime : Nat} {store : List Cert} {c : Cert} {rest : List Cert}

def unvisited (certs : List Cert) (visited : List (Fin certs.length)) : List Cert :=
  ((List.finRange certs.length).filter fun j => !visited.contains j).map certs.get

theorem unvisited_first : unvisited (c :: rest) [⟨0, Nat.succ_pos _⟩] = rest := by
  have hall : ((List.finRange rest.length).map Fin.succ).filter
      (fun j : Fin (rest.length + 1) => !([⟨0, Nat.succ_pos _⟩] : List (Fin (rest.length + 1))).contains j) =
      (List.finRange rest.length).map Fin.succ := by
    rw [List.filter_eq_self]
    intro j hj
    obtain ⟨k, -, rfl⟩ := List.mem_map.mp hj
    simp [Fin.ext_iff]
  show ((List.finRange (rest.length + 1)).filter _).map _ = rest
  rw [List.finRange_succ, List.filter_cons_of_neg (by simp)]
  refine (congrArg (List.map (c :: rest).get) hall).trans ?_
  rw [List.map_map]
  exact List.map_get_finRange rest

theorem caBelow_eq {j : Fin (c :: rest).length} (hj : j.val ≠ 0) :
    caBelow (c :: rest) j = otherCas rest ((c :: rest).get j) := by
  obtain ⟨k, rfl⟩ := Fin.eq_succ_of_ne_zero (show j ≠ 0 from fun h => hj (congrArg Fin.val h))
  have hcount : caBelow (c :: rest) k.succ =
      (List.finRange rest.length).countP fun i => i != k && (rest.get i).isCa := by
    unfold caBelow
    rw [← List.countP_eq_length_filter]
    show (List.finRange (rest.length + 1)).countP _ = _
    rw [List.finRange_succ, List.countP_cons_of_neg (by simp), List.countP_map]
    refine List.countP_congr fun i _ => ?_
    simp [Fin.succ_ne_zero]
  have hall : rest.countP Cert.isCa = (List.finRange rest.length).countP fun i => (rest.get i).isCa := by
    conv_lhs => rw [← List.map_get_finRange rest]
    rw [List.countP_map]
    rfl
  have hsplit : (List.finRange rest.length).countP (fun i => (rest.get i).isCa) =
      (rest.get k).isCa.toNat + (List.finRange rest.length).countP fun i => i != k && (rest.get i).isCa := by
    have hperm := List.perm_cons_erase (List.mem_finRange k)
    have hrest : ((List.finRange rest.length).erase k).countP (fun i => i != k && (rest.get i).isCa) =
        ((List.finRange rest.length).erase k).countP fun i => (rest.get i).isCa := by
      refine List.countP_congr fun i hi => ?_
      have hne : i ≠ k := by
        rintro rfl
        exact (List.nodup_finRange _).not_mem_erase hi
      simp [hne]
    rw [hperm.countP_eq, hperm.countP_eq, List.countP_cons, List.countP_cons, hrest]
    cases (rest.get k).isCa <;> simp [Nat.add_comm]
  rw [hcount]
  show _ = otherCas rest (rest.get k)
  unfold otherCas
  omega

theorem eraseP_of_find? {α : Type} [DecidableEq α] {l : List α} {p : α → Bool} {a : α}
    (hl : l.Nodup) (h : l.find? p = some a) :
    l.eraseP p = l.filter fun b => b != a := by
  obtain ⟨ha, front, back, rfl, hfront⟩ := List.find?_eq_some_iff_append.mp h
  rw [List.nodup_append, List.nodup_cons] at hl
  obtain ⟨-, ⟨hback, -⟩, hdisjoint⟩ := hl
  rw [List.eraseP_append_right _ fun x hx => by simpa using hfront x hx,
    List.eraseP_cons_of_pos ha, List.filter_append,
    List.filter_cons_of_neg (by simp), List.filter_eq_self.mpr, List.filter_eq_self.mpr]
  · intro b hb
    rw [bne_iff_ne]
    rintro rfl
    exact hback hb
  · intro b hb
    rw [bne_iff_ne]
    exact hdisjoint b hb a List.mem_cons_self

theorem presented_iff {certs : List Cert} {i : Fin certs.length}
    {visited : List (Fin certs.length)} (k : Fin certs.length) :
    decide ((!(i :: visited).contains k) = true ∧ (issues P (certs.get i) ∘ certs.get) k = true) =
      isPresentedIssuer P certs (i :: visited) i k := by
  unfold isPresentedIssuer issues Function.comp
  by_cases hki : k = i
  · simp [hki]
  · simp [hki, Bool.and_assoc]

theorem unvisited_next {certs : List Cert} {i j : Fin certs.length}
    {visited : List (Fin certs.length)}
    (hj : (List.finRange certs.length).find? (isPresentedIssuer P certs (i :: visited) i) =
      some j) :
    (unvisited certs (i :: visited)).eraseP (issues P (certs.get i)) = unvisited certs
    (j :: i :: visited) := by
  have hfind : ((List.finRange certs.length).filter fun k => !(i :: visited).contains k).find?
      (issues P (certs.get i) ∘ certs.get) = some j := by
    rw [List.find?_filter, ← hj]
    exact congrArg (List.find? · _) (funext presented_iff)
  unfold unvisited
  rw [List.eraseP_map, eraseP_of_find? ((List.nodup_finRange _).filter _) hfind, List.filter_filter]
  congr 2
  funext k
  by_cases hkj : k = j
  · simp [hkj]
  · simp [hkj]

theorem verifyChainFrom_eq (depth : Nat) (i : Fin (c :: rest).length)
    (visited : List (Fin (c :: rest).length)) (hi : i ∉ visited)
    (hfirst : ∃ k ∈ i :: visited, k.val = 0) :
    verifyChainFrom P currentTime store (c :: rest) depth i visited =
      (climber P currentTime store rest).climb depth ((c :: rest).get i)
        (unvisited (c :: rest) (i :: visited)) := by
  induction depth generalizing i visited with
  | zero => rfl
  | succ depth ih =>
    have hcontains : visited.contains i = false := by simpa using hi
    have hfind : (unvisited (c :: rest) (i :: visited)).find? (issues P ((c :: rest).get i)) =
        ((List.finRange (c :: rest).length).find? (isPresentedIssuer P (c :: rest) (i :: visited) i)).map (c :: rest).get := by
      unfold unvisited
      rw [List.find?_map, List.find?_filter]
      congr 2
      funext j
      exact @presented_iff P (c :: rest) i _ j
    unfold verifyChainFrom Climber.climb
    rw [hcontains, if_neg Bool.false_ne_true, show (climber P currentTime store rest).next = issues P from rfl, hfind]
    dsimp only
    by_cases hself : x509CheckNameMatch ((c :: rest).get i).subject ((c :: rest).get i).issuer = true
    · rw [if_pos hself, show (climber P currentTime store rest).stop ((c :: rest).get i) = _ from if_pos hself]
    · rw [if_neg hself, show (climber P currentTime store rest).stop ((c :: rest).get i) = _ from if_neg hself]
      dsimp only
      cases hj : (List.finRange (c :: rest).length).find? (isPresentedIssuer P (c :: rest) (i :: visited) i) with
      | none => rfl
      | some j =>
        have hpresented := List.find?_some hj
        unfold isPresentedIssuer at hpresented
        simp only [Bool.and_eq_true, Bool.not_eq_true', List.contains_eq_mem,
          decide_eq_false_iff_not] at hpresented
        have hj0 : j.val ≠ 0 := by
          intro h0
          obtain ⟨k, hk, hk0⟩ := hfirst
          exact hpresented.1.1.2 ((Fin.ext (h0.trans hk0.symm) : j = k) ▸ hk)
        obtain ⟨k, hk, hk0⟩ := hfirst
        rw [Option.map_some, unvisited_next hj]
        dsimp only
        rw [ih j (i :: visited) hpresented.1.1.2 ⟨k, List.mem_cons_of_mem _ hk, hk0⟩,
          caBelow_eq hj0]
        show _ = if (((c :: rest).get j).isCa || x509TrustContains store ((c :: rest).get j)) &&
          !decide (0 ≤ ((c :: rest).get j).pathLenConstraint ∧
            ((c :: rest).get j).pathLenConstraint < (otherCas rest ((c :: rest).get j) : Int)) then _ else false
        generalize (c :: rest).get j = issuer
        by_cases hca : (!issuer.isCa && !x509TrustContains store issuer) = true
        · rw [if_pos hca, if_neg]
          simp at hca ⊢
          simp [hca]
        · rw [if_neg hca]
          by_cases hlen : 0 ≤ issuer.pathLenConstraint ∧ issuer.pathLenConstraint < (otherCas rest issuer : Int)
          · rw [if_pos hlen, if_neg]
            simp [hlen]
          · rw [if_neg hlen, if_pos]
            rw [decide_eq_false hlen]
            simpa [Bool.or_eq_true, or_iff_not_imp_left] using hca

end

theorem inDate_perm {currentTime : Nat} {store : List Cert} {c : Cert} {rest rest' : List Cert}
    (h : rest'.Perm rest) :
    InDate currentTime store (c :: rest') ↔ InDate currentTime store (c :: rest) := by
  unfold InDate
  rw [(h.cons c).length_eq]
  refine and_congr_right' (and_congr_right' (and_congr_right' ⟨fun hall d hd => ?_, fun hall d hd => ?_⟩))
  · exact hall d ((h.cons c).mem_iff.mpr hd)
  · exact hall d ((h.cons c).mem_iff.mp hd)

theorem verifyChain_iff (P : Primitives) (now : RtcTime) (store : List Cert) (c : Cert)
    (rest : List Cert) :
    x509VerifyChain P now (c :: rest) store = true ↔
      InDate (x509CurrentTime now) store (c :: rest) ∧
      (climber P (x509CurrentTime now) store rest).climb (rest.length + 1) c rest = true := by
  have hloop := @verifyChainFrom_eq P (x509CurrentTime now) store c rest (rest.length + 1)
    (⟨0, Nat.succ_pos _⟩ : Fin (c :: rest).length) [] List.not_mem_nil ⟨_, List.mem_cons_self, rfl⟩
  rw [unvisited_first] at hloop
  unfold x509VerifyChain InDate
  dsimp only
  rw [dif_pos (show 0 < (c :: rest).length from Nat.succ_pos _)]
  simp only [Bool.and_eq_true, decide_eq_true_eq, List.all_eq_true, and_assoc]
  refine and_congr_right' (and_congr_right' (and_congr_right' (and_congr_right' ?_)))
  exact (congrArg (· = true) hloop).to_iff

def Leads (P : Primitives) (currentTime : Nat) (store : List Cert) (c : Cert) (rest : List Cert)
    (answer : Bool) : Prop :=
  (climber P currentTime store rest).Climbs c rest answer

/-- The answer is the same for every order of the certificates behind the first one, and it is
acceptance whenever a part of them forms a valid path, if and only if one of two things is the case:
all checks before the loop succeed, and all ways up the list lead to acceptance; or there is no
valid path, and the checks fail or all ways up the list lead to the same answer. -/
theorem verifyChain_order_iff (P : Primitives) (now : RtcTime) (store : List Cert) (c : Cert)
    (rest : List Cert) :
    ((∀ rest', rest'.Perm rest →
      x509VerifyChain P now (c :: rest') store = x509VerifyChain P now (c :: rest) store) ∧
      ((∃ issuers, ValidPath P (x509CurrentTime now) store c rest issuers) →
        x509VerifyChain P now (c :: rest) store = true)) ↔
    (InDate (x509CurrentTime now) store (c :: rest) ∧
      ¬ Leads P (x509CurrentTime now) store c rest false) ∨
      ((¬ ∃ issuers, ValidPath P (x509CurrentTime now) store c rest issuers) ∧
        (InDate (x509CurrentTime now) store (c :: rest) →
          ¬ (Leads P (x509CurrentTime now) store c rest true ∧
            Leads P (x509CurrentTime now) store c rest false))) := by
  have hiff := fun rest' => verifyChain_iff P now store c rest'
  have hclimbs := Climber.climbs_climb (C := climber P (x509CurrentTime now) store rest) (a := c) (Nat.lt_succ_self rest.length)
  have hperm := Climber.climb_perm_iff (C := climber P (x509CurrentTime now) store rest) (a := c) (Nat.lt_succ_self rest.length)
  have hrest : ∀ rest', rest'.Perm rest → (x509VerifyChain P now (c :: rest') store = true ↔
      InDate (x509CurrentTime now) store (c :: rest) ∧
        (climber P (x509CurrentTime now) store rest).climb (rest.length + 1) c rest' = true) := by
    intro rest' h
    rw [hiff, inDate_perm h, climber_perm P _ store h, h.length_eq]
  have hself := hrest rest (.refl _)
  -- the order does not matter when a check fails, and otherwise when all ways lead to one answer
  have horder : (∀ rest', rest'.Perm rest → x509VerifyChain P now (c :: rest') store = x509VerifyChain P now (c :: rest) store) ↔
      (InDate (x509CurrentTime now) store (c :: rest) →
        ¬ (Leads P (x509CurrentTime now) store c rest true ∧ Leads P (x509CurrentTime now) store c rest false)) := by
    refine Iff.trans ?_ (forall_congr' fun _ => hperm)
    constructor
    · intro hall hdate rest' h
      have heq := Bool.eq_iff_iff.mp (hall rest' h)
      rw [hrest rest' h, hself, and_iff_right hdate, and_iff_right hdate] at heq
      exact Bool.eq_iff_iff.mpr heq
    · intro hall rest' h
      rw [Bool.eq_iff_iff, hrest rest' h, hself]
      exact and_congr_right fun hdate => Bool.eq_iff_iff.mp (hall hdate rest' h)
  rw [horder]
  constructor
  · rintro ⟨hsame, hfound⟩
    by_cases hvalid : ∃ issuers, ValidPath P (x509CurrentTime now) store c rest issuers
    · obtain ⟨hdate, haccept⟩ := hself.mp (hfound hvalid)
      rw [haccept] at hclimbs
      exact .inl ⟨hdate, fun hfalse => hsame hdate ⟨hclimbs, hfalse⟩⟩
    · exact .inr ⟨hvalid, hsame⟩
  · rintro (⟨hdate, hfalse⟩ | ⟨hvalid, hsame⟩)
    · refine ⟨fun _ hboth => hfalse hboth.2, fun _ => hself.mpr ⟨hdate, ?_⟩⟩
      by_contra hnot
      rw [Bool.not_eq_true] at hnot
      rw [hnot] at hclimbs
      exact hfalse hclimbs
    · exact ⟨hsame, fun hpath => absurd hpath hvalid⟩

/-- A certificate of `L` by `A`, two of `A` by the root, one with and one without the CA flag, and
the root. -/
def leaf : Cert := sampleCert 1 0x41 0x4C false

def intermediateCa : Cert := sampleCert 2 0x52 0x41 true

def intermediatePlain : Cert := sampleCert 3 0x52 0x41 false

def root : Cert := sampleCert 0 0x52 0x52 true

theorem not_verifyChain_order :
    ¬ ∀ (P : Primitives) (now : RtcTime) (store : List Cert) (c : Cert) (rest : List Cert),
      (∀ rest', rest'.Perm rest →
        x509VerifyChain P now (c :: rest') store = x509VerifyChain P now (c :: rest) store) ∧
      ((∃ issuers, ValidPath P (x509CurrentTime now) store c rest issuers) →
        x509VerifyChain P now (c :: rest) store = true) := by
  intro hall
  have hsame := (hall samplePrimitives sampleTime [root] leaf [intermediateCa, intermediatePlain]).1
    [intermediatePlain, intermediateCa] (.swap _ _ _)
  exact absurd hsame (by decide)

end Monios.Analysis.ChainOrder
