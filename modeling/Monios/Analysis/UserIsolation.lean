import Monios.Model.Uac
import Mathlib.Data.List.TakeWhile

/-!
# User isolation

What `uac_can_access` answers on the paths that `path_resolve` produces. Such a path is a drive,
`:\` and components of at most 63 bytes (`pathResolve_canonical`).
-/

set_option autoImplicit false

namespace Monios.Analysis

open Monios.Model

structure GoodComponent (c : List UInt8) : Prop where
  ne_nil : c ≠ []
  short : c.length < 64
  no_separator : pathSeparator ∉ c
  no_slash : (0x2F : UInt8) ∉ c
  no_zero : (0 : UInt8) ∉ c

def canonicalPath (drive : UInt8) (components : List (List UInt8)) : List UInt8 :=
  drive :: 0x3A :: pathSeparator :: [pathSeparator].intercalate components

def pathComponents (path : List UInt8) : List (List UInt8) :=
  if (path.drop 3).isEmpty then [] else (path.drop 3).splitOn pathSeparator

inductive Built (drive : UInt8) : List (List UInt8) → List UInt8 × List Nat → Prop
  | start : Built drive [] (canonicalPath drive [], [])
  | append {components : List (List UInt8)} {output : List UInt8} {previousLengths : List Nat} {c : List UInt8}
      (h : Built drive components (output, previousLengths)) (hc : GoodComponent c) :
      Built drive (components ++ [c])
        (if 3 < output.length then output ++ pathSeparator :: c else output ++ c, output.length :: previousLengths)

section

variable {drive : UInt8} {components : List (List UInt8)} {c : List UInt8}

theorem intercalate_concat (sep : List UInt8) (hne : components ≠ []) :
    sep.intercalate (components ++ [c]) = sep.intercalate components ++ (sep ++ c) := by
  induction components with
  | nil => exact absurd rfl hne
  | cons d rest ih =>
    cases rest with
    | nil => simp [List.intercalate]
    | cons e rest =>
      have ih := ih (by simp)
      simp only [List.cons_append, List.intercalate_cons_cons, List.append_assoc] at ih ⊢
      rw [ih]

theorem Built.good {state : List UInt8 × List Nat} (h : Built drive components state) :
    ∀ c ∈ components, GoodComponent c := by
  induction h with
  | start => simp
  | append h hc ih =>
    intro d hd
    rcases List.mem_append.mp hd with hd | hd
    · exact ih d hd
    · exact List.mem_singleton.mp hd ▸ hc

theorem Built.output_eq {state : List UInt8 × List Nat} (h : Built drive components state) :
    state.1 = canonicalPath drive components := by
  induction h with
  | start => rfl
  | @append components output previousLengths c h hc ih =>
    simp only at ih
    subst ih
    unfold canonicalPath
    cases components with
    | nil => simp [List.intercalate]
    | cons d rest =>
      have hd := (h.good d List.mem_cons_self).ne_nil
      have hpos : 0 < ([pathSeparator].intercalate (d :: rest)).length := by
        cases rest with
        | nil => simpa [List.intercalate, List.length_pos_iff] using hd
        | cons e rest =>
          simp only [List.intercalate_cons_cons, List.length_append, List.length_singleton]
          omega
      rw [if_pos (by simpa using hpos), intercalate_concat _ (by simp)]
      simp

theorem Built.up {output : List UInt8} {length : Nat} {previousLengths : List Nat}
    (h : Built drive components (output, length :: previousLengths)) :
    ∃ parents, Built drive parents (output.take length, previousLengths) := by
  generalize hstate : (output, length :: previousLengths) = state at h
  cases h with
  | start => simp at hstate
  | @append parents _ _ _ h hc =>
    simp only [Prod.mk.injEq, List.cons.injEq] at hstate
    obtain ⟨rfl, rfl, rfl⟩ := hstate
    refine ⟨parents, ?_⟩
    split
    · rw [List.take_left]
      exact h
    · rw [List.take_left]
      exact h

theorem pathAppend_eq {outputSize : Nat} {component output output' : List UInt8}
    (h : pathAppend outputSize component output = some output') :
    output' = if 3 < output.length then output ++ pathSeparator :: component else output ++
      component := by
  unfold pathAppend at h
  split at h
  · next hlen =>
      rw [if_pos hlen]
      split at h
      · simp at h
      · split at h
        · simp at h
        · exact (Option.some.inj h).symm
  · next hlen =>
      rw [if_neg hlen]
      split at h
      · simp at h
      · exact (Option.some.inj h).symm

theorem goodComponent_takeWhile {path : List UInt8} (hslash : (0x2F : UInt8) ∉ path)
    (hzero : (0 : UInt8) ∉ path) (hne : (path.dropWhile (· == pathSeparator)).isEmpty = false)
    (hshort : ((path.dropWhile (· == pathSeparator)).takeWhile (· != pathSeparator)).length < 64) :
    GoodComponent ((path.dropWhile (· == pathSeparator)).takeWhile (· != pathSeparator)) := by
  have hsub : ∀ x, x ∈ (path.dropWhile (· == pathSeparator)).takeWhile (· != pathSeparator) →
      x ∈ path := fun x hx =>
    (List.dropWhile_sublist _).subset ((List.takeWhile_sublist _).subset hx)
  refine ⟨?_, hshort, ?_, fun h => hslash (hsub _ h), fun h => hzero (hsub _ h)⟩
  · cases hdrop : path.dropWhile (· == pathSeparator) with
    | nil => simp [hdrop] at hne
    | cons x rest =>
      have hx : (x == pathSeparator) = false := by
        have := List.head?_dropWhile_not (· == pathSeparator) path
        simpa [hdrop] using this
      simp only [beq_eq_false_iff_ne] at hx
      simp [hx]
  · intro hmem
    have := List.mem_takeWhile_imp hmem
    simp at this

theorem pathProcessStream_built {outputSize rounds : Nat} {path : List UInt8}
    {state state' : List UInt8 × List Nat} (hslash : (0x2F : UInt8) ∉ path)
    (hzero : (0 : UInt8) ∉ path) (h : Built drive components state)
    (hrun : pathProcessStream outputSize rounds path state = some state') :
    ∃ components', Built drive components' state' := by
  induction rounds generalizing path components state with
  | zero => simp [pathProcessStream] at hrun
  | succ rounds ih =>
    obtain ⟨output, previousLengths⟩ := state
    have hrest : ∀ x, x ∈ (path.dropWhile (· == pathSeparator)).drop
        ((path.dropWhile (· == pathSeparator)).takeWhile (· != pathSeparator)).length → x ∈ path := fun x hx =>
      (List.dropWhile_sublist _).subset ((List.drop_sublist _ _).subset hx)
    have hslash' := fun hx => hslash (hrest _ hx)
    have hzero' := fun hx => hzero (hrest _ hx)
    simp only [pathProcessStream] at hrun
    split at hrun
    · exact ⟨components, Option.some.inj hrun ▸ h⟩
    · next hne =>
        split at hrun
        · simp at hrun
        · next hshort =>
            have hgood := goodComponent_takeWhile hslash hzero (Bool.eq_false_iff.mpr hne) (Nat.not_le.mp hshort)
            split at hrun
            · exact ih hslash' hzero' h hrun
            · split at hrun
              · cases previousLengths with
                | nil => exact ih hslash' hzero' h hrun
                | cons length previousLengths =>
                  obtain ⟨parents, hparents⟩ := h.up
                  exact ih hslash' hzero' hparents hrun
              · split at hrun
                · simp at hrun
                · split at hrun
                  · simp at hrun
                  · next output' happend =>
                      rw [pathAppend_eq happend] at hrun
                      exact ih hslash' hzero' (h.append hgood) hrun

theorem pathResolve_canonical {base input : CString} {outputSize : Nat} {path : List UInt8}
    (h : pathResolve base input outputSize = some path) :
    ∃ drive components, (∀ c ∈ components, GoodComponent c) ∧
      path = canonicalPath drive components := by
  obtain ⟨base, hbase⟩ := base
  obtain ⟨input, hinput⟩ := input
  have hdrop : ∀ {x : UInt8} {l : List UInt8}, x ∉ l → x ∉ pathAfterDrivePrefix l := by
    intro x l hx hmem
    unfold pathAfterDrivePrefix at hmem
    split at hmem
    · exact hx (List.mem_of_mem_drop hmem)
    · exact hx hmem
  simp only [pathResolve] at h
  split at h
  · simp at h
  · next hcheck =>
      simp only [Bool.or_eq_true, decide_eq_true_eq, List.contains_iff_mem, not_or] at hcheck
      obtain ⟨⟨-, hinSlash⟩, hbaseSlash⟩ := hcheck
      have hfinish : ∀ {drive : UInt8} {cs : List (List UInt8)} {state : List UInt8 × List Nat},
          Built drive cs state → ∃ drive components, (∀ c ∈ components, GoodComponent c) ∧
            state.1 = canonicalPath drive components := fun hb => ⟨_, _, hb.good, hb.output_eq⟩
      split at h
      · obtain ⟨state, hrun, rfl⟩ := Option.map_eq_some_iff.mp h
        obtain ⟨cs, hcs⟩ := pathProcessStream_built (hdrop hinSlash) (hdrop hinput) .start hrun
        exact hfinish hcs
      · split at h
        · obtain ⟨state, hrun, rfl⟩ := Option.map_eq_some_iff.mp h
          obtain ⟨middle, hfirst, hsecond⟩ := Option.bind_eq_some_iff.mp hrun
          obtain ⟨cs, hcs⟩ := pathProcessStream_built (hdrop hbaseSlash) (hdrop hbase) .start hfirst
          obtain ⟨cs', hcs'⟩ := pathProcessStream_built hinSlash hinput hcs hsecond
          exact hfinish hcs'
        · obtain ⟨state, hrun, rfl⟩ := Option.map_eq_some_iff.mp h
          obtain ⟨cs, hcs⟩ := pathProcessStream_built hinSlash hinput .start hrun
          exact hfinish hcs

def sameName (a b : List UInt8) : Bool := a.map toLowerChar == b.map toLowerChar

def moniosName : List UInt8 := [0x4D, 0x6F, 0x6E, 0x69, 0x6F, 0x73]

def systemName : List UInt8 := [0x53, 0x79, 0x73, 0x74, 0x65, 0x6D]

def usersName : List UInt8 := [0x55, 0x73, 0x65, 0x72, 0x73]

/-- What is to be kept from a user who is no administrator: writing below `X:\Monios\System`, and
everything below `X:\Monios\Users` but the directory with the user's own name. -/
def uacProtects (user : List UInt8) (write : Bool) : List (List UInt8) → Bool
  | a :: b :: c :: _ =>
    sameName a moniosName && (sameName b systemName && write || sameName b usersName && !sameName c user)
  | _ => false

theorem toLowerChar_eq {c d : UInt8} (hd : d < 0x61) (h : toLowerChar c = d) : c = d := by
  unfold toLowerChar at h
  split at h
  · next hc =>
      exfalso
      simp only [UInt8.le_iff_toNat_le, UInt8.lt_iff_toNat_lt, ← UInt8.toNat_inj, UInt8.toNat_add,
        UInt8.reduceToNat] at hc hd h
      omega
  · exact h

theorem uacMatch_directory {q start body after : List UInt8} (hq : (0x5C : UInt8) ∉ q)
    (hbody : (0x2F : UInt8) ∉ body) :
    uacMatch (q ++ 0x5C :: start) body = some after ↔
      ∃ name rest, body = name ++ 0x5C :: rest ∧ name.map toLowerChar = q.map toLowerChar ∧
        uacMatch start rest = some after := by
  induction q generalizing body with
  | nil =>
    cases body with
    | nil => simp [uacMatch]
    | cons x body =>
      simp only [List.mem_cons, not_or] at hbody
      by_cases hx : x = 0x5C
      · subst hx
        simp only [List.nil_append, uacMatch, if_true, ne_eq, not_true_eq_false, false_and,
          if_false]
        constructor
        · intro h
          exact ⟨[], body, rfl, rfl, h⟩
        · rintro ⟨name, rest, heq, hname, h⟩
          obtain rfl : name = [] := by simpa using hname
          simp only [List.nil_append, List.cons.injEq, true_and] at heq
          exact heq ▸ h
      · simp only [List.nil_append, uacMatch, if_true, ne_eq, hx, not_false_eq_true,
          Ne.symm hbody.1, and_self,
          reduceCtorEq, false_iff]
        rintro ⟨name, rest, heq, hname, -⟩
        obtain rfl : name = [] := by simpa using hname
        simp only [List.nil_append, List.cons.injEq] at heq
        exact hx heq.1
  | cons e q ih =>
    simp only [List.mem_cons, not_or] at hq
    cases body with
    | nil => simp [uacMatch]
    | cons x body =>
      simp only [List.mem_cons, not_or] at hbody
      simp only [List.cons_append, uacMatch, if_neg (Ne.symm hq.1)]
      by_cases hx : toLowerChar x = toLowerChar e
      · simp only [hx, ne_eq, not_true_eq_false, if_false]
        rw [ih hq.2 hbody.2]
        constructor
        · rintro ⟨name, rest, rfl, hname, h⟩
          exact ⟨x :: name, rest, rfl, by simp [hx, hname], h⟩
        · rintro ⟨name, rest, heq, hname, h⟩
          cases name with
          | nil => simp at hname
          | cons y name =>
            simp only [List.cons_append, List.cons.injEq] at heq
            simp only [List.map_cons, List.cons.injEq] at hname
            exact ⟨name, rest, heq.2, hname.2, h⟩
      · simp only [ne_eq, hx, not_false_eq_true, if_true, reduceCtorEq, false_iff]
        rintro ⟨name, rest, heq, hname, -⟩
        cases name with
        | nil => simp at hname
        | cons y name =>
          simp only [List.cons_append, List.cons.injEq] at heq
          simp only [List.map_cons, List.cons.injEq] at hname
          exact hx (heq.1 ▸ hname.1)

theorem components_eq_cons {name rest : List UInt8} (hgood : ∀ c ∈ components, GoodComponent c)
    (hname : (0x5C : UInt8) ∉ name)
    (h : [pathSeparator].intercalate components = name ++ 0x5C :: rest) :
    components = name :: rest.splitOn pathSeparator := by
  have hne : components ≠ [] := by
    rintro rfl
    simp [List.intercalate] at h
  have hsplit := List.splitOn_intercalate pathSeparator (fun l hl => (hgood l hl).no_separator) hne
  rw [h] at hsplit
  rw [← hsplit]
  exact List.splitOn_append_cons_self_of_not_mem hname rest

theorem not_mem_intercalate {x : UInt8} (hx : x ≠ pathSeparator) (h : ∀ c ∈ components, x ∉ c) :
    x ∉ [pathSeparator].intercalate components := by
  induction components with
  | nil => simp [List.intercalate]
  | cons d rest ih =>
    have hd := h d List.mem_cons_self
    have ih := ih fun c hc => h c (List.mem_cons_of_mem _ hc)
    cases rest with
    | nil => simpa [List.intercalate] using hd
    | cons e rest =>
      rw [List.intercalate_cons_cons]
      simp only [List.mem_append, List.mem_singleton, not_or]
      exact ⟨⟨hd, hx⟩, ih⟩

theorem separator_not_mem {name q : List UInt8} (hq : (0x5C : UInt8) ∉ q)
    (h : name.map toLowerChar = q.map toLowerChar) : (0x5C : UInt8) ∉ name := by
  intro hmem
  have hlower : (0x5C : UInt8) ∈ q.map toLowerChar := h ▸ List.mem_map.mpr ⟨0x5C, hmem, rfl⟩
  obtain ⟨e, he, hee⟩ := List.mem_map.mp hlower
  exact hq (toLowerChar_eq (by decide) hee ▸ he)

theorem eq_colon {name : List UInt8} (h : name.map toLowerChar = [0x3A]) : name = [0x3A] := by
  obtain ⟨x, rfl, hx⟩ := List.map_eq_singleton_iff.mp h
  rw [toLowerChar_eq (by decide) hx]

theorem uacMatch_iff {q after : List UInt8} (hq : (0x5C : UInt8) ∉ q)
    (hgood : ∀ c ∈ components, GoodComponent c) :
    uacMatch ([0x3A] ++ 0x5C :: (moniosName ++ 0x5C :: (q ++ [0x5C])))
      ([pathSeparator].intercalate components) =
        some after ↔
      ∃ a b tail, components = [0x3A] :: a :: b :: tail ∧ tail ≠ [] ∧
      after = [pathSeparator].intercalate tail ∧
        sameName a moniosName = true ∧ sameName b q = true := by
  have hslash : (0x2F : UInt8) ∉ [pathSeparator].intercalate components :=
    not_mem_intercalate (by decide) fun c hc => (hgood c hc).no_slash
  have hcolon : (0x5C : UInt8) ∉ [(0x3A : UInt8)] := by decide
  have hmonios : (0x5C : UInt8) ∉ moniosName := by decide
  rw [uacMatch_directory hcolon hslash]
  constructor
  · rintro ⟨n₁, r₁, h₁, hn₁, hmatch⟩
    have hs₁ : (0x2F : UInt8) ∉ r₁ := fun h => hslash (by rw [h₁]; simp [h])
    obtain ⟨n₂, r₂, rfl, hn₂, hmatch⟩ := (uacMatch_directory hmonios hs₁).mp hmatch
    have hs₂ : (0x2F : UInt8) ∉ r₂ := fun h => hs₁ (by simp [h])
    obtain ⟨n₃, r₃, rfl, hn₃, hmatch⟩ := (uacMatch_directory hq hs₂).mp hmatch
    have hcomps := components_eq_cons hgood (separator_not_mem hcolon hn₁) h₁
    have hsplit : ∀ {name : List UInt8} (rest : List UInt8), (0x5C : UInt8) ∉ name →
        List.splitOn pathSeparator (name ++ 0x5C :: rest) = name :: rest.splitOn pathSeparator :=
      fun rest hname => List.splitOn_append_cons_self_of_not_mem (a := pathSeparator) hname rest
    rw [hsplit _ (separator_not_mem hmonios hn₂), hsplit _ (separator_not_mem hq hn₃),
      eq_colon hn₁] at hcomps
    refine ⟨n₂, n₃, r₃.splitOn pathSeparator, hcomps, List.splitOn_ne_nil _ _, ?_, ?_, ?_⟩
    · rw [List.intercalate_splitOn]
      exact (Option.some.inj hmatch).symm
    · exact beq_iff_eq.mpr hn₂
    · exact beq_iff_eq.mpr hn₃
  · rintro ⟨a, b, tail, rfl, htail, rfl, ha, hb⟩
    obtain ⟨c, rest, rfl⟩ := List.exists_cons_of_ne_nil htail
    simp only [List.intercalate_cons_cons] at hslash ⊢
    refine ⟨[0x3A], a ++ 0x5C :: (b ++ 0x5C :: [pathSeparator].intercalate (c :: rest)),
      by simp [pathSeparator], rfl, ?_⟩
    simp only [List.mem_append, not_or] at hslash
    rw [uacMatch_directory hmonios (by simp [hslash])]
    refine ⟨a, _, rfl, beq_iff_eq.mp ha, ?_⟩
    rw [uacMatch_directory hq (by simp [hslash])]
    exact ⟨b, _, rfl, beq_iff_eq.mp hb, rfl⟩

def below (q : List UInt8) : List (List UInt8) → Bool
  | x :: a :: b :: _ :: _ => x == [0x3A] && sameName a moniosName && sameName b q
  | _ => false

theorem uacMatch_below {q : List UInt8} (hq : (0x5C : UInt8) ∉ q)
    (hgood : ∀ c ∈ components, GoodComponent c) :
    uacMatch ([0x3A] ++ 0x5C :: (moniosName ++ 0x5C :: (q ++ [0x5C])))
      ([pathSeparator].intercalate components) =
      if below q components then some
        ([pathSeparator].intercalate (components.drop 3)) else none := by
  cases hmatch : uacMatch ([0x3A] ++ 0x5C :: (moniosName ++ 0x5C :: (q ++ [0x5C])))
      ([pathSeparator].intercalate components) with
  | some after =>
    obtain ⟨a, b, tail, rfl, htail, rfl, ha, hb⟩ := (uacMatch_iff hq hgood).mp hmatch
    obtain ⟨c, rest, rfl⟩ := List.exists_cons_of_ne_nil htail
    simp [below, ha, hb]
  | none =>
    rw [if_neg]
    intro hbelow
    match components, hbelow with
    | x :: a :: b :: c :: rest, hbelow =>
      simp only [below, Bool.and_eq_true, beq_iff_eq] at hbelow
      obtain ⟨⟨rfl, ha⟩, hb⟩ := hbelow
      have := (uacMatch_iff hq hgood).mpr ⟨a, b, c :: rest, rfl, by simp, rfl, ha, hb⟩
      rw [hmatch] at this
      cases this

theorem extractOwner_eq {tail : List (List UInt8)} (hc : GoodComponent c) :
    extractOwner ([pathSeparator].intercalate (c :: tail)) 64 = c.map toLowerChar := by
  have htake : ([pathSeparator].intercalate (c :: tail)).takeWhile
      (fun x => x != 0 && x != 0x5C && x != 0x2F) = c := by
    have hall : ∀ x ∈ c, (x != 0 && x != 0x5C && x != 0x2F) = true := by
      intro x hx
      simp only [Bool.and_eq_true, bne_iff_ne]
      refine ⟨⟨fun h => hc.no_zero (h ▸ hx), fun h => hc.no_separator ?_⟩,
        fun h => hc.no_slash (h ▸ hx)⟩
      exact (h ▸ hx : (0x5C : UInt8) ∈ c)
    cases tail with
    | nil => simpa [List.intercalate] using hall
    | cons d tail =>
      rw [List.intercalate_cons_cons, List.append_assoc, List.takeWhile_append_of_pos hall]
      simp [pathSeparator]
  unfold extractOwner
  rw [htake, List.take_of_length_le (by have := hc.short; omega)]

end

variable {g : Uac} {drive : UInt8} {components : List (List UInt8)}

theorem uacCanAccess_canonical (huser : g.user ≠ []) (hadmin : g.isAdmin = false)
    (hgood : ∀ c ∈ components, GoodComponent c) (write : Bool) :
    uacCanAccess g (canonicalPath drive components) write =
      !(components.head? == some [0x3A] && uacProtects g.user write components.tail) := by
  have hsystem : pathHasSystemPrefix (canonicalPath drive components) =
      below systemName components := by
    have h := uacMatch_below (q := systemName) (by decide) hgood
    unfold pathHasSystemPrefix
    rw [show pathAfterPrefix systemPrefix (canonicalPath drive components) = _ from h]
    cases below systemName components <;> rfl
  have husers : pathAfterUsersPrefix (canonicalPath drive components) = _ :=
    uacMatch_below (q := usersName) (by decide) hgood
  unfold uacCanAccess
  rw [if_neg (by simpa using huser), hadmin, hsystem, husers]
  match components, hgood with
  | [], _ => simp [below]
  | [x], _ => simp [below, uacProtects]
  | [x, a], _ => simp [below, uacProtects]
  | [x, a, b], _ => simp [below, uacProtects]
  | x :: a :: b :: c :: rest, hgood =>
    have hc := hgood c (by simp)
    have hne : (c.map toLowerChar).isEmpty = false := by simpa using hc.ne_nil
    have howner : extractOwner ([pathSeparator].intercalate (List.drop 3 (x :: a :: b :: c :: rest))) 64 =
        c.map toLowerChar := extractOwner_eq hc
    by_cases hx : x = [0x3A]
    · subst hx
      cases ha : sameName a moniosName with
      | false => simp [below, uacProtects, ha]
      | true =>
        cases hs : sameName b systemName && write with
        | true =>
          simp only [Bool.and_eq_true] at hs
          simp [below, uacProtects, ha, hs.1, hs.2]
        | false =>
          have hs' : (write && below systemName ([0x3A] :: a :: b :: c :: rest)) = false := by
            rw [← hs, Bool.and_comm]
            simp [below, ha]
          rw [hs']
          cases hb : sameName b usersName with
          | false => simp [below, uacProtects, ha, hs, hb]
          | true =>
            have hbelow : below usersName ([0x3A] :: a :: b :: c :: rest) = true := by
              simp [below, ha, hb]
            have hown : (c.map toLowerChar == g.user.map toLowerChar) = sameName c g.user := rfl
            simp only [hbelow, if_true, howner, hne, hown]
            simp [uacProtects, ha, hb, hs]
    · simp [below, hx]

def Isolates (g : Uac) (path : List UInt8) (write : Bool) : Prop :=
  uacCanAccess g path write = !uacProtects g.user write (pathComponents path)

theorem pathComponents_canonicalPath (hgood : ∀ c ∈ components, GoodComponent c) :
    pathComponents (canonicalPath drive components) = components := by
  show (if ([pathSeparator].intercalate components).isEmpty then [] else _) = _
  cases components with
  | nil => simp [List.intercalate]
  | cons c rest =>
    have hsplit : List.splitOn pathSeparator ([pathSeparator].intercalate (c :: rest)) =
        c :: rest :=
      List.splitOn_intercalate pathSeparator (fun l hl => (hgood l hl).no_separator) (by simp)
    have hne : ([pathSeparator].intercalate (c :: rest)).isEmpty = false := by
      cases h : [pathSeparator].intercalate (c :: rest) with
      | nil =>
        rw [h, List.splitOn_nil] at hsplit
        simp only [List.cons.injEq] at hsplit
        exact absurd hsplit.1.symm (hgood c List.mem_cons_self).ne_nil
      | cons x l => rfl
    rw [hne]
    exact hsplit

/-- The user is isolated on exactly the paths to which there is nothing to deny, neither by the rule
nor by the same rule below a directory with the name `:`. -/
theorem isolates_iff (username : CString) (hname : username.val ≠ []) (base input : CString)
    (outputSize : Nat) (path : List UInt8) (hpath : pathResolve base input outputSize = some path)
    (write : Bool) :
    Isolates (uacSetUser username false) path write ↔
      uacProtects (uacSetUser username false).user write (pathComponents path) = false ∧
        ((pathComponents path).head? = some [0x3A] →
          uacProtects (uacSetUser username false).user write (pathComponents path).tail =
          false) := by
  obtain ⟨drive, components, hgood, rfl⟩ := pathResolve_canonical hpath
  have huser : (uacSetUser username false).user ≠ [] := by
    simpa [uacSetUser] using hname
  unfold Isolates
  rw [uacCanAccess_canonical huser rfl hgood, pathComponents_canonicalPath hgood]
  -- below a directory with the name `:` the rule itself has nothing to deny
  have hcolon : components.head? = some [0x3A] →
      uacProtects (uacSetUser username false).user write components = false := by
    intro h
    match components, h with
    | [], h => simp at h
    | [x], _ => rfl
    | [x, a], _ => rfl
    | x :: a :: b :: rest, h =>
      obtain rfl : x = [0x3A] := by simpa using h
      rfl
  by_cases h : components.head? = some [0x3A]
  · simp [h, hcolon h]
  · have hhead : (components.head? == some [0x3A]) = false := by simpa using h
    rw [hhead]
    simp only [Bool.false_and, Bool.not_false, h, false_implies, and_true]
    cases uacProtects (uacSetUser username false).user write components <;> simp

def bobName : CString := ⟨[0x62, 0x6F, 0x62], by decide⟩

def alicePath : CString :=
  ⟨[0x43, 0x3A, 0x5C, 0x4D, 0x6F, 0x6E, 0x69, 0x6F, 0x73, 0x5C, 0x55, 0x73, 0x65, 0x72, 0x73, 0x5C, 0x61, 0x6C], by decide⟩

/-- A path outside the protected directories is dealt with as it should be, one inside them is not.
-/
theorem isolates_bob :
    (pathResolve ⟨[], by decide⟩ ⟨[0x64, 0x3A, 0x5C, 0x61], by decide⟩ 256 =
      some [0x44, 0x3A, 0x5C, 0x61] ∧
      Isolates (uacSetUser bobName false) [0x44, 0x3A, 0x5C, 0x61] true) ∧
    (pathResolve ⟨[], by decide⟩ alicePath 256 = some alicePath.val ∧
      ¬ Isolates (uacSetUser bobName false) alicePath.val true) := by
  refine ⟨⟨by decide, ?_⟩, by decide, ?_⟩
  · exact (isolates_iff bobName (by decide) ⟨[], by decide⟩ ⟨[0x64, 0x3A, 0x5C, 0x61], by decide⟩ 256 _ (by decide)
      true).mpr (by decide)
  · rw [isolates_iff bobName (by decide) ⟨[], by decide⟩ alicePath 256 _ (by decide) true]
    decide

theorem not_isolates_alicePath :
    ¬ ∀ (username : CString), username.val ≠ [] →
      ∀ (base input : CString) (outputSize : Nat) (path : List UInt8),
      pathResolve base input outputSize = some path →
      ∀ write, Isolates (uacSetUser username false) path write := by
  intro h
  have hbob := h bobName (by decide) ⟨[], by decide⟩ alicePath 256 alicePath.val (by decide) true
  revert hbob
  unfold Isolates
  decide

end Monios.Analysis
