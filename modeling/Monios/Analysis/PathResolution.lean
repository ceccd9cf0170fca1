import Monios.Analysis.UserIsolation

/-!
# Path resolution

What `path_resolve` computes, as a walk over a stack of names: a name is pushed, `.` is skipped and
`..` pops (`pathResolve_eq`). So a result is canonical, resolving it again changes nothing, and
resolving a relative path against a result is the same as resolving the two paths in one step.
-/

set_option autoImplicit false

namespace Monios.Analysis.PathResolution

open Monios.Model

variable {state : List UInt8 × List Nat} {stack' : List (List UInt8)} {x : UInt8}

def dot : List UInt8 := [0x2E]

def dotDot : List UInt8 := [0x2E, 0x2E]

def readName (name : List UInt8) : List (List UInt8) := if name = [] then [] else [name]

def namesFrom (name : List UInt8) : List UInt8 → List (List UInt8)
  | [] => readName name
  | b :: rest =>
    if b = pathSeparator then readName name ++ namesFrom [] rest else namesFrom (name ++ [b]) rest

def names (path : List UInt8) : List (List UInt8) := namesFrom [] path

def pathLength (stack : List (List UInt8)) : Nat := (canonicalPath 0 stack).length

def enter (outputSize : Nat) (stack : List (List UInt8)) (name : List UInt8) :
    Option (List (List UInt8)) :=
  if pathComponentNameMax ≤ name.length then none
  else if name = dot then some stack
  else if name = dotDot then some stack.dropLast
  else if pathComponentMax ≤ stack.length then none
  else if outputSize ≤ pathLength (stack ++ [name]) then none
  else some (stack ++ [name])

def walk (outputSize : Nat) (stack : List (List UInt8)) (path : List UInt8) :
    Option (List (List UInt8)) :=
  (names path).foldlM (enter outputSize) stack

/-- A path in the form of `path_resolve`: an upper case drive, its root, and names that are neither
`.` nor `..` behind it, with a separator between any two. -/
structure Canonical (outputSize : Nat) (drive : UInt8) (stack : List (List UInt8)) (path : List UInt8) : Prop where
  upper : 0x41 ≤ drive ∧ drive ≤ 0x5A
  plain : ∀ name ∈ stack, GoodComponent name ∧ name ≠ dot ∧ name ≠ dotDot
  depth : stack.length ≤ pathComponentMax
  eq : path = canonicalPath drive stack
  fits : path.length < outputSize

section

variable {name path : List UInt8} {stack : List (List UInt8)} {drive : UInt8} {outputSize : Nat}

/-- The names of a path are those before a separator and those behind it. -/
theorem namesFrom_append (name xs ys : List UInt8) :
    namesFrom name (xs ++ pathSeparator :: ys) = namesFrom name xs ++ names ys := by
  induction xs generalizing name with
  | nil => simp [namesFrom, names]
  | cons b xs ih =>
    rw [List.cons_append, namesFrom, namesFrom]
    split
    · rw [ih, List.append_assoc]
    · exact ih _

theorem names_append (xs ys : List UInt8) :
    names (xs ++ pathSeparator :: ys) = names xs ++ names ys :=
  namesFrom_append [] xs ys

theorem names_separator (path : List UInt8) : names (pathSeparator :: path) = names path := by
  simp [names, namesFrom, readName]

/-- Separators in front of a path change no name. -/
theorem names_dropWhile (path : List UInt8) :
    names (path.dropWhile (· == pathSeparator)) = names path := by
  induction path with
  | nil => rfl
  | cons b path ih =>
    rw [List.dropWhile_cons]
    split
    · next hb =>
      rw [ih, eq_of_beq hb, names_separator]
    · rfl

/-- The first name of a path, and the names behind it. -/
theorem namesFrom_takeWhile (name path : List UInt8) : namesFrom name path =
      readName (name ++ path.takeWhile (· != pathSeparator)) ++
        names (path.drop (path.takeWhile (· != pathSeparator)).length) := by
  induction path generalizing name with
  | nil => simp [namesFrom, names, readName]
  | cons b path ih =>
    by_cases hb : b = pathSeparator
    · simp [namesFrom, hb, names, readName]
    · simp [namesFrom, hb, ih]

/-- The same for a path that starts with a name. -/
theorem names_takeWhile (hne : path.takeWhile (· != pathSeparator) ≠ []) :
    names path = path.takeWhile (· != pathSeparator) ::
      names (path.drop (path.takeWhile (· != pathSeparator)).length) := by
  have h := namesFrom_takeWhile [] path
  rw [List.nil_append, readName, if_neg hne] at h
  exact h

theorem mem_readName {n : List UInt8} (hn : n ∈ readName name) : n = name ∧ name ≠ [] := by
  unfold readName at hn
  split at hn
  · cases hn
  · next hne =>
    exact ⟨List.mem_singleton.mp hn, hne⟩

/-- Names are not empty and have no separator in them. -/
theorem mem_namesFrom {n : List UInt8} (hn : n ∈ namesFrom name path)
    (hname : pathSeparator ∉ name) :
    n ≠ [] ∧ pathSeparator ∉ n ∧ ∀ b ∈ n, b ∈ name ∨ b ∈ path := by
  induction path generalizing name with
  | nil =>
    obtain ⟨rfl, hne⟩ := mem_readName hn
    exact ⟨hne, hname, fun _ hb => .inl hb⟩
  | cons x path ih =>
    rw [namesFrom] at hn
    split at hn
    · cases List.mem_append.mp hn with
      | inl hn =>
        obtain ⟨rfl, hne⟩ := mem_readName hn
        exact ⟨hne, hname, fun _ hb => .inl hb⟩
      | inr hn =>
        obtain ⟨hne, hsep, hsub⟩ := ih hn List.not_mem_nil
        exact ⟨hne, hsep, fun b hb => .inr (List.mem_cons_of_mem _ ((hsub b hb).resolve_left List.not_mem_nil))⟩
    · next hx =>
      obtain ⟨hne, hsep, hsub⟩ := ih hn (by simpa [hname] using Ne.symm hx)
      refine ⟨hne, hsep, fun b hb => ?_⟩
      have := hsub b hb
      simp only [List.mem_append, List.mem_cons] at this ⊢
      tauto

end

section

variable {name path : List UInt8} {stack : List (List UInt8)} {drive : UInt8} {outputSize : Nat}

/-- The length of a path that is written from its components. -/
theorem length_canonicalPath (drive : UInt8) (stack : List (List UInt8)) :
    (canonicalPath drive stack).length = pathLength stack := by
  simp [pathLength, canonicalPath]

theorem built_length (h : Built drive stack state) : state.2.length = stack.length := by
  induction h with
  | start => rfl
  | append h hc ih => simpa using ih

/-- Going up one level restores the length noted before. -/
theorem built_dropLast {output : List UInt8} {length : Nat} {previousLengths : List Nat}
    (h : Built drive stack (output, length :: previousLengths)) :
    Built drive stack.dropLast (output.take length, previousLengths) := by
  generalize hstate : (output, length :: previousLengths) = state at h
  cases h with
  | start => simp at hstate
  | @append parents _ _ _ h hc =>
    simp only [Prod.mk.injEq, List.cons.injEq] at hstate
    obtain ⟨rfl, rfl, rfl⟩ := hstate
    rw [List.dropLast_concat]
    split
    · rw [List.take_left]
      exact h
    · rw [List.take_left]
      exact h

/-- A component is appended when it fits. -/
theorem pathAppend_built {output : List UInt8} {previousLengths : List Nat}
    (h : Built drive stack (output, previousLengths)) (hname : GoodComponent name) :
    pathAppend outputSize name output =
      if outputSize ≤ pathLength (stack ++ [name]) then none
      else some (if 3 < output.length then output ++ pathSeparator :: name else output ++ name) := by
  have hlength := congrArg List.length (h.append hname).output_eq
  have hpos := List.length_pos_iff.mpr hname.ne_nil
  rw [length_canonicalPath] at hlength
  rw [← hlength]
  unfold pathAppend
  by_cases hroot : 3 < output.length
  · simp only [if_pos hroot, List.length_append, List.length_cons]
    by_cases hfits : outputSize ≤ output.length + (name.length + 1)
    · rw [if_pos hfits]
      by_cases hsep : outputSize ≤ output.length + 1
      · rw [if_pos hsep]
      · rw [if_neg hsep, if_pos (by omega)]
    · rw [if_neg hfits, if_neg (by omega), if_neg (by omega)]
  · simp only [if_neg hroot, List.length_append]

/-- What the loop does with a component: refuse, skip, go up, or append. -/
theorem enter_eq : enter outputSize stack name =
    if pathComponentNameMax ≤ name.length then none
    else if name = dot then some stack
    else if name = dotDot then some stack.dropLast
    else if pathComponentMax ≤ stack.length then none
    else if outputSize ≤ pathLength (stack ++ [name]) then none
    else some (stack ++ [name]) := rfl

theorem takeWhile_ne_nil (h : (path.dropWhile (· == pathSeparator)).isEmpty = false) :
    (path.dropWhile (· == pathSeparator)).takeWhile (· != pathSeparator) ≠ [] := by
  cases hdrop : path.dropWhile (· == pathSeparator) with
  | nil => simp [hdrop] at h
  | cons x rest =>
    have hx : (x == pathSeparator) = false := by
      have := List.head?_dropWhile_not (· == pathSeparator) path
      simpa [hdrop] using this
    simp only [beq_eq_false_iff_ne] at hx
    simp [hx]

/-- The loop of `path_process_stream` is a walk along the names. -/
theorem pathProcessStream_walk {rounds : Nat} {state : List UInt8 × List Nat}
    (hslash : (0x2F : UInt8) ∉ path) (hzero : (0 : UInt8) ∉ path) (h : Built drive stack state)
    (hrounds : path.length < rounds) :
    match walk outputSize stack path with
    | none => pathProcessStream outputSize rounds path state = none
    | some stack' => ∃ state', pathProcessStream outputSize rounds path state = some state' ∧
      Built drive stack' state' := by
  induction rounds generalizing path stack state with
  | zero => exact absurd hrounds (Nat.not_lt_zero _)
  | succ rounds ih =>
    obtain ⟨output, previousLengths⟩ := state
    have hlength := built_length h
    unfold walk
    rw [← names_dropWhile]
    simp only [pathProcessStream]
    generalize hrest : path.dropWhile (· == pathSeparator) = rest
    have hsub : ∀ x, x ∈ rest → x ∈ path := fun x hx => (List.dropWhile_sublist _).subset (hrest ▸ hx)
    cases hempty : rest.isEmpty with
    | true =>
      obtain rfl := List.isEmpty_iff.mp hempty
      exact ⟨(output, previousLengths), rfl, h⟩
    | false =>
      have hempty' : (path.dropWhile (· == pathSeparator)).isEmpty = false := by rw [hrest, hempty]
      have hne := takeWhile_ne_nil hempty'
      rw [hrest] at hne
      rw [names_takeWhile hne, List.foldlM_cons, if_neg Bool.false_ne_true]
      generalize hname : rest.takeWhile (· != pathSeparator) = name at hne
      generalize hback : rest.drop name.length = back
      have hback' : ∀ x, x ∈ back → x ∈ path :=
        fun x hx => hsub x (List.mem_of_mem_drop (hback ▸ hx))
      have hshorter : back.length < rounds := by
        have h1 := List.length_dropWhile_le (· == pathSeparator) path
        have h2 := congrArg List.length hback
        have h3 := List.length_pos_iff.mpr hne
        have h4 := List.Sublist.length_le (@List.takeWhile_sublist _ rest (· != pathSeparator))
        rw [hrest] at h1
        rw [hname] at h4
        rw [List.length_drop] at h2
        omega
      have hgo := @ih back
      have hslash' := fun hx => hslash (hback' _ hx)
      have hzero' := fun hx => hzero (hback' _ hx)
      rw [enter_eq]
      by_cases hlong : pathComponentNameMax ≤ name.length
      · rw [if_pos hlong, if_pos hlong]
        exact rfl
      rw [if_neg hlong, if_neg hlong]
      have hgood : GoodComponent name := by
        have hgood := goodComponent_takeWhile hslash hzero hempty'
        rw [hrest, hname] at hgood
        exact hgood (Nat.not_le.mp hlong)
      by_cases hdot : name = [0x2E]
      · rw [if_pos hdot, if_pos (show name = dot from hdot)]
        exact hgo hslash' hzero' h hshorter
      rw [if_neg hdot, if_neg (show name ≠ dot from hdot)]
      by_cases hdotDot : name = [0x2E, 0x2E]
      · rw [if_pos hdotDot, if_pos (show name = dotDot from hdotDot)]
        cases previousLengths with
        | nil =>
          have hroot : stack = [] := List.length_eq_zero_iff.mp hlength.symm
          subst hroot
          exact hgo hslash' hzero' h hshorter
        | cons length previousLengths => exact hgo hslash' hzero' (built_dropLast h) hshorter
      rw [if_neg hdotDot, if_neg (show name ≠ dotDot from hdotDot)]
      simp only at hlength
      rw [hlength]
      by_cases hdepth : pathComponentMax ≤ stack.length
      · rw [if_pos hdepth, if_pos hdepth]
        exact rfl
      rw [if_neg hdepth, if_neg hdepth, pathAppend_built h hgood]
      by_cases hfits : outputSize ≤ pathLength (stack ++ [name])
      · rw [if_pos hfits, if_pos hfits]
        exact rfl
      · rw [if_neg hfits, if_neg hfits]
        exact hgo hslash' hzero' (h.append hgood) hshorter

/-- A walk along two paths, one after the other. -/
theorem walk_append (xs ys : List UInt8) :
    walk outputSize stack (xs ++ pathSeparator :: ys) =
      (walk outputSize stack xs).bind fun stack' => walk outputSize stack' ys := by
  unfold walk
  rw [names_append, List.foldlM_append]
  rfl

structure Plain (outputSize : Nat) (stack : List (List UInt8)) : Prop where
  names : ∀ name ∈ stack, name ≠ dot ∧ name ≠ dotDot
  depth : stack.length ≤ pathComponentMax
  fits : pathLength stack < outputSize

theorem pathLength_le_concat (stack : List (List UInt8)) (name : List UInt8) :
    pathLength stack ≤ pathLength (stack ++ [name]) := by
  unfold pathLength canonicalPath
  cases stack with
  | nil => simp [List.intercalate]
  | cons first rest =>
    rw [intercalate_concat _ (List.cons_ne_nil first rest)]
    simp only [List.length_cons, List.length_append]
    omega

/-- Entering a component keeps the stack plain. -/
theorem Plain.enter (h : Plain outputSize stack)
    (hstep : enter outputSize stack name = some stack') :
    Plain outputSize stack' := by
  rw [enter_eq] at hstep
  split at hstep
  · cases hstep
  split at hstep
  · cases hstep
    exact h
  next hdot =>
  split at hstep
  · cases hstep
    refine ⟨fun n hn => h.names n (List.dropLast_subset _ hn), ?_, ?_⟩
    · have := h.depth
      rw [List.length_dropLast]
      omega
    · cases List.eq_nil_or_concat stack with
      | inl hnil =>
        rw [hnil]
        rw [hnil] at h
        exact h.fits
      | inr hconcat =>
        obtain ⟨parents, last, hconcat⟩ := hconcat
        have hfits := h.fits
        rw [hconcat, List.concat_eq_append] at hfits ⊢
        rw [List.dropLast_concat]
        exact Nat.lt_of_le_of_lt (pathLength_le_concat parents last) hfits
  next hdotDot =>
  split at hstep
  · cases hstep
  next hdepth =>
  split at hstep
  · cases hstep
  next hfits =>
  cases hstep
  refine ⟨?_, ?_, Nat.not_le.mp hfits⟩
  · intro n hn
    cases List.mem_append.mp hn with
    | inl hn => exact h.names n hn
    | inr hn =>
      rw [List.mem_singleton.mp hn]
      exact ⟨hdot, hdotDot⟩
  · rw [List.length_append, List.length_singleton]
    omega

/-- A walk keeps the stack plain. -/
theorem Plain.walk (h : Plain outputSize stack) (hwalk : walk outputSize stack path = some stack') :
    Plain outputSize stack' := by
  unfold PathResolution.walk at hwalk
  generalize PathResolution.names path = rest at hwalk
  induction rest generalizing stack with
  | nil =>
    cases hwalk
    exact h
  | cons name rest ih =>
    rw [List.foldlM_cons] at hwalk
    obtain ⟨middle, hstep, hrest⟩ := Option.bind_eq_some_iff.mp hwalk
    exact ih (h.enter hstep) hrest

/-- A component that is one is a name. -/
theorem names_of_good (h : GoodComponent name) : names name = [name] := by
  have htake : name.takeWhile (· != pathSeparator) = name := by
    rw [List.takeWhile_eq_self_iff]
    intro b hb
    have hne : b ≠ pathSeparator := fun heq => h.no_separator (heq ▸ hb)
    simp [hne]
  have hnames := @names_takeWhile name (by rw [htake]; exact h.ne_nil)
  rw [htake, List.drop_length] at hnames
  exact hnames

/-- The names of a path written from components are the components. -/
theorem names_intercalate (h : ∀ name ∈ stack, GoodComponent name) :
    names ([pathSeparator].intercalate stack) = stack := by
  induction stack with
  | nil => rfl
  | cons name stack ih =>
    have hname := names_of_good (h name List.mem_cons_self)
    cases stack with
    | nil => simpa [List.intercalate] using hname
    | cons next stack =>
      rw [List.intercalate_cons_cons, List.append_assoc, List.singleton_append, names_append, hname,
        ih fun n hn => h n (List.mem_cons_of_mem _ hn)]
      rfl

/-- Entering plain components appends them all. -/
theorem foldlM_enter_self {back : List (List UInt8)} (hgood : ∀ name ∈ back, GoodComponent name)
    (h : Plain outputSize (stack ++ back)) :
    back.foldlM (enter outputSize) stack = some (stack ++ back) := by
  induction back generalizing stack with
  | nil =>
    rw [List.append_nil]
    rfl
  | cons name back ih =>
    have hsplit : stack ++ name :: back = stack ++ [name] ++ back := by
      rw [List.append_assoc, List.singleton_append]
    have hname := h.names name (List.mem_append_right _ List.mem_cons_self)
    have hdepth := h.depth
    have hfront (rest : List (List UInt8)) (front : List (List UInt8)) : pathLength front ≤ pathLength (front ++ rest) := by
      induction rest generalizing front with
      | nil => rw [List.append_nil]
      | cons r rest ih =>
        have := ih (front ++ [r])
        rw [List.append_assoc, List.singleton_append] at this
        exact Nat.le_trans (pathLength_le_concat front r) this
    have hfits := h.fits
    rw [hsplit] at hfits
    have hlt := Nat.lt_of_le_of_lt (hfront back (stack ++ [name])) hfits
    rw [List.length_append, List.length_cons] at hdepth
    have hshort : name.length < pathComponentNameMax := (hgood name List.mem_cons_self).short
    have henter : enter outputSize stack name = some (stack ++ [name]) := by
      rw [enter_eq, if_neg (Nat.not_le.mpr hshort), if_neg hname.1, if_neg hname.2,
        if_neg (by omega),
        if_neg (Nat.not_le.mpr hlt)]
    rw [List.foldlM_cons, henter, hsplit]
    rw [hsplit] at h
    exact ih (fun n hn => hgood n (List.mem_cons_of_mem _ hn)) h

def driveOf (base input : List UInt8) : UInt8 :=
  if pathHasDrivePrefix input then pathDriveFor input 0x43 else pathDriveFor base 0x43

def directoryOf (base input : List UInt8) : List UInt8 :=
  if pathIsAbsolute input then [] else if pathIsAbsolute base then pathAfterDrivePrefix base else []

/-- Cutting the drive off brings no new character in. -/
theorem notMem_pathAfterDrivePrefix {l : List UInt8} (hx : x ∉ l) : x ∉ pathAfterDrivePrefix l := by
  unfold pathAfterDrivePrefix
  split
  · exact fun hmem => hx (List.mem_of_mem_drop hmem)
  · exact hx

/-- Nor does taking the directory of the base. -/
theorem notMem_directoryOf {base : List UInt8} (hx : x ∉ base) (input : List UInt8) :
    x ∉ directoryOf base input := by
  unfold directoryOf
  split
  · exact List.not_mem_nil
  · split
    · exact notMem_pathAfterDrivePrefix hx
    · exact List.not_mem_nil

theorem pathProcessStream_start {rounds : Nat} (hslash : (0x2F : UInt8) ∉ path)
    (hzero : (0 : UInt8) ∉ path) (h : Built drive stack state) (hrounds : path.length < rounds) :
    (pathProcessStream outputSize rounds path state).map Prod.fst =
      (walk outputSize stack path).map (canonicalPath drive) := by
  have hwalk := @pathProcessStream_walk path stack drive outputSize rounds state hslash hzero h hrounds
  cases hresult : walk outputSize stack path with
  | none =>
    rw [hresult] at hwalk
    rw [hwalk]
    rfl
  | some stack' =>
    rw [hresult] at hwalk
    obtain ⟨state', hrun, hbuilt⟩ := hwalk
    rw [hrun, Option.map_some, Option.map_some, hbuilt.output_eq]

/-- The drive is that of the input if it has one, or else that of the base. -/
theorem driveOf_eq {base input : List UInt8} :
    (if pathHasDrivePrefix input then pathDriveFor input 0x43 else pathDriveFor base 0x43) =
      driveOf base input := rfl

/-- `path_resolve` is a walk from the directory of the base or from the root of the drive. -/
theorem pathResolve_eq (base input : CString) (outputSize : Nat) :
    pathResolve base input outputSize =
      if outputSize < 4 ∨ 0x2F ∈ input.val ∨ 0x2F ∈ base.val then none
      else ((walk outputSize [] (directoryOf base.val input.val)).bind fun stack =>
        walk outputSize stack (pathAfterDrivePrefix input.val)).map (canonicalPath
          (driveOf base.val input.val)) := by
  obtain ⟨base, hbase⟩ := base
  obtain ⟨input, hinput⟩ := input
  unfold pathResolve
  simp only [Bool.or_eq_true, decide_eq_true_eq, List.contains_iff_mem, or_assoc]
  by_cases hcheck : outputSize < 4 ∨ 0x2F ∈ input ∨ 0x2F ∈ base
  · rw [if_pos hcheck, if_pos hcheck]
  rw [if_neg hcheck, if_neg hcheck, driveOf_eq]
  obtain ⟨hinputSlash, hbaseSlash⟩ := not_or.mp (not_or.mp hcheck).2
  have hstart : Built (driveOf base input) [] ([driveOf base input, 0x3A, pathSeparator], []) :=
    .start
  have hempty : walk outputSize [] [] = some [] := rfl
  by_cases habsolute : pathIsAbsolute input = true
  · have hlength : (pathAfterDrivePrefix input).length < input.length + 1 := by
      unfold pathAfterDrivePrefix
      split
      · rw [List.length_drop]
        omega
      · exact Nat.lt_succ_self _
    rw [if_pos habsolute, pathProcessStream_start (notMem_pathAfterDrivePrefix hinputSlash)
      (notMem_pathAfterDrivePrefix hinput) hstart hlength, directoryOf, if_pos habsolute, hempty, Option.bind_some]
  · have hnoPrefix : pathAfterDrivePrefix input = input := by
      unfold pathAfterDrivePrefix
      unfold pathIsAbsolute at habsolute
      rw [if_neg]
      intro hwithDrive
      rw [hwithDrive, Bool.or_true] at habsolute
      exact habsolute rfl
    rw [if_neg habsolute, hnoPrefix, directoryOf, if_neg habsolute]
    by_cases hbaseAbsolute : pathIsAbsolute base = true
    · have hlength : (pathAfterDrivePrefix base).length < base.length + 1 := by
        unfold pathAfterDrivePrefix
        split
        · rw [List.length_drop]
          omega
        · exact Nat.lt_succ_self _
      have hfirst := @pathProcessStream_walk (pathAfterDrivePrefix base) [] (driveOf base input) outputSize (base.length + 1) _
        (notMem_pathAfterDrivePrefix hbaseSlash) (notMem_pathAfterDrivePrefix hbase) hstart hlength
      rw [if_pos hbaseAbsolute, if_pos hbaseAbsolute]
      cases hwalk : walk outputSize [] (pathAfterDrivePrefix base) with
      | none =>
        rw [hwalk] at hfirst
        rw [hfirst]
        rfl
      | some stack =>
        rw [hwalk] at hfirst
        obtain ⟨state, hrun, hbuilt⟩ := hfirst
        rw [hrun, Option.bind_some, Option.bind_some]
        exact pathProcessStream_start hinputSlash hinput hbuilt (Nat.lt_succ_self _)
    · rw [if_neg hbaseAbsolute, if_neg hbaseAbsolute, hempty, Option.bind_some]
      exact pathProcessStream_start hinputSlash hinput hstart (Nat.lt_succ_self _)

/-- A walk leaves good components on the stack. -/
theorem good_of_walk (hslash : (0x2F : UInt8) ∉ path) (hzero : (0 : UInt8) ∉ path)
    (hgood : ∀ name ∈ stack, GoodComponent name)
    (hwalk : walk outputSize stack path = some stack') :
    ∀ name ∈ stack', GoodComponent name := by
  have hmem (n : List UInt8) (hn : n ∈ names path) : n ≠ [] ∧ pathSeparator ∉ n ∧ (0x2F : UInt8) ∉ n ∧ (0 : UInt8) ∉ n := by
    obtain ⟨hne, hsep, hsub⟩ := mem_namesFrom hn List.not_mem_nil
    refine ⟨hne, hsep, fun hb => ?_, fun hb => ?_⟩
    · exact hslash ((hsub _ hb).resolve_left List.not_mem_nil)
    · exact hzero ((hsub _ hb).resolve_left List.not_mem_nil)
  unfold walk at hwalk
  generalize names path = rest at hwalk hmem
  induction rest generalizing stack with
  | nil =>
    cases hwalk
    exact hgood
  | cons name rest ih =>
    rw [List.foldlM_cons] at hwalk
    obtain ⟨middle, hstep, hrest⟩ := Option.bind_eq_some_iff.mp hwalk
    apply ih _ hrest fun n hn => hmem n (List.mem_cons_of_mem _ hn)
    rw [enter_eq] at hstep
    split at hstep
    · cases hstep
    next hlong =>
    split at hstep
    · cases hstep
      exact hgood
    split at hstep
    · cases hstep
      exact fun n hn => hgood n (List.dropLast_subset _ hn)
    split at hstep
    · cases hstep
    split at hstep
    · cases hstep
    cases hstep
    obtain ⟨hne, hsep, hnoSlash, hnoZero⟩ := hmem name List.mem_cons_self
    intro n hn
    cases List.mem_append.mp hn with
    | inl hn => exact hgood n hn
    | inr hn =>
      rw [List.mem_singleton.mp hn]
      exact ⟨hne, Nat.not_le.mp hlong, hsep, hnoSlash, hnoZero⟩

/-- A drive letter is an upper-case letter. -/
theorem upper_of_prefix {l : List UInt8} (h : pathHasDrivePrefix l = true) (fallback : UInt8) :
    0x41 ≤ pathDriveFor l fallback ∧ pathDriveFor l fallback ≤ 0x5A := by
  unfold pathDriveFor
  rw [if_pos h]
  unfold pathHasDrivePrefix at h
  split at h
  · simpa using h
  · cases h

theorem upper_driveOf (base input : List UInt8) :
    0x41 ≤ driveOf base input ∧ driveOf base input ≤ 0x5A := by
  unfold driveOf
  split
  · next h => exact upper_of_prefix h 0x43
  · by_cases h : pathHasDrivePrefix base = true
    · exact upper_of_prefix h 0x43
    · unfold pathDriveFor
      rw [if_neg h]
      decide

/-- What `path_resolve` returns is canonical. -/
theorem canonical_of_pathResolve {base input : CString} {result : List UInt8}
    (h : pathResolve base input outputSize = some result) :
    ∃ stack, (walk outputSize [] (directoryOf base.val input.val)).bind
        (fun stack => walk outputSize stack (pathAfterDrivePrefix input.val)) = some stack ∧
      Canonical outputSize (driveOf base.val input.val) stack result := by
  rw [pathResolve_eq] at h
  split at h
  · cases h
  next hcheck =>
  rw [not_or, not_or] at hcheck
  obtain ⟨hsize, hinputSlash, hbaseSlash⟩ := hcheck
  obtain ⟨stack, hwalks, rfl⟩ := Option.map_eq_some_iff.mp h
  refine ⟨stack, hwalks, ?_⟩
  obtain ⟨middle, hfirst, hsecond⟩ := Option.bind_eq_some_iff.mp hwalks
  have hstart : Plain outputSize [] := ⟨fun _ hn => absurd hn List.not_mem_nil, Nat.zero_le _, by
    show 3 < outputSize
    omega⟩
  have hplain := (hstart.walk hfirst).walk hsecond
  have hmiddle := good_of_walk (notMem_directoryOf hbaseSlash input.val) (notMem_directoryOf base.property input.val)
    (fun _ hn => absurd hn List.not_mem_nil) hfirst
  have hgood := good_of_walk (notMem_pathAfterDrivePrefix hinputSlash) (notMem_pathAfterDrivePrefix input.property) hmiddle hsecond
  exact ⟨upper_driveOf _ _, fun n hn => ⟨hgood n hn, hplain.names n hn⟩, hplain.depth, rfl,
    by rw [length_canonicalPath]; exact hplain.fits⟩

section

variable {result : List UInt8} (h : Canonical outputSize drive stack result)

include h in
/-- The parts of a canonical path: its drive, the separator, its components. -/
theorem Canonical.parts :
    pathHasDrivePrefix result = true ∧ pathIsAbsolute result = true ∧
      (∀ fallback, pathDriveFor result fallback = drive) ∧
      names (pathAfterDrivePrefix result) = stack := by
  obtain ⟨hlow, hhigh⟩ := h.upper
  have hupper : pathUpperDrive drive = drive := by
    unfold pathUpperDrive
    rw [if_neg]
    rintro ⟨hlower, -⟩
    exact absurd (UInt8.le_trans hlower hhigh) (by decide)
  have hwithDrive : pathHasDrivePrefix result = true := by
    rw [h.eq]
    simp only [canonicalPath, pathHasDrivePrefix, hupper, hlow, hhigh, decide_true, Bool.and_self]
  refine ⟨hwithDrive, ?_, ?_, ?_⟩
  · unfold pathIsAbsolute
    rw [hwithDrive, Bool.or_true]
  · intro fallback
    unfold pathDriveFor
    rw [if_pos hwithDrive, h.eq]
    exact hupper
  · unfold pathAfterDrivePrefix
    rw [if_pos hwithDrive, h.eq]
    show names (pathSeparator :: [pathSeparator].intercalate stack) = stack
    rw [names_separator, names_intercalate fun n hn => (h.plain n hn).1]

include h in
theorem Canonical.notMem (hdrive : x ≠ drive) (hcolon : x ≠ 0x3A) (hsep : x ≠ pathSeparator)
    (hgood : ∀ name, GoodComponent name → x ∉ name) : x ∉ result := by
  rw [h.eq]
  unfold canonicalPath
  simp only [List.mem_cons, not_or]
  refine ⟨hdrive, hcolon, hsep, ?_⟩
  have hplain := h.plain
  clear h
  induction stack with
  | nil => simp [List.intercalate]
  | cons name rest ih =>
    have hname := hgood name (hplain name List.mem_cons_self).1
    have hrest := ih fun n hn => hplain n (List.mem_cons_of_mem _ hn)
    cases rest with
    | nil => simpa [List.intercalate] using hname
    | cons next rest =>
      rw [List.intercalate_cons_cons, List.mem_append, List.mem_append, List.mem_singleton]
      rintro ((hmem | heq) | hmem)
      · exact hname hmem
      · exact hsep heq
      · exact hrest hmem

include h in
/-- A walk along a canonical path ends at its components. -/
theorem Canonical.walk : walk outputSize [] (pathAfterDrivePrefix result) = some stack := by
  unfold PathResolution.walk
  rw [h.parts.2.2.2]
  have hplain : Plain outputSize ([] ++ stack) := by
    refine ⟨fun n hn => (h.plain n hn).2, h.depth, ?_⟩
    have := h.fits
    rwa [h.eq, length_canonicalPath] at this
  exact foldlM_enter_self (fun n hn => (h.plain n hn).1) hplain

include h in
theorem Canonical.noZero : (0 : UInt8) ∉ result := by
  obtain ⟨hlow, -⟩ := h.upper
  apply h.notMem _ (by decide) (by decide) fun n hn => hn.no_zero
  rintro rfl
  exact absurd hlow (by decide)

include h in
theorem Canonical.noSlash : (0x2F : UInt8) ∉ result := by
  obtain ⟨hlow, -⟩ := h.upper
  apply h.notMem _ (by decide) (by decide) fun n hn => hn.no_slash
  rintro rfl
  exact absurd hlow (by decide)

end

def joined (first second : CString) : CString :=
  ⟨first.val ++ pathSeparator :: second.val, by
    have := first.property
    have := second.property
    simp [*, pathSeparator]⟩

/-- The drive and the kind of two paths joined are those of the first. -/
theorem joined_parts (first second : CString) (hne : first.val ≠ []) :
    pathHasDrivePrefix (joined first second).val = pathHasDrivePrefix first.val ∧
      (joined first second).val.head? = first.val.head? ∧
      pathAfterDrivePrefix (joined first second).val = pathAfterDrivePrefix first.val ++
      pathSeparator :: second.val := by
  obtain ⟨first, hzero⟩ := first
  cases first with
  | nil => exact absurd rfl hne
  | cons b rest =>
    have hwithDrive : pathHasDrivePrefix (b :: (rest ++ pathSeparator :: second.val)) =
        pathHasDrivePrefix (b :: rest) := by
      cases rest with
      | nil => simp [pathHasDrivePrefix, pathSeparator]
      | cons c rest =>
        by_cases hc : c = 0x3A
        · rw [hc]
          rfl
        · simp [pathHasDrivePrefix, hc]
    refine ⟨hwithDrive, rfl, ?_⟩
    show pathAfterDrivePrefix (b :: (rest ++ pathSeparator :: second.val)) = _
    unfold pathAfterDrivePrefix
    rw [hwithDrive]
    cases hp : pathHasDrivePrefix (b :: rest) with
    | false => rfl
    | true =>
      cases rest with
      | nil => simp [pathHasDrivePrefix] at hp
      | cons c rest => rfl

theorem driveOf_joined (base first second : CString) (hne : first.val ≠ []) :
    driveOf base.val (joined first second).val = driveOf base.val first.val := by
  obtain ⟨hwithDrive, hhead, -⟩ := joined_parts first second hne
  unfold driveOf pathDriveFor
  simp only [hwithDrive, List.headD_eq_head?_getD, hhead]

theorem directoryOf_joined (base first second : CString) (hne : first.val ≠ []) :
    directoryOf base.val (joined first second).val = directoryOf base.val first.val := by
  obtain ⟨hwithDrive, hhead, -⟩ := joined_parts first second hne
  unfold directoryOf pathIsAbsolute
  rw [hwithDrive, hhead]

/-- A path relative to a canonical base is a walk from its components. -/
theorem pathResolve_of_canonical {result : CString}
    (h : Canonical outputSize drive stack result.val) (input : CString)
    (hrelative : pathIsAbsolute input.val = false) : pathResolve result input outputSize =
      if outputSize < 4 ∨ 0x2F ∈ input.val then none
      else (walk outputSize stack input.val).map (canonicalPath drive) := by
  obtain ⟨-, habsolute, hdrive, -⟩ := h.parts
  have hnoPrefix : pathHasDrivePrefix input.val = false := by
    unfold pathIsAbsolute at hrelative
    exact (Bool.or_eq_false_iff.mp hrelative).2
  have hbase : driveOf result.val input.val = drive := by
    unfold driveOf
    rw [hnoPrefix, if_neg Bool.false_ne_true, hdrive]
  have hdirectory : directoryOf result.val input.val = pathAfterDrivePrefix result.val := by
    unfold directoryOf
    rw [hrelative, if_neg Bool.false_ne_true, if_pos habsolute]
  have hafter : pathAfterDrivePrefix input.val = input.val := by
    unfold pathAfterDrivePrefix
    rw [hnoPrefix, if_neg Bool.false_ne_true]
  have hslash := h.noSlash
  rw [pathResolve_eq, hbase, hdirectory, hafter, h.walk, Option.bind_some]
  simp only [hslash, or_false]

/-- A canonical path resolves to itself. -/
theorem pathResolve_canonical_self {result : CString}
    (h : Canonical outputSize drive stack result.val) (base : CString)
    (hbase : (0x2F : UInt8) ∉ base.val) : pathResolve base result outputSize = some result.val := by
  obtain ⟨hwithDrive, habsolute, hdrive, -⟩ := h.parts
  have hslash := h.noSlash
  have hsize : ¬ outputSize < 4 := by
    have hlt := h.fits
    rw [h.eq] at hlt
    simp only [canonicalPath, List.length_cons] at hlt
    omega
  have hnot : ¬ (outputSize < 4 ∨ (0x2F : UInt8) ∈ result.val ∨ (0x2F : UInt8) ∈ base.val) := by
    simp only [hsize, hslash, hbase, or_self, not_false_eq_true]
  have hdirectory : directoryOf base.val result.val = [] := by
    unfold directoryOf
    rw [if_pos habsolute]
  have hstart : walk outputSize [] [] = some [] := rfl
  have hdriveOf : driveOf base.val result.val = drive := by
    unfold driveOf
    rw [if_pos hwithDrive, hdrive]
  rw [pathResolve_eq, if_neg hnot, hdirectory, hstart, Option.bind_some, h.walk, hdriveOf,
    Option.map_some, h.eq]

/-- Resolving in two steps is resolving the joined path. -/
theorem pathResolve_joined {base first result : CString}
    (h : pathResolve base first outputSize = some result.val) (second : CString)
    (hne : first.val ≠ []) (hrelative : pathIsAbsolute second.val = false) :
    pathResolve result second outputSize = pathResolve base (joined first second) outputSize := by
  obtain ⟨stack, hwalks, hcanonical⟩ := canonical_of_pathResolve h
  have hchecks := h
  rw [pathResolve_eq] at hchecks
  split at hchecks
  · cases hchecks
  next hcheck =>
  rw [not_or, not_or] at hcheck
  obtain ⟨hsize, hfirst, hbase⟩ := hcheck
  have hslash : (0x2F : UInt8) ∈ (joined first second).val ↔ (0x2F : UInt8) ∈ second.val := by
    simp [joined, hfirst, pathSeparator]
  rw [pathResolve_of_canonical hcanonical second hrelative, pathResolve_eq,
    driveOf_joined _ _ _ hne,
    directoryOf_joined _ _ _ hne, (joined_parts first second hne).2.2]
  simp only [hslash, hbase, or_false]
  obtain ⟨middle, hmiddle, hstack⟩ := Option.bind_eq_some_iff.mp hwalks
  rw [hmiddle, Option.bind_some, walk_append, hstack, Option.bind_some]

end

/-- What `path_resolve` answers is canonical and resolves to itself, and a relative path is resolved
against it as if it had been put behind the path that led there, when there was one. -/
theorem pathResolve_laws (base input result : CString) (outputSize : Nat)
    (h : pathResolve base input outputSize = some result.val) :
    (∃ drive stack, Canonical outputSize drive stack result.val) ∧
      (∀ base' : CString, (0x2F : UInt8) ∉ base'.val →
        pathResolve base' result outputSize = some result.val) ∧
      ∀ second : CString, input.val ≠ [] → pathIsAbsolute second.val = false →
        pathResolve result second outputSize =
        pathResolve base (joined input second) outputSize := by
  obtain ⟨stack, -, hcanonical⟩ := canonical_of_pathResolve h
  refine ⟨⟨_, stack, hcanonical⟩, ?_, ?_⟩
  · intro base' hbase'
    exact pathResolve_canonical_self hcanonical base' hbase'
  · intro second hne hrelative
    exact pathResolve_joined h second hne hrelative

/-- `..\a` from `C:\b` is `C:\a`. -/
theorem pathResolve_laws_parent :
    pathResolve ⟨ascii "C:\\b", by decide⟩ ⟨ascii "..\\a", by decide⟩ 128 = some (ascii "C:\\a") ∧
      ∃ drive stack, Canonical 128 drive stack (ascii "C:\\a") := by
  have h : pathResolve ⟨ascii "C:\\b", by decide⟩ ⟨ascii "..\\a", by decide⟩ 128 = some (ascii "C:\\a") := by
    decide
  exact ⟨h, (pathResolve_laws _ _ ⟨ascii "C:\\a", by decide⟩ 128 h).1⟩

/-- An empty path leads to the directory itself, but joined with `b` it is `\b`, which is in the
root. -/
theorem pathResolve_joined_empty : ∃ base input result second :
    CString, pathResolve base base 128 = some base.val ∧
      pathResolve base input 128 = some result.val ∧ pathIsAbsolute second.val = false ∧
      (pathResolve result second 128).isSome ∧ (pathResolve base (joined input second) 128).isSome ∧
      pathResolve result second 128 ≠ pathResolve base (joined input second) 128 :=
  ⟨⟨ascii "C:\\a", by decide⟩, ⟨[], by decide⟩, ⟨ascii "C:\\a", by decide⟩, ⟨ascii "b", by decide⟩, by decide,
    by decide, by decide, by decide, by decide, by decide⟩

end Monios.Analysis.PathResolution
