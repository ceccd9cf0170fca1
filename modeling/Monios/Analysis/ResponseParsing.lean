import Mathlib.Data.List.Infix
import Mathlib.Data.List.TakeWhile
import Monios.Analysis.ChunkedBodies
import Monios.Model.HttpParse

/-!
# Parsing of responses

What `http_parse_response` reads of a byte string, and what it reports of a response.  The first
search that leaves the input decides the first, whatever lies behind it.
-/

set_option autoImplicit false

namespace Monios.Analysis.ResponseParsing

open Monios.Library Monios.Model.HttpChunked Monios.Model.HttpParse Monios.Analysis.ChunkedBodies

variable {n : Nat} {rest : List UInt8} {rounds : Nat}

def find (ch : UInt8) : List UInt8 → Option Nat
  | [] => none
  | c :: rest => if c = 0 then none else if c = ch then some 0 else (find ch rest).map (· + 1)

def lineEnd : List UInt8 → Option Nat
  | [] => none
  | c :: rest => if c = cr ∧ rest.head? = some lf then some 0 else (lineEnd rest).map (· + 1)

def Stops (ch : UInt8) (rest : List UInt8) : Prop := ch ∈ rest ∨ 0 ∈ rest

def StatusStops (data : List UInt8) : Prop :=
  Stops 0x20 data ∧ ∀ space, find 0x20 data = some space → Stops 0x20 (data.drop (space + 1))

def codeStep (code : Int) (c : UInt8) : Int := (code * 10 + (c - 0x30).toNat).bmod (2 ^ 32)

def statusCode (data : List UInt8) : Int :=
  match find 0x20 data with
  | none => -1
  | some space =>
    match find 0x20 (data.drop (space + 1)) with
    | none => -1
    | some n => (((data.drop (space + 1)).take n).takeWhile fun c => 0x30 ≤ c && c ≤ 0x39).foldl codeStep 0

def ownValue (value : List UInt8) : List UInt8 := value.dropWhile (· == 0x20)

def headerOf (rest : List UInt8) (n : Nat) : Option (List UInt8 × List UInt8) :=
  match find 0x3A rest with
  | none => none
  | some colon =>
    if n ≤ colon then none
    else some (rest.take (min colon 63), (ownValue ((rest.take n).drop (colon + 1))).take 255)

def headersFrom : Nat → List UInt8 → HttpResponse → List UInt8 × HttpResponse
  | 0, rest, response => (rest, response)
  | rounds + 1, rest, response =>
    if rest = [] ∨ httpMaxHeaders ≤ response.headers.length then (rest, response)
    else match lineEnd rest with
      | none => (rest, response)
      | some n =>
        if n = 0 then (rest.drop 2, response)
        else headersFrom rounds (rest.drop (n + 2)) (match headerOf rest n with
          | none => response
          | some (name, value) => response.addHeader name value)

def LinesStop : Nat → Nat → List UInt8 → Prop
  | 0, _, _ => True
  | rounds + 1, count, rest =>
    httpMaxHeaders ≤ count ∨ ∀ n, lineEnd rest = some n → n ≠ 0 → Stops 0x3A rest ∧
      LinesStop rounds (if (headerOf rest n).isSome then count + 1 else count) (rest.drop (n + 2))

def SearchesStop (data : List UInt8) : Prop :=
  ∀ n, lineEnd data = some n → StatusStops data ∧ LinesStop (data.length + 1) 0 (data.drop (n + 2))

structure Reply where
  version : List UInt8
  code : List UInt8
  text : List UInt8
  headers : List (List UInt8 × List UInt8)
  body : List UInt8

def Reply.statusLine (r : Reply) : List UInt8 := r.version ++ 0x20 :: (r.code ++ 0x20 :: r.text)

def headerLine (h : List UInt8 × List UInt8) : List UInt8 := h.1 ++ 0x3A :: h.2

def headerBytes (h : List UInt8 × List UInt8) : List UInt8 := headerLine h ++ [cr, lf]

def Reply.bytes (r : Reply) : List UInt8 :=
  r.statusLine ++ cr :: lf :: (r.headers.flatMap headerBytes ++ cr :: lf :: r.body)

structure Reply.Valid (r : Reply) : Prop where
  version : ∀ c ∈ r.version, c ≠ 0x20 ∧ c ≠ 0
  digits : r.code.length = 3
  digit : ∀ c ∈ r.code, 0x30 ≤ c ∧ c ≤ 0x39
  statusLine : ¬ [cr, lf] <:+: r.statusLine
  names : ∀ h ∈ r.headers, ∀ c ∈ h.1, c ≠ 0x3A ∧ c ≠ 0
  lines : ∀ h ∈ r.headers, ¬ [cr, lf] <:+: headerLine h

structure Reports (r : Reply) (response : HttpResponse) : Prop where
  statusCode : response.statusCode = (r.code.foldl (fun n c => n * 10 + (c - 0x30).toNat) 0 : Nat)
  headers : response.headers = (r.headers.take httpMaxHeaders).map fun h => (h.1, ownValue h.2)
  body : response.body.getD [] = r.body

structure ParsesRight (data : List UInt8) : Prop where
  inside : ∀ beyond response, ∀ e ∈ (httpParseResponse data beyond response).log, Inside e
  reports : ∀ r : Reply, r.Valid → r.bytes = data → ∀ beyond response, ∃ ok parsed,
    (httpParseResponse data beyond response).result = some (ok, parsed) ∧ Reports r parsed

def Reply.Short (r : Reply) : Prop :=
  r.headers.length < httpMaxHeaders ∧
    ∀ h ∈ r.headers, h.1.length < httpMaxHeaderName ∧ (ownValue h.2).length < httpMaxHeaderValue

structure Settles {α : Type} (C : Prop) (a : α) (m : Logged (Nat × Nat) α) : Prop where
  inside : (∀ e ∈ m.log, Inside e) ↔ C
  result : C → m.result = some a

namespace Settles

variable {α β : Type} {C D : Prop} {a : α} {b : β} {m : Logged (Nat × Nat) α} {f : α → Logged (Nat × Nat) β}

/-- A value settles on itself. -/
theorem pure (a : α) : Settles True a (Pure.pure a) :=
  ⟨iff_of_true (fun _ he => absurd he List.not_mem_nil) trivial, fun _ => rfl⟩

/-- The condition may be put in other words. -/
theorem congr (h : Settles C a m) (hC : D ↔ C) : Settles D a m :=
  ⟨h.inside.trans hC.symm, fun hd => h.result (hC.mp hd)⟩

/-- What needs no condition settles under any. -/
theorem of_true (h : Settles True a m) (hC : C) : Settles C a m := h.congr (iff_of_true hC trivial)

/-- Two steps settle when both of their conditions hold. -/
theorem bind (hm : Settles C a m) (hf : C → Settles D b (f a)) : Settles (C ∧ D) b (m >>= f) := by
  by_cases hC : C
  · obtain ⟨hlog, hresult⟩ := hf hC
    rw [Logged.bind_of_some (hm.result hC)]
    refine ⟨?_, fun h => hresult h.2⟩
    show (∀ e ∈ m.log ++ (f a).log, Inside e) ↔ _
    rw [List.forall_mem_append, hm.inside, hlog]
  · refine ⟨iff_of_false (fun h => hC (hm.inside.mp fun e he => h e ?_)) fun h => hC h.1,
      fun h => absurd h.1 hC⟩
    cases hr : m.result with
    | none => rwa [Logged.bind_of_none hr]
    | some a =>
      rw [Logged.bind_of_some hr]
      exact List.mem_append_left _ he

/-- A second step that needs no condition adds none. -/
theorem bind_inside (hm : Settles C a m) (hf : C → Settles True b (f a)) : Settles C b (m >>= f) :=
  (hm.bind hf).congr (and_true C).symm.to_iff

/-- Making something of the value keeps the condition. -/
theorem map (hm : Settles C a m) (g : α → β) : Settles C (g a) (m >>= fun a => Pure.pure (g a)) :=
  hm.bind_inside fun _ => pure (g a)

/-- A read inside the response adds no condition. -/
theorem emit_bind {e : Nat × Nat} {f : Unit → Logged (Nat × Nat) β} (he : Inside e)
    (hf : Settles D b (f ())) :
    Settles D b (Logged.emit e >>= f) := by
  have hemit : Settles True () (Logged.emit e) :=
    ⟨iff_of_true (fun x hx => by obtain rfl := List.mem_singleton.mp hx; exact he) trivial, fun _ => rfl⟩
  exact (hemit.bind fun _ => hf).congr (by rw [true_and])

end Settles

/-- A read behind the response never settles. -/
theorem not_settles_outside {α : Type} {a : α} {left : Nat} {f : Unit → Logged (Nat × Nat) α}
    (h : left = 0) :
    Settles False a (Logged.emit (1, left) >>= f) := by
  refine ⟨iff_of_false (fun hall => ?_) id, False.elim⟩
  have hread : Inside (1, left) := hall _ (by rw [Logged.bind_of_some (a := ()) rfl]; exact List.mem_cons_self)
  unfold Inside at hread
  omega

/-- `strchr` stays inside when the character or a zero is there. -/
theorem strchr_settles (ch : UInt8) (rest beyond : List UInt8) :
    Settles (Stops ch rest) (find ch rest) (strchr ch (rest ++ beyond) rest.length) := by
  induction rest with
  | nil =>
    have hstops : Stops ch [] ↔ False := by simp [Stops]
    refine Settles.congr ?_ hstops
    cases beyond with
    | nil => exact not_settles_outside rfl
    | cons c beyond => exact not_settles_outside rfl
  | cons c rest ih =>
    rw [List.cons_append]
    unfold strchr find
    refine .emit_bind (Nat.le_add_left ..) ?_
    by_cases hzero : c = 0
    · rw [if_pos hzero, if_pos hzero]
      exact (Settles.pure _).congr (by simp [Stops, hzero])
    · rw [if_neg hzero, if_neg hzero]
      by_cases hfound : c = ch
      · rw [if_pos hfound, if_pos hfound]
        exact (Settles.pure _).congr (by simp [Stops, hfound])
      · rw [if_neg hfound, if_neg hfound]
        refine (ih.map (Option.map (· + 1))).congr ?_
        simp [Stops, Ne.symm hfound, Ne.symm hzero]

/-- What is found is inside. -/
theorem find_lt {ch : UInt8} (h : find ch rest = some n) : n < rest.length := by
  induction rest generalizing n with
  | nil => cases h
  | cons c rest ih =>
    unfold find at h
    split at h
    · cases h
    · split at h
      · obtain rfl := Option.some.inj h
        exact Nat.succ_pos _
      · obtain ⟨k, hk, rfl⟩ := Option.map_eq_some_iff.mp h
        exact Nat.succ_lt_succ (ih hk)

/-- The test for the end of a line stays inside. -/
theorem atCrlf_settles (c : UInt8) (rest : List UInt8) :
    Settles True (decide (c = cr ∧ rest.head? = some lf)) (atCrlf (c :: rest)) := by
  unfold atCrlf
  cases rest with
  | nil => simpa using Settles.pure false
  | cons d rest =>
    rw [if_neg (by simp)]
    refine .emit_bind (Nat.le_add_left ..) ?_
    by_cases hc : c = cr
    · rw [if_neg (by simpa using hc)]
      refine .emit_bind (show 2 ≤ rest.length + 1 + 1 by omega) ?_
      have heq : decide (c = cr ∧ (d :: rest).head? = some lf) = (d == lf) := by
        rw [Bool.eq_iff_iff]
        simp [hc]
      rw [heq]
      exact .pure _
    · rw [if_pos (by simpa using hc)]
      simpa [hc] using Settles.pure false

/-- The search for the end of a line stays inside. -/
theorem httpFindLineEnd_settles (rest : List UInt8) :
    Settles True (lineEnd rest) (httpFindLineEnd rest) := by
  induction rest with
  | nil => exact .pure _
  | cons c rest ih =>
    unfold httpFindLineEnd lineEnd
    refine (atCrlf_settles c rest).bind_inside fun _ => ?_
    by_cases h : c = cr ∧ rest.head? = some lf
    · rw [if_pos h, if_pos (by simpa using h)]
      exact .pure _
    · rw [if_neg h, if_neg (by simpa using h)]
      exact ih.map (Option.map (· + 1))

/-- Skipping spaces stays inside. -/
theorem skipSpaces_settles (behind : Nat) (value : List UInt8) :
    Settles True (ownValue value) (skipSpaces behind value) := by
  induction value with
  | nil => exact .pure _
  | cons c value ih =>
    unfold skipSpaces ownValue
    refine .emit_bind (show 1 ≤ value.length + 1 + behind by omega) ?_
    by_cases h : c = 0x20
    · rw [if_pos h, List.dropWhile_cons_of_pos (by simpa using h)]
      exact ih
    · rw [if_neg h, List.dropWhile_cons_of_neg (by simpa using h)]
      exact .pure _

/-- The digits of the status code are read inside the line. -/
theorem statusDigits_settles {line : List UInt8} {left : Nat} (code : Int)
    (h : line.length ≤ left) :
    Settles True ((line.takeWhile fun c => 0x30 ≤ c && c ≤ 0x39).foldl codeStep code)
      (statusDigits line left code) := by
  induction line generalizing left code with
  | nil => exact .pure _
  | cons c line ih =>
    rw [List.length_cons] at h
    unfold statusDigits
    refine .emit_bind (show 1 ≤ left by omega) ?_
    by_cases hc : 0x30 ≤ c ∧ c ≤ 0x39
    · rw [if_pos hc, List.takeWhile_cons_of_pos (by simpa using hc), List.foldl_cons]
      exact ih _ (by omega)
    · rw [if_neg hc, List.takeWhile_cons_of_neg (by simpa using hc)]
      exact .pure _

section

variable {data beyond : List UInt8}

/-- Behind a position of the response the memory goes on as before. -/
theorem drop_memory (h : n ≤ data.length) : (data ++ beyond).drop n = data.drop n ++ beyond :=
  List.drop_append_of_le_length h

/-- `strchr` from behind the space. -/
theorem strchr_behind {space : Nat} (ch : UInt8) (h : space < data.length) :
    Settles (Stops ch (data.drop (space + 1))) (find ch (data.drop (space + 1)))
      (strchr ch ((data ++ beyond).drop (space + 1)) (data.length - (space + 1))) := by
  rw [drop_memory h, ← List.length_drop]
  exact strchr_settles ch _ beyond

/-- The version is read up to the first space. -/
theorem parseVersion_settles (n : Nat) : ∃ version, Settles (Stops 0x20 data) version
      (parseVersion (data ++ beyond) data.length n) := by
  suffices h : ∃ version, Settles True version _ from h.imp fun _ h => (strchr_settles 0x20 data beyond).bind_inside fun _ => h
  cases hfind : find 0x20 data with
  | none => exact ⟨_, .pure []⟩
  | some space =>
    have hlt := find_lt hfind
    dsimp only
    split
    · exact ⟨_, .pure []⟩
    · exact ⟨_, .emit_bind (show min space 15 ≤ data.length by omega) (.pure _)⟩

/-- The status code needs both spaces of the line. -/
theorem httpParseStatusCode_settles :
    Settles (StatusStops data) (statusCode data)
      (httpParseStatusCode (data ++ beyond) data.length) := by
  unfold httpParseStatusCode statusCode StatusStops
  have hsearch := strchr_settles 0x20 data beyond
  cases hfind : find 0x20 data with
  | none =>
    rw [hfind] at hsearch
    exact (hsearch.bind_inside fun _ => Settles.pure (-1)).congr (by simp)
  | some space =>
    have hlt := find_lt hfind
    rw [hfind] at hsearch
    have hnext := @strchr_behind data beyond space 0x20 hlt
    refine (hsearch.bind (D := Stops 0x20 (data.drop (space + 1))) fun _ => ?_).congr (by simp)
    dsimp only
    cases hsecond : find 0x20 (data.drop (space + 1)) with
    | none =>
      rw [hsecond] at hnext
      exact hnext.bind_inside fun _ => .pure (-1)
    | some n =>
      rw [hsecond] at hnext
      have hlt' := find_lt hsecond
      refine hnext.bind_inside fun _ => ?_
      dsimp only
      rw [drop_memory hlt, List.take_append_of_le_length (Nat.le_of_lt hlt')]
      refine statusDigits_settles 0 ?_
      rw [List.length_take, List.length_drop]
      exact Nat.min_le_right _ _

/-- The text of the status needs both spaces of the line. -/
theorem parseStatusText_settles {n : Nat} (hn : n ≤ data.length) :
    ∃ text, Settles (StatusStops data) text (parseStatusText (data ++ beyond) data.length n) := by
  suffices h : ∃ text, Settles (∀ space, find 0x20 data = some space → Stops 0x20 (data.drop (space + 1))) text _ from
    h.imp fun _ h => (strchr_settles 0x20 data beyond).bind fun _ => h
  cases hfind : find 0x20 data with
  | none => exact ⟨_, (Settles.pure []).congr (by simp)⟩
  | some space =>
    have hnext := @strchr_behind data beyond space 0x20 (find_lt hfind)
    suffices h : ∃ text, Settles True text _ from h.imp fun _ h => (hnext.bind_inside fun _ => h).congr (by simp)
    cases hsecond : find 0x20 (data.drop (space + 1)) with
    | none => exact ⟨_, .pure []⟩
    | some k =>
      dsimp only
      split
      · exact ⟨_, .pure []⟩
      · refine ⟨_, .emit_bind (show min (n - (space + 1 + k + 1)) 63 ≤ data.length - (space + 1 + k + 1) by omega) (.pure _)⟩

/-- A header line needs a colon somewhere behind its start. -/
theorem parseHeader_settles {rest : List UInt8} {n : Nat} (hn : n ≤ rest.length) :
    Settles (Stops 0x3A rest) (headerOf rest n) (parseHeader rest beyond n) := by
  unfold parseHeader headerOf
  have hsearch := strchr_settles 0x3A rest beyond
  cases hfind : find 0x3A rest with
  | none =>
    rw [hfind] at hsearch
    exact hsearch.bind_inside fun _ => .pure none
  | some colon =>
    rw [hfind] at hsearch
    refine hsearch.bind_inside fun _ => ?_
    dsimp only
    by_cases hshort : n ≤ colon
    · rw [if_pos hshort, if_pos hshort]
      exact .pure _
    · rw [if_neg hshort, if_neg hshort]
      refine (skipSpaces_settles _ _).bind_inside fun _ => ?_
      refine .emit_bind (show min colon 63 ≤ rest.length by omega) ?_
      refine .emit_bind (Nat.le_trans (Nat.min_le_left _ _) (Nat.le_add_right _ _)) ?_
      rw [Nat.min_comm _ (httpMaxHeaderValue - 1), ← List.take_eq_take_min]
      exact .pure _

/-- A line ends inside. -/
theorem lineEnd_lt (h : lineEnd rest = some n) : n + 1 < rest.length := by
  induction rest generalizing n with
  | nil => cases h
  | cons c rest ih =>
    unfold lineEnd at h
    split at h
    · rename_i hline
      obtain rfl := Option.some.inj h
      cases rest with
      | nil => exact absurd hline.2 nofun
      | cons d rest => simp
    · obtain ⟨k, hk, rfl⟩ := Option.map_eq_some_iff.mp h
      exact Nat.succ_lt_succ (ih hk)

/-- The header lines settle when every search for a colon stops. -/
theorem parseHeaders_settles {rounds : Nat} {rest : List UInt8} (response : HttpResponse)
    (h : rest.length < rounds) :
    Settles (LinesStop rounds response.headers.length rest) (headersFrom rounds rest response)
      (parseHeaders beyond rounds rest response) := by
  induction rounds generalizing rest response with
  | zero => omega
  | succ rounds ih =>
    unfold LinesStop headersFrom parseHeaders
    by_cases hstop : rest = [] ∨ httpMaxHeaders ≤ response.headers.length
    · rw [if_pos hstop, if_pos hstop]
      refine (Settles.pure _).of_true ?_
      exact hstop.symm.imp id fun hnil n hn => by rw [hnil] at hn; cases hn
    · rw [if_neg hstop, if_neg hstop]
      have hroom := (not_or.mp hstop).2
      have hfind := httpFindLineEnd_settles rest
      cases hline : lineEnd rest with
      | none =>
        rw [hline] at hfind
        refine .of_true ?_ (.inr nofun)
        exact hfind.bind_inside fun _ => .pure _
      | some n =>
        rw [hline] at hfind
        by_cases hzero : n = 0
        · refine .of_true ?_ (.inr fun m hm hm' => absurd (hzero ▸ (Option.some.inj hm).symm) hm')
          refine hfind.bind_inside fun _ => ?_
          dsimp only
          rw [if_pos hzero, if_pos hzero]
          exact .pure _
        · have hlt := lineEnd_lt hline
          have hrest : (rest.drop (n + 2)).length < rounds := by
            rw [List.length_drop]
            omega
          have hheader := @parseHeader_settles beyond rest n (by omega)
          refine (hfind.bind (D := Stops 0x3A rest ∧ LinesStop rounds
            (if (headerOf rest n).isSome then response.headers.length + 1 else response.headers.length)
            (rest.drop (n + 2))) fun _ => ?_).congr (by simp [hroom, hzero])
          dsimp only
          rw [if_neg hzero, if_neg hzero]
          refine hheader.bind fun _ => ?_
          cases headerOf rest n with
          | none => exact ih response hrest
          | some header =>
            have hlength : (response.addHeader header.1 header.2).headers.length =
                response.headers.length + 1 := by
              simp [HttpResponse.addHeader]
            have hcount := ih (response.addHeader header.1 header.2) hrest
            rw [hlength] at hcount
            exact hcount

/-- The parser settles when all its searches stop. -/
theorem httpParseResponse_settles {n : Nat} (response : HttpResponse)
    (hline : lineEnd data = some n) :
    ∃ version text, Settles (StatusStops data ∧ LinesStop (data.length + 1) 0 (data.drop (n + 2)))
      (let r := headersFrom (data.length + 1) (data.drop (n + 2))
        { version := version, statusCode := statusCode data, statusText := text }
      (decide (0 < r.2.statusCode), { r.2 with body := if r.1 = [] then none else some r.1 }))
      (httpParseResponse data beyond response) := by
  have hlt := lineEnd_lt hline
  obtain ⟨version, hversion⟩ := @parseVersion_settles data beyond n
  obtain ⟨text, htext⟩ := @parseStatusText_settles data beyond n (by omega)
  have hrest : (data.drop (n + 2)).length < data.length + 1 := by
    rw [List.length_drop]
    omega
  have hheaders := @parseHeaders_settles beyond _ _ { version := version, statusCode := statusCode data, statusText := text } hrest
  have hfind := httpFindLineEnd_settles data
  rw [hline] at hfind
  refine ⟨version, text, ?_⟩
  unfold httpParseResponse
  rw [if_neg (by rintro rfl; cases hline)]
  refine (hfind.bind fun _ => hversion.bind fun _ => httpParseStatusCode_settles.bind fun _ => htext.bind fun _ =>
    hheaders.map fun r => (decide (0 < r.2.statusCode), { r.2 with body := if r.1 = [] then none else some r.1 })).congr ?_
  refine ⟨fun h => ⟨trivial, h.1.1, h.1, h.1, h.2⟩, fun h => ⟨h.2.2.1, h.2.2.2.2⟩⟩

/-- The parser stays inside exactly when its searches stop. -/
theorem inside_iff (beyond : List UInt8) (response : HttpResponse) :
    (∀ e ∈ (httpParseResponse data beyond response).log, Inside e) ↔ SearchesStop data := by
  unfold SearchesStop
  cases hline : lineEnd data with
  | none =>
    refine iff_of_true ?_ (by simp)
    have hfind := httpFindLineEnd_settles data
    rw [hline] at hfind
    have hall : Settles True (false, if data = [] then response else {}) (httpParseResponse data beyond response) := by
      unfold httpParseResponse
      split
      · exact .pure _
      · exact hfind.bind_inside fun _ => .pure _
    exact hall.inside.mpr trivial
  | some n =>
    obtain ⟨version, text, hsettles⟩ := @httpParseResponse_settles data beyond n response hline
    rw [hsettles.inside]
    simp

end

/-- A line without a line end in it ends where it is cut. -/
theorem lineEnd_line {line tail : List UInt8} (h : ¬ [cr, lf] <:+: line) :
    lineEnd (line ++ cr :: lf :: tail) = some line.length := by
  induction line with
  | nil => rfl
  | cons c line ih =>
    have hnot : ¬ (c = cr ∧ (line ++ cr :: lf :: tail).head? = some lf) := by
      rintro ⟨rfl, hhead⟩
      cases line with
      | nil => exact absurd (Option.some.inj hhead) (by decide)
      | cons d line =>
        obtain rfl := Option.some.inj hhead
        exact h ⟨[], line, rfl⟩
    rw [List.cons_append]
    unfold lineEnd
    rw [if_neg hnot, ih fun hin => h (hin.trans (List.suffix_cons c line).isInfix)]
    rfl

/-- The first occurrence is found. -/
theorem find_first {ch : UInt8} {front tail : List UInt8} (hch : ch ≠ 0)
    (h : ∀ c ∈ front, c ≠ ch ∧ c ≠ 0) :
    find ch (front ++ ch :: tail) = some front.length := by
  induction front with
  | nil => simp [find, hch]
  | cons c front ih =>
    obtain ⟨hne, hzero⟩ := h c List.mem_cons_self
    rw [List.cons_append]
    unfold find
    rw [if_neg hzero, if_neg hne, ih fun d hd => h d (List.mem_cons_of_mem _ hd)]
    rfl

/-- A digit of a small code does not wrap. -/
theorem codeStep_small {n : Nat} {c : UInt8} (hn : n < 1000) (hc : 0x30 ≤ c ∧ c ≤ 0x39) :
    (c - 0x30).toNat ≤ 9 ∧ codeStep n c = (n * 10 + (c - 0x30).toNat : Nat) := by
  have hle : (c - 0x30).toNat ≤ 9 := by
    rw [UInt8.toNat_sub_of_le _ _ hc.1]
    have hhigh := UInt8.le_iff_toNat_le.mp hc.2
    have hbounds : (0x39 : UInt8).toNat = 57 ∧ (0x30 : UInt8).toNat = 48 := ⟨rfl, rfl⟩
    omega
  refine ⟨hle, ?_⟩
  have hcast : (n : Int) * 10 + (c - 0x30).toNat = (n * 10 + (c - 0x30).toNat : Nat) := by omega
  unfold codeStep Int.bmod
  rw [hcast, Int.emod_eq_of_lt (by omega) (by omega), if_pos (by omega)]

/-- The digits are read as their decimal value. -/
theorem digits_value {code : List UInt8} (hn : (n + 1) * 10 ^ code.length ≤ 1000)
    (hdigit : ∀ c ∈ code, 0x30 ≤ c ∧ c ≤ 0x39) :
    code.foldl codeStep (n : Int) =
      (code.foldl (fun n c => n * 10 + (c - 0x30).toNat) n : Nat) := by
  induction code generalizing n with
  | nil => rfl
  | cons c code ih =>
    have hpos : 0 < 10 ^ code.length := Nat.pow_pos (by decide)
    rw [List.length_cons, Nat.pow_succ'] at hn
    have hsmall : (n + 1) * 10 * 10 ^ code.length ≤ 1000 := by rwa [Nat.mul_assoc]
    have hbound := Nat.le_trans (Nat.le_mul_of_pos_right ((n + 1) * 10) hpos) hsmall
    obtain ⟨hle, hstep⟩ := @codeStep_small n c (by omega) (hdigit c List.mem_cons_self)
    rw [List.foldl_cons, List.foldl_cons, hstep]
    refine ih (Nat.le_trans (Nat.mul_le_mul_right _ ?_) hsmall) fun d hd => hdigit d
      (List.mem_cons_of_mem _ hd)
    omega

/-- Of a well-formed line the three digits are the status code. -/
theorem statusCode_reply {version code tail : List UInt8}
    (hversion : ∀ c ∈ version, c ≠ 0x20 ∧ c ≠ 0) (hdigits : code.length = 3)
    (hdigit : ∀ c ∈ code, 0x30 ≤ c ∧ c ≤ 0x39) :
    statusCode (version ++ 0x20 :: (code ++ 0x20 :: tail)) =
      (code.foldl (fun n c => n * 10 + (c - 0x30).toNat) 0 : Nat) := by
  have hcode : ∀ c ∈ code, c ≠ 0x20 ∧ c ≠ 0 := by
    intro c hc
    obtain ⟨hlow, -⟩ := hdigit c hc
    constructor <;> (rintro rfl; revert hlow; decide)
  have hdrop : (version ++ 0x20 :: (code ++ 0x20 :: tail)).drop (version.length + 1) =
      code ++ 0x20 :: tail := by
    rw [List.drop_length_add_append]
    rfl
  have hall : (code.takeWhile fun c => 0x30 ≤ c && c ≤ 0x39) = code :=
    List.takeWhile_eq_self_iff.mpr fun c hc => by simpa using hdigit c hc
  unfold statusCode
  rw [find_first (by decide) hversion]
  dsimp only
  rw [hdrop, find_first (by decide) hcode]
  dsimp only
  rw [List.take_left' rfl, hall]
  exact digits_value (by simp [hdigits]) hdigit

def stored (h : List UInt8 × List UInt8) : List UInt8 × List UInt8 :=
  (h.1.take 63, (ownValue h.2).take 255)

/-- One well-formed header line is stored, cut to its field. -/
theorem headersFrom_header {h : List UInt8 × List UInt8} {tail : List UInt8}
    {response : HttpResponse} (hname : ∀ c ∈ h.1, c ≠ 0x3A ∧ c ≠ 0)
    (hline : ¬ [cr, lf] <:+: headerLine h) (hroom : response.headers.length < httpMaxHeaders) :
    headersFrom (rounds + 1) (headerBytes h ++ tail) response =
      headersFrom rounds tail (response.addHeader (stored h).1 (stored h).2) := by
  have hbytes : headerBytes h ++ tail = headerLine h ++ cr :: lf :: tail := by simp [headerBytes]
  have hlen : (headerLine h).length = h.1.length + 1 + h.2.length := by
    rw [headerLine, List.length_append, List.length_cons]
    omega
  have hdrop : (headerLine h ++ cr :: lf :: tail).drop ((headerLine h).length + 2) = tail := by
    rw [List.drop_length_add_append]
    rfl
  have hheader : headerOf (headerLine h ++ cr :: lf :: tail) (headerLine h).length =
      some (stored h) := by
    have hfind : find 0x3A (headerLine h ++ cr :: lf :: tail) = some h.1.length := by
      unfold headerLine
      rw [List.append_assoc]
      exact find_first (by decide) hname
    have htake : (headerLine h ++ cr :: lf :: tail).take (min h.1.length 63) = h.1.take 63 := by
      unfold headerLine
      rw [List.append_assoc, List.take_append_of_le_length (Nat.min_le_left _ _), Nat.min_comm,
        ← List.take_eq_take_min]
    have hvalue : (headerLine h).drop (h.1.length + 1) = h.2 := by
      unfold headerLine
      rw [List.drop_length_add_append]
      rfl
    unfold headerOf stored
    rw [hfind]
    dsimp only
    rw [if_neg (by omega), htake, List.take_left' rfl, hvalue]
  rw [hbytes]
  conv_lhs => unfold headersFrom
  rw [if_neg (by simp [Nat.not_le.mpr hroom]), lineEnd_line hline]
  dsimp only
  rw [if_neg (by omega), hheader, hdrop]

/-- All header lines of a well-formed reply are stored, cut to their fields. -/
theorem headersFrom_reply {headers : List (List UInt8 × List UInt8)} {body : List UInt8}
    {response : HttpResponse} (hnames : ∀ h ∈ headers, ∀ c ∈ h.1, c ≠ 0x3A ∧ c ≠ 0)
    (hlines : ∀ h ∈ headers, ¬ [cr, lf] <:+: headerLine h) (hrounds : headers.length < rounds)
    {r : List UInt8 × HttpResponse}
    (hr : headersFrom rounds (headers.flatMap headerBytes ++ cr :: lf :: body) response = r) :
    r.2.statusCode = response.statusCode ∧
      (response.headers.length + headers.length < httpMaxHeaders → r.1 = body ∧
        r.2.headers = response.headers ++ headers.map stored) ∧
      (httpMaxHeaders ≤ response.headers.length + headers.length → body.length < r.1.length) := by
  induction headers generalizing rounds response with
  | nil =>
    obtain ⟨rounds, rfl⟩ : ∃ k, rounds = k + 1 := ⟨rounds - 1, by simp at hrounds; omega⟩
    obtain rfl := hr
    unfold headersFrom
    by_cases hroom : httpMaxHeaders ≤ response.headers.length
    · rw [if_pos (.inr hroom)]
      refine ⟨rfl, fun h => absurd h (by simpa using hroom), fun _ => ?_⟩
      exact Nat.lt_succ_of_lt (Nat.lt_succ_self _)
    · have hline : lineEnd (cr :: lf :: body) = some 0 := rfl
      rw [if_neg (by simp [hroom]), List.flatMap_nil, List.nil_append, hline]
      exact ⟨rfl, fun _ => ⟨rfl, by simp⟩, fun h => absurd h (by simpa using hroom)⟩
  | cons h headers ih =>
    obtain ⟨rounds, rfl⟩ : ∃ k, rounds = k + 1 := ⟨rounds - 1, by simp at hrounds; omega⟩
    rw [List.flatMap_cons, List.append_assoc] at hr
    simp only [List.length_cons] at hrounds ⊢
    by_cases hroom : httpMaxHeaders ≤ response.headers.length
    · obtain rfl := hr
      unfold headersFrom
      rw [if_pos (.inr hroom)]
      refine ⟨rfl, fun h => by omega, fun _ => ?_⟩
      simp
      omega
    · rw [headersFrom_header (hnames h List.mem_cons_self) (hlines h List.mem_cons_self) (by omega)] at hr
      obtain ⟨hcode, hshort, hlong⟩ := ih (fun x hx => hnames x (List.mem_cons_of_mem _ hx))
        (fun x hx => hlines x (List.mem_cons_of_mem _ hx)) (by omega) hr
      have hcount : (response.addHeader (stored h).1 (stored h).2).headers.length =
          response.headers.length + 1 := by
        simp [HttpResponse.addHeader]
      rw [hcount] at hshort hlong
      refine ⟨hcode, fun hfits => ?_, fun hfull => hlong (by omega)⟩
      obtain ⟨hbody, hheaders⟩ := hshort (by omega)
      refine ⟨hbody, ?_⟩
      rw [hheaders]
      simp [HttpResponse.addHeader]

/-- Every header line takes at least a byte. -/
theorem length_le_headers (headers : List (List UInt8 × List UInt8)) :
    headers.length ≤ (headers.flatMap headerBytes).length := by
  induction headers with
  | nil => exact Nat.le_refl _
  | cons h headers ih =>
    rw [List.flatMap_cons, List.length_append, List.length_cons, headerBytes, List.length_append]
    change _ ≤ (headerLine h).length + 2 + _
    omega

/-- Nothing is cut exactly when everything fits. -/
theorem map_stored_iff {headers : List (List UInt8 × List UInt8)} :
    headers.map stored = headers.map (fun h => (h.1, ownValue h.2)) ↔
      ∀ h ∈ headers, h.1.length < httpMaxHeaderName ∧
      (ownValue h.2).length < httpMaxHeaderValue := by
  rw [List.map_inj_left]
  refine forall₂_congr fun h _ => ?_
  unfold stored
  rw [Prod.mk.injEq, List.take_eq_self_iff, List.take_eq_self_iff]
  exact and_congr Nat.lt_succ_iff.symm Nat.lt_succ_iff.symm

/-- The parser reports a reply as it is exactly when the reply is short. -/
theorem reports_iff {r : Reply} (hr : r.Valid) (hstop : SearchesStop r.bytes) (beyond : List UInt8)
    (response : HttpResponse) :
    (∃ ok parsed, (httpParseResponse r.bytes beyond response).result = some (ok, parsed) ∧
      Reports r parsed) ↔ r.Short := by
  have hline : lineEnd r.bytes = some r.statusLine.length := lineEnd_line hr.statusLine
  have hdrop : r.bytes.drop (r.statusLine.length + 2) = r.headers.flatMap headerBytes ++
      cr :: lf :: r.body := by
    unfold Reply.bytes
    rw [List.drop_length_add_append]
    rfl
  have hcode : statusCode r.bytes = (r.code.foldl (fun n c => n * 10 + (c - 0x30).toNat) 0 : Nat) := by
    unfold Reply.bytes Reply.statusLine
    rw [List.append_assoc, List.cons_append, List.append_assoc, List.cons_append]
    exact statusCode_reply hr.version hr.digits hr.digit
  obtain ⟨version, text, hsettles⟩ := @httpParseResponse_settles r.bytes beyond _ response hline
  have hresult := hsettles.result (hstop _ hline)
  have hrounds : r.headers.length < r.bytes.length + 1 := by
    have hle := congrArg List.length hdrop
    have hheaders := length_le_headers r.headers
    simp only [List.length_drop, List.length_append, List.length_cons] at hle
    omega
  rw [hdrop, hcode] at hresult
  generalize hp : headersFrom (r.bytes.length + 1) _ _ = p at hresult
  obtain ⟨hstatus, hshort, hlong⟩ := headersFrom_reply hr.names hr.lines hrounds hp
  rw [hresult]
  have hbody : (if p.1 = [] then none else some p.1 : Option (List UInt8)).getD [] = p.1 := by
    split
    · exact Eq.symm ‹_›
    · rfl
  constructor
  · rintro ⟨ok, parsed, heq, hreports⟩
    obtain ⟨rfl, rfl⟩ := Prod.mk.inj (Option.some.inj heq)
    have hfits : r.headers.length < httpMaxHeaders := by
      by_contra hfull
      have hlt := hlong (by simpa using hfull)
      have hsame : p.1 = r.body := hbody.symm.trans hreports.body
      rw [hsame] at hlt
      exact Nat.lt_irrefl _ hlt
    obtain ⟨-, hheaders⟩ := hshort (by simpa using hfits)
    have hmap := hheaders.symm.trans hreports.headers
    rw [List.take_of_length_le (Nat.le_of_lt hfits)] at hmap
    exact ⟨hfits, map_stored_iff.mp hmap⟩
  · rintro ⟨hfits, hlengths⟩
    obtain ⟨hbodyEq, hheaders⟩ := hshort (by simpa using hfits)
    refine ⟨_, _, rfl, hstatus, ?_, hbody.trans hbodyEq⟩
    rw [List.take_of_length_le (Nat.le_of_lt hfits), ← map_stored_iff.mpr hlengths]
    exact hheaders

theorem parsesRight_iff (data : List UInt8) :
    ParsesRight data ↔ SearchesStop data ∧ ∀ r : Reply, r.Valid → r.bytes = data → r.Short := by
  constructor
  · intro h
    have hstop : SearchesStop data := (inside_iff [] {}).mp (h.inside [] {})
    refine ⟨hstop, ?_⟩
    rintro r hr rfl
    exact (reports_iff hr hstop [] {}).mp (h.reports r hr rfl [] {})
  · rintro ⟨hstop, hshort⟩
    refine ⟨fun beyond response => (inside_iff beyond response).mpr hstop, ?_⟩
    rintro r hr rfl beyond response
    exact (reports_iff hr hstop beyond response).mpr (hshort r hr rfl)

theorem not_parsesRight_line : ¬ ParsesRight [0x48, cr, lf] := by
  intro h
  have hstop := (inside_iff [] {}).mp (h.inside [] {})
  have hspace : ¬ ((0x20 : UInt8) ∈ [0x48, cr, lf] ∨ 0 ∈ [0x48, cr, lf]) := by decide
  exact hspace (hstop 1 rfl).1.1

end Monios.Analysis.ResponseParsing
