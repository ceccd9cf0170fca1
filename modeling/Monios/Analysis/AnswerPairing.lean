import Monios.Library.Run
import Monios.Model.Netfs

/-!
# Requests and answers of the network file system

An operation reads the whole answer to its request or returns with a failure. So as long as no bytes
are left over while the session is up, every operation reads its own answer (`perform_paired`).
-/

set_option autoImplicit false

namespace Monios.Analysis.AnswerPairing

open Monios.Library Monios.Model.Netfs

variable {pending got : List Tagged} {a : Answer} {len : Nat} {r : Received} {id : Nat} {s : Session}

def answerResult (q : Request) (a : Answer) : Int × List UInt8 :=
  if a.status ≠ netfsStatusOk then (-2, [])
  else if a.data.length = 0 then (0, [])
  else
    match q.respCap with
    | none => (int32 a.data.length, [])
    | some cap => (int32 (min a.data.length cap), a.data.take cap)

/-- The operation returns what it returns for a failed transport, or what it returns for the answer
to its own request; and all bytes that it has received belong to that answer. -/
structure Paired (s : Session) (op : Op) (env : Env) : Prop where
  result : ∀ q, op.call.request = some q → (perform op env s).1 = op.call.finish (-1) [] ∨
      (perform op env s).1 = op.call.finish (answerResult q env.answer).1 (answerResult q env.answer).2
  received : ∀ q, op.call.request = some q → ∀ b ∈ (nfTransact q env s).received, b.1 = s.requests

/-- No wait is longer than `NF_RECV_WAIT`: among so many polls and one there is one that finds bytes
or a broken connection. -/
def Prompt (polls : Nat → Poll) : Prop := ∀ i, ∃ j ≤ nfRecvWait, polls (i + j) ≠ .bytes 0

def InTime (s : Session) : Action → Prop
  | .operation _ env => s.sessionUp = true → Prompt env.polls
  | _ => True

def Drained (s : Session) : Prop := s.sessionUp = true → s.pending = []

structure Takes (len : Nat) (pending got : List Tagged) (r : Received) : Prop where
  split : ∃ taken, r.got = got ++ taken ∧ pending = taken ++ r.pending ∧ (r.ending = .full → taken.length = len)

/-- Two receptions in a row. -/
theorem Takes.trans {len len' : Nat} {r r' : Received} (h : Takes len pending got r)
    (hfull : r.ending = .full) (h' : Takes len' r.pending r.got r') :
    Takes (len + len') pending got r' := by
  obtain ⟨taken, hgot, hpending, hlength⟩ := h.split
  obtain ⟨taken', hgot', hpending', hlength'⟩ := h'.split
  refine ⟨taken ++ taken', ?_, ?_, fun hend => ?_⟩
  · rw [hgot', hgot, List.append_assoc]
  · rw [hpending, hpending', List.append_assoc]
  · rw [List.length_append, hlength hfull, hlength' hend]

section

variable {polls : Nat → Poll}

/-- `nf_recv_full` takes the next bytes of the answer. -/
theorem nfRecvFull_takes (polls : Nat → Poll) (len waited pos : Nat) (pending got : List Tagged) :
    Takes len pending got (nfRecvFull polls len waited pos pending got) := by
  induction len, waited, pos, pending, got using nfRecvFull.induct polls with
  | case1 waited pos pending got =>
    rw [nfRecvFull, if_pos rfl]
    exact ⟨[], by simp, rfl, fun _ => rfl⟩
  | case2 len waited pos pending got hlen hpoll =>
    rw [nfRecvFull, if_neg hlen, hpoll]
    exact ⟨[], by simp, rfl, fun h => by cases h⟩
  | case3 len waited pos pending got hlen available hpoll n hn ih =>
    rw [nfRecvFull, if_neg hlen, hpoll]
    simp only
    rw [if_pos hn]
    obtain ⟨taken, hgot, hpending, hlength⟩ := ih.split
    refine ⟨pending.take n ++ taken, ?_, ?_, fun hend => ?_⟩
    · rw [hgot, List.append_assoc]
    · rw [List.append_assoc, ← hpending, List.take_append_drop]
    · rw [List.length_append, hlength hend, List.length_take]
      omega
  | case4 len waited pos pending got hlen available hpoll n hn hwait =>
    rw [nfRecvFull, if_neg hlen, hpoll]
    simp only
    rw [if_neg hn, if_pos hwait]
    exact ⟨[], by simp, rfl, fun h => by cases h⟩
  | case5 len waited pos pending got hlen available hpoll n hn hwait ih =>
    rw [nfRecvFull, if_neg hlen, hpoll]
    simp only
    rw [if_neg hn, if_neg hwait]
    exact ih

def Waited (polls : Nat → Poll) (waited pos : Nat) : Prop :=
  waited ≤ pos ∧ ∀ i, pos - waited ≤ i → i < pos → polls i = .bytes 0

/-- At the start nothing has been waited. -/
theorem Waited.zero (pos : Nat) : Waited polls 0 pos := ⟨Nat.zero_le _, fun i h h' => by omega⟩

/-- With prompt polls a reception of bytes that are there does not time out. -/
theorem nfRecvFull_inTime (hprompt : Prompt polls) (len waited pos : Nat)
    (pending got : List Tagged) (hwaited : Waited polls waited pos)
    (henough : len ≤ pending.length) :
    (nfRecvFull polls len waited pos pending got).ending ≠ .timedOut := by
  induction len, waited, pos, pending, got using nfRecvFull.induct polls with
  | case1 waited pos pending got =>
    rw [nfRecvFull, if_pos rfl]
    simp
  | case2 len waited pos pending got hlen hpoll =>
    rw [nfRecvFull, if_neg hlen, hpoll]
    simp
  | case3 len waited pos pending got hlen available hpoll n hn ih =>
    rw [nfRecvFull, if_neg hlen, hpoll]
    simp only
    rw [if_pos hn]
    exact ih (Waited.zero _) (by rw [List.length_drop]; omega)
  | case4 len waited pos pending got hlen available hpoll n hn hwait =>
    exfalso
    have hempty : polls pos = .bytes 0 := by
      rw [hpoll]
      congr 1
      omega
    obtain ⟨j, hj, hfound⟩ := hprompt (pos - waited)
    obtain ⟨hle, hquiet⟩ := hwaited
    by_cases hlast : pos - waited + j = pos
    · exact hfound (by rw [hlast, hempty])
    · exact hfound (hquiet _ (by omega) (by omega))
  | case5 len waited pos pending got hlen available hpoll n hn hwait ih =>
    rw [nfRecvFull, if_neg hlen, hpoll]
    simp only
    rw [if_neg hn, if_neg hwait]
    refine ih ⟨by have := hwaited.1; omega, fun i hi hlt => ?_⟩ henough
    by_cases hlast : i = pos
    · rw [hlast, hpoll]
      congr 1
      omega
    · exact hwaited.2 i (by omega) (by omega)

/-- Draining takes the next bytes of the answer. -/
theorem nfDrain_takes (polls : Nat → Poll) (n pos : Nat) (pending got : List Tagged) :
    Takes n pending got (nfDrain polls n pos pending got) := by
  induction n, pos, pending, got using nfDrain.induct polls with
  | case1 pos pending got =>
    rw [nfDrain, if_pos rfl]
    exact ⟨[], by simp, rfl, fun _ => rfl⟩
  | case2 n pos pending got hn r hfull ih =>
    rw [nfDrain, if_neg hn]
    simp only
    rw [if_pos hfull]
    have htakes := (nfRecvFull_takes polls (min n 256) 0 pos pending got).trans hfull ih
    rwa [Nat.add_sub_cancel' (Nat.min_le_left _ _)] at htakes
  | case3 n pos pending got hn r hend =>
    rw [nfDrain, if_neg hn]
    simp only
    rw [if_neg hend]
    obtain ⟨taken, hgot, hpending, -⟩ := (nfRecvFull_takes polls (min n 256) 0 pos pending got).split
    exact ⟨taken, hgot, hpending, fun h => absurd h hend⟩

/-- With prompt polls draining does not time out. -/
theorem nfDrain_inTime (hprompt : Prompt polls) (n pos : Nat) (pending got : List Tagged)
    (henough : n ≤ pending.length) :
    (nfDrain polls n pos pending got).ending ≠ .timedOut := by
  induction n, pos, pending, got using nfDrain.induct polls with
  | case1 pos pending got =>
    rw [nfDrain, if_pos rfl]
    simp
  | case2 n pos pending got hn r hfull ih =>
    rw [nfDrain, if_neg hn]
    simp only
    rw [if_pos hfull]
    obtain ⟨taken, -, hpending, hlength⟩ := (nfRecvFull_takes polls (min n 256) 0 pos pending got).split
    have hlen := congrArg List.length hpending
    rw [List.length_append, hlength hfull] at hlen
    apply ih
    show n - min n 256 ≤ (nfRecvFull polls (min n 256) 0 pos pending got).pending.length
    omega
  | case3 n pos pending got hn r hend =>
    rw [nfDrain, if_neg hn]
    simp only
    rw [if_neg hend]
    exact nfRecvFull_inTime hprompt _ _ _ _ _ (Waited.zero pos) (by omega)

/-- Taking all that is pending leaves nothing. -/
theorem Takes.all (h : Takes len pending got r)
    (hlen : len = pending.length) (hfull : r.ending = .full) : r.pending = [] := by
  obtain ⟨taken, -, hpending, hlength⟩ := h.split
  have hall := congrArg List.length hpending
  rw [List.length_append, hlength hfull] at hall
  exact List.eq_nil_of_length_eq_zero (by omega)

/-- What has been received was pending or had been received. -/
theorem Takes.received (h : Takes len pending got r) {P : Tagged → Prop}
    (hpending : ∀ b ∈ pending, P b) (hgot : ∀ b ∈ got, P b) : ∀ b ∈ r.got, P b := by
  obtain ⟨taken, heq, hsplit, -⟩ := h.split
  rw [heq]
  intro b hb
  rcases List.mem_append.mp hb with hb | hb
  · exact hgot b hb
  · exact hpending b (by rw [hsplit]; exact List.mem_append_left _ hb)

end

def taggedAnswer (id : Nat) (a : Answer) : List Tagged := a.bytes.map fun b => (id, b)

def taggedHeader (id : Nat) (a : Answer) : List Tagged :=
  (a.status :: le32 a.data.length).map fun b => (id, b)

def taggedData (id : Nat) (a : Answer) : List Tagged := a.data.map fun b => (id, b)

/-- An answer is its header and its data. -/
theorem taggedAnswer_eq (id : Nat) (a : Answer) :
    taggedAnswer id a = taggedHeader id a ++ taggedData id a := by
  simp [taggedAnswer, taggedHeader, taggedData, Answer.bytes]

/-- The header has its fixed length. -/
theorem taggedHeader_length (id : Nat) (a : Answer) : (taggedHeader id a).length = nfRespFixed :=
  rfl

/-- The data have the answer's length. -/
theorem taggedData_length (id : Nat) (a : Answer) : (taggedData id a).length = a.data.length :=
  List.length_map _

/-- The status stands in the header. -/
theorem taggedHeader_status (id : Nat) (a : Answer) :
    ((taggedHeader id a).map Prod.snd).headD 0 = a.status := rfl

/-- The length of the data stands in the header. -/
theorem taggedHeader_rlen (id : Nat) (a : Answer) :
    readU32 ((taggedHeader id a).map Prod.snd) 1 = a.data.length := by
  have hdata := a.data_lt
  simp only [taggedHeader, List.map_map, readU32, readU16, byteAt, le32, le16]
  simp
  omega

/-- A header that is received in full is the answer's. -/
theorem header_full {polls : Nat → Poll} {id pos : Nat} {header : Received}
    (heq : nfRecvFull polls nfRespFixed 0 pos (taggedAnswer id a) [] = header)
    (hfull : header.ending = .full) :
    header.got = taggedHeader id a ∧ header.pending = taggedData id a := by
  obtain ⟨taken, hgot, hpending, hlength⟩ :=
    heq ▸ nfRecvFull_takes polls nfRespFixed 0 pos (taggedAnswer id a) []
  rw [taggedAnswer_eq] at hpending
  obtain ⟨hheader, hdata⟩ := List.append_inj hpending (by rw [hlength hfull, taggedHeader_length])
  rw [hgot, List.nil_append]
  exact ⟨hheader.symm, hdata.symm⟩

/-- What an operation makes of an answer: the result for it or that of a failed transport, from
bytes of this answer only, and nothing left over where the bytes come in time. -/
structure Reads (q : Request) (id : Nat) (a : Answer) (polls : Nat → Poll) (o : Outcome) : Prop where
  result : (o.result, o.data) = (-1, []) ∨ (o.result, o.data) = answerResult q a
  received : ∀ b ∈ o.received, b.1 = id
  drained : Prompt polls → Drained o.session

/-- The bytes of an answer carry its number. -/
theorem tagged_id {bytes : List UInt8} : ∀ b ∈ bytes.map (fun b => (id, b)), b.1 = id := by
  intro b hb
  obtain ⟨_, -, rfl⟩ := List.mem_map.mp hb
  rfl

/-- A request that takes the whole answer reads it. -/
theorem reads_of_takes {q : Request} {polls : Nat → Poll} {rest : Received}
    {result : Int} {data : List UInt8}
    (hresult : (result, data) = (-1, []) ∨ (result, data) = answerResult q a)
    (htakes : Takes pending.length pending got rest) (hpending : ∀ b ∈ pending, b.1 = id)
    (hgot : ∀ b ∈ got, b.1 = id) (hinTime : Prompt polls → rest.ending ≠ .timedOut) :
    Reads q id a polls ⟨result, data, rest.got, s.after rest⟩ where
  result := hresult
  received := htakes.received (P := fun b => b.1 = id) hpending hgot
  drained hprompt hup := by
    have hend : rest.ending = .full := by
      simp only [Session.after, Bool.and_eq_true, bne_iff_ne] at hup
      cases hcase : rest.ending with
      | full => rfl
      | timedOut => exact absurd hcase (hinTime hprompt)
      | broken => exact absurd hcase hup.2
    exact htakes.all rfl hend

/-- A reception that stopped early would have stopped for more. -/
theorem Takes.of_not_full (h : Takes len pending got r)
    (hend : r.ending ≠ .full) (n : Nat) : Takes n pending got r := by
  obtain ⟨taken, hgot, hpending, -⟩ := h.split
  exact ⟨taken, hgot, hpending, fun hfull => absurd hfull hend⟩

/-- Data that are received in full are the answer's. -/
theorem data_full {id len : Nat} {body : Received}
    (h : Takes len (taggedData id a) (taggedHeader id a) body) (hfull : body.ending = .full) :
    (body.got.drop nfRespFixed).map Prod.snd = a.data.take len := by
  obtain ⟨taken, hgot, hpending, hlength⟩ := h.split
  rw [hgot, ← taggedHeader_length id a, List.drop_left]
  have hsnd : a.data = (taggedData id a).map Prod.snd := by simp [taggedData, Function.comp_def]
  rw [hsnd, hpending, List.map_append, List.take_left' (by rw [List.length_map, hlength hfull])]

/-- Behind its header the answer is read in full, or cut to the buffer and drained. -/
theorem nfFinish_reads (q : Request) (polls : Nat → Poll) (s : Session) {header : Received}
    (hgot : header.got = taggedHeader id a) (hpending : header.pending = taggedData id a)
    (hfull : header.ending = .full) :
    Reads q id a polls (nfFinish q polls s header) := by
  have hreads {result : Int} {data : List UInt8} {rest : Received}
      (hresult : (result, data) = (-1, []) ∨ (result, data) = answerResult q a)
      (htakes : Takes a.data.length (taggedData id a) (taggedHeader id a) rest)
      (hinTime : Prompt polls → rest.ending ≠ .timedOut) : Reads q id a polls ⟨result, data, rest.got, s.after rest⟩ := by
    rw [← taggedData_length id a] at htakes
    exact reads_of_takes hresult htakes tagged_id tagged_id hinTime
  have hdrain := nfDrain_takes polls a.data.length header.pos (taggedData id a) (taggedHeader id a)
  have hdrainInTime (hprompt : Prompt polls) :=
    nfDrain_inTime hprompt a.data.length header.pos (taggedData id a)
    (taggedHeader id a) (Nat.le_of_eq (taggedData_length id a).symm)
  rw [nfFinish, hgot, hpending, taggedHeader_status, taggedHeader_rlen]
  by_cases hstatus : a.status ≠ netfsStatusOk
  · rw [if_pos hstatus]
    exact hreads (.inr (by rw [answerResult, if_pos hstatus])) hdrain hdrainInTime
  rw [if_neg hstatus]
  by_cases hempty : a.data.length = 0
  · rw [if_pos hempty, ← hgot]
    refine hreads (.inr (by rw [answerResult, if_neg hstatus, if_pos hempty])) ?_ fun _ =>
      by simp [hfull]
    exact ⟨[], by simp [hgot], by rw [hpending, List.nil_append], fun _ => by simp [hempty]⟩
  rw [if_neg hempty]
  cases hcap : q.respCap with
  | none =>
    refine hreads ?_ hdrain hdrainInTime
    split
    · exact .inr (by rw [answerResult, if_neg hstatus, if_neg hempty, hcap])
    · exact .inl rfl
  | some respCap =>
    simp only
    generalize hcapped : min a.data.length respCap = len
    have hlen := taggedData_length id a
    have hbody := nfRecvFull_takes polls len 0 header.pos (taggedData id a) (taggedHeader id a)
    have hbodyInTime (hprompt : Prompt polls) :=
      nfRecvFull_inTime hprompt len 0 header.pos (taggedData id a) (taggedHeader id a) (Waited.zero _) (by omega)
    generalize nfRecvFull polls len 0 header.pos (taggedData id a) (taggedHeader id a) = body at hbody hbodyInTime
    by_cases hend : body.ending ≠ .full
    · rw [if_pos hend]
      exact hreads (.inl rfl) (hbody.of_not_full hend _) hbodyInTime
    rw [if_neg hend]
    have hbodyFull : body.ending = .full := not_not.mp hend
    have hleft : a.data.length - len ≤ body.pending.length := by
      obtain ⟨taken, -, hsplit, hlength⟩ := hbody.split
      have hall := congrArg List.length hsplit
      rw [List.length_append, hlength hbodyFull] at hall
      omega
    have hrest := hbody.trans hbodyFull (nfDrain_takes polls (a.data.length - len) body.pos body.pending body.got)
    have hrestInTime (hprompt : Prompt polls) :=
      nfDrain_inTime hprompt (a.data.length - len) body.pos body.pending body.got hleft
    rw [Nat.add_sub_cancel' (by omega)] at hrest
    generalize nfDrain polls (a.data.length - len) body.pos body.pending body.got = rest at hrest hrestInTime
    by_cases hrestEnd : rest.ending ≠ .full
    · rw [if_pos hrestEnd]
      exact hreads (.inl rfl) hrest hrestInTime
    rw [if_neg hrestEnd, data_full hbody hbodyFull]
    refine hreads (.inr ?_) hrest hrestInTime
    rw [answerResult, if_neg hstatus, if_neg hempty, hcap, ← hcapped]
    simp only [List.take_eq_take_iff, Prod.mk.injEq, true_and]
    omega

/-- On a drained session a request reads its own answer. -/
theorem nfTransact_reads (q : Request) (env : Env) (h : Drained s) :
    Reads q s.requests env.answer env.polls (nfTransact q env s) := by
  rw [nfTransact]
  by_cases hdown : (!s.sessionUp || !s.handle) = true
  · rw [if_pos hdown]
    exact ⟨.inl rfl, by simp, fun _ => h⟩
  rw [if_neg hdown]
  by_cases hpath : q.path.length > nfMaxPath
  · rw [if_pos hpath]
    exact ⟨.inl rfl, by simp, fun _ => h⟩
  rw [if_neg hpath]
  by_cases hsent : (!env.requestSent || (0 < q.payload.length && !env.payloadSent)) = true
  · rw [if_pos hsent]
    exact ⟨.inl rfl, by simp, fun _ hup => absurd hup Bool.false_ne_true⟩
  rw [if_neg hsent]
  have hup : s.sessionUp = true := by
    simp only [Bool.or_eq_true, Bool.not_eq_true', not_or, Bool.not_eq_false] at hdown
    exact hdown.1
  have hpending : s.pending ++ env.answer.bytes.map (fun b => (s.requests, b)) =
      taggedAnswer s.requests env.answer := by
    rw [h hup]
    rfl
  simp only
  rw [hpending]
  generalize hheader : nfRecvFull env.polls nfRespFixed 0 0 (taggedAnswer s.requests env.answer) [] = header
  by_cases hend : header.ending ≠ .full
  · rw [if_pos hend]
    have htakes := hheader ▸ nfRecvFull_takes env.polls nfRespFixed 0 0 (taggedAnswer s.requests env.answer) []
    refine reads_of_takes (.inl rfl) (htakes.of_not_full hend _) tagged_id (by simp) fun hprompt =>
      ?_
    rw [← hheader]
    exact nfRecvFull_inTime hprompt _ _ _ _ _ (Waited.zero _) (by
      rw [taggedAnswer_eq, List.length_append, taggedHeader_length]
      omega)
  rw [if_neg hend]
  obtain ⟨hgot, hrest⟩ := header_full hheader (not_not.mp hend)
  exact nfFinish_reads q env.polls _ hgot hrest (not_not.mp hend)

/-- On a drained session every operation is paired with its answer. -/
theorem Drained.paired (h : Drained s) (op : Op) (env : Env) : Paired s op env where
  result q hq := by
    have hresult := (nfTransact_reads q env h).result
    simp only [perform, hq]
    rcases hresult with hresult | hresult
    · left
      rw [(Prod.mk.inj hresult).1, (Prod.mk.inj hresult).2]
    · right
      rw [← hresult]
  received q _ := (nfTransact_reads q env h).received

/-- An operation in time leaves the session drained. -/
theorem Drained.step {s s' : Session} {a : Action} (hinTime : InTime s a) (h : Drained s)
    (hstep : step s a = some s') :
    Drained s' := by
  cases a with
  | init connected =>
    obtain rfl := Option.some.inj hstep
    intro hup
    cases connected with
    | false => exact absurd hup Bool.false_ne_true
    | true => rfl
  | disconnect =>
    obtain rfl := Option.some.inj hstep
    exact fun hup => absurd hup Bool.false_ne_true
  | connected alive =>
    obtain rfl := Option.some.inj hstep
    rw [netfsConnected]
    split
    · exact fun hup => absurd hup Bool.false_ne_true
    · exact h
  | operation op env =>
    obtain rfl := Option.some.inj hstep
    rw [perform]
    cases hq : op.call.request with
    | none => exact h
    | some q =>
      by_cases hup : s.sessionUp = true
      · exact (nfTransact_reads q env h).drained (hinTime hup)
      · have hdown : (!s.sessionUp || !s.handle) = true := by simp [hup]
        simp only [nfTransact, if_pos hdown]
        exact h

theorem perform_paired (as : List Action) (s : Session) (h : RunWhile step InTime {} as s)
    (op : Op) (env : Env) :
    Paired s op env := by
  apply Drained.paired
  apply h.invariant fun s a s' hinTime hs hstep => hs.step hinTime hstep
  exact fun hup => absurd hup Bool.false_ne_true

/-- On a silent line a reception times out. -/
theorem nfRecvFull_silent (polls : Nat → Poll) (hsilent : ∀ i, polls i = .bytes 0) (len : Nat)
    (hlen : len ≠ 0) (waited pos : Nat) (pending got : List Tagged) :
    ∃ pos', nfRecvFull polls len waited pos pending got = ⟨.timedOut, got, pos', pending⟩ := by
  induction len, waited, pos, pending, got using nfRecvFull.induct polls with
  | case1 waited pos pending got => exact absurd rfl hlen
  | case2 len waited pos pending got hlen hpoll =>
    rw [hsilent pos] at hpoll
    cases hpoll
  | case3 len waited pos pending got hlen available hpoll n hn ih =>
    rw [hsilent pos] at hpoll
    cases hpoll
    omega
  | case4 len waited pos pending got hlen available hpoll n hn hwait =>
    rw [nfRecvFull, if_neg hlen, hpoll]
    simp only
    rw [if_neg hn, if_pos hwait]
    exact ⟨_, rfl⟩
  | case5 len waited pos pending got hlen available hpoll n hn hwait ih =>
    rw [nfRecvFull, if_neg hlen, hpoll]
    simp only
    rw [if_neg hn, if_neg hwait]
    exact ih hlen

/-- Bytes that are all there are received at once. -/
theorem nfRecvFull_ready (polls : Nat → Poll) (len pos : Nat) {available : Nat}
    (hpoll : polls pos = .bytes available) (hlen : len ≠ 0) (hready : len ≤ min available 0xFFFF)
    (waited : Nat) (pending : List Tagged) (hpending : len ≤ pending.length) (got : List Tagged) :
    nfRecvFull polls len waited pos pending got =
      ⟨.full, got ++ pending.take len, pos + 1, pending.drop len⟩ := by
  have hall : min available (min (min len 0xFFFF) pending.length) = len := by omega
  rw [nfRecvFull, if_neg hlen, hpoll]
  simp only [hall]
  rw [if_pos (Nat.pos_of_ne_zero hlen), nfRecvFull, if_pos (Nat.sub_self len)]

def bareAnswer (status : UInt8) : Answer := ⟨status, [], by decide⟩

def readyEnv (status : UInt8) : Env := ⟨true, true, bareAnswer status, fun _ => .bytes 65535⟩

def silentEnv (status : UInt8) : Env := ⟨true, true, bareAnswer status, fun _ => .bytes 0⟩

/-- The ready line is prompt. -/
theorem prompt_ready (status : UInt8) : Prompt (readyEnv status).polls :=
  fun _ => ⟨0, Nat.zero_le _, by simp [readyEnv]⟩

theorem perform_paired_ready :
    ∃ s, RunWhile step InTime {} [.init true, .operation (.exist [0x61]) (readyEnv 0)] s ∧
      Paired s (.delete [0x62]) (silentEnv 1) := by
  have hrun : RunWhile step InTime {} [.init true, .operation (.exist [0x61]) (readyEnv 0)] _ :=
    .cons trivial rfl (.cons (fun _ => prompt_ready 0) rfl (.nil _))
  exact ⟨_, hrun, perform_paired _ _ hrun _ _⟩

def lateSession : Session := ⟨true, true, taggedAnswer 0 (bareAnswer 0), 1⟩

/-- A request on a silent line leaves its answer pending. -/
theorem perform_silent : (perform (.exist [0x61]) (silentEnv 0) (netfsInit true {})).2 = lateSession := by
  obtain ⟨pos, hsilent⟩ := nfRecvFull_silent (fun _ => .bytes 0) (fun _ => rfl) nfRespFixed (by decide) 0 0
    (taggedAnswer 0 (bareAnswer 0)) []
  have hpending : (netfsInit true {}).pending ++ (bareAnswer 0).bytes.map (fun b => ((netfsInit true {}).requests, b)) =
      taggedAnswer 0 (bareAnswer 0) := rfl
  simp only [perform, Op.call, netfsExists, statusCall, nfTransact, silentEnv, hpending, hsilent]
  rfl

theorem not_perform_paired : ¬ ∀ (as : List Action) (s : Session) (op : Op)
      (env : Env), Run step {} as s → Paired s op env := by
  intro h
  have hrun : Run step {} [.init true, .operation (.exist [0x61]) (silentEnv 0)] lateSession :=
    .cons rfl (.cons (congrArg some perform_silent) (.nil _))
  have hpaired := h _ _ (.delete [0x62]) (readyEnv 1) hrun
  have hready := nfRecvFull_ready (fun _ => .bytes 65535) nfRespFixed 0 rfl (by decide) (by decide) 0
    (taggedAnswer 0 (bareAnswer 0) ++ taggedAnswer 1 (bareAnswer 1)) (by decide) []
  -- the answer to the first request is received for the second one
  have hfirst : (0, 0) ∈ (nfTransact { cmd := .delete, path := [0x62] } (readyEnv 1) lateSession).received := by
    have hpending : lateSession.pending ++ (bareAnswer 1).bytes.map (fun b => (lateSession.requests, b)) =
        taggedAnswer 0 (bareAnswer 0) ++ taggedAnswer 1 (bareAnswer 1) := rfl
    simp only [nfTransact, readyEnv, hpending, hready]
    decide
  exact absurd (hpaired.received _ rfl _ hfirst) (by decide)

end Monios.Analysis.AnswerPairing
