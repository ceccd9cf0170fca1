import Monios.Library.Ring
import Monios.Model.Pipe

/-!
# The byte stream of a pipe

A pipe is a queue of bytes: a call of `pipe_read` takes bytes from its front and a call of
`pipe_write` puts bytes behind its back, whoever calls and whatever the others do with the ends in
between. So what has been read of a pipe since it was made is the beginning of what has been
written, and the rest is in the ring (`pipe_fifo`).
-/

set_option autoImplicit false

namespace Monios.Analysis.PipeQueue

open Monios.Library Monios.Library.Ring
open Monios.Model.Pipe

def queued (buffer : Block pipeBufSize) (pipe : PipeEntry) : List UInt8 :=
  contents buffer.byte pipeBufSize pipe.head pipe.count

def WellFormed (pipe : PipeEntry) : Prop := Valid pipeBufSize pipe.head pipe.tail pipe.count

section

variable {pipe : PipeEntry} {buffer : Block pipeBufSize}

theorem pipeChunk_bounds (left avail limit : Nat) :
    pipeChunk left avail limit ≤ left ∧ pipeChunk left avail limit ≤ avail ∧
      pipeChunk left avail limit ≤ limit ∧
      (0 < left → 0 < avail → 0 < limit → 0 < pipeChunk left avail limit) := by
  grind [pipeChunk]

theorem pipeReadLoop_spec (h : WellFormed pipe) (count rounds : Nat) (out : List UInt8) :
    ∃ taken, (pipeReadLoop buffer count rounds pipe out).2 = out ++ taken ∧
      queued buffer pipe = taken ++ queued buffer (pipeReadLoop buffer count rounds pipe out).1 ∧
      WellFormed (pipeReadLoop buffer count rounds pipe out).1 ∧
      (pipeReadLoop buffer count rounds pipe out).1.used = pipe.used := by
  induction rounds generalizing pipe out with
  | zero => exact ⟨[], (List.append_nil _).symm, rfl, h, rfl⟩
  | succ rounds ih =>
    unfold pipeReadLoop
    split
    · dsimp only
      generalize hchunk : pipeChunk (count - out.length) (pipeBufSize - pipe.head) pipe.count = chunk
      have hbounds := pipeChunk_bounds (count - out.length) (pipeBufSize - pipe.head) pipe.count
      rw [hchunk] at hbounds
      have hhead := h.head_lt
      have hcount : chunk ≤ pipe.count := hbounds.2.2.1
      have hend : pipe.head + chunk ≤ pipeBufSize := by omega
      have htake := @contents_take _ buffer.byte pipeBufSize pipe.head pipe.count chunk hcount hend
      obtain ⟨taken, hout, hqueue, hvalid, hused⟩ :=
        @ih { pipe with head := (pipe.head + chunk) % pipeBufSize, count := pipe.count - chunk }
          (h.take hcount) (out ++ buffer.bytes pipe.head chunk)
      refine ⟨buffer.bytes pipe.head chunk ++ taken, ?_, ?_, hvalid, hused⟩
      · rw [hout, List.append_assoc]
      · rw [List.append_assoc, ← hqueue]
        exact htake
    · exact ⟨[], (List.append_nil _).symm, rfl, h, rfl⟩

theorem pipeWriteLoop_spec (h : WellFormed pipe) (data : List UInt8) (rounds done : Nat)
    (hdone : done ≤ data.length) :
    let r := pipeWriteLoop data rounds pipe buffer done
    done ≤ r.2.2 ∧ r.2.2 ≤ data.length ∧
      queued r.2.1 r.1 = queued buffer pipe ++ (data.take r.2.2).drop done ∧ WellFormed r.1 ∧ r.1.used = pipe.used := by
  induction rounds generalizing pipe buffer done with
  | zero => exact ⟨Nat.le_refl _, hdone, by simp [pipeWriteLoop], h, rfl⟩
  | succ rounds ih =>
    intro r
    simp only [r]
    unfold pipeWriteLoop
    split
    · next hgo =>
      dsimp only
      generalize hchunk : pipeChunk (data.length - done) (pipeBufSize - pipe.tail) (pipeBufSize - pipe.count) = chunk
      have hbounds := pipeChunk_bounds (data.length - done) (pipeBufSize - pipe.tail) (pipeBufSize - pipe.count)
      rw [hchunk] at hbounds
      have hcountLe := h.count_le
      have htail := h.tail_lt
      have hroom : pipe.count + chunk ≤ pipeBufSize := by omega
      have hend : pipe.tail + chunk ≤ pipeBufSize := by omega
      have hleft : done + chunk ≤ data.length := by omega
      have hlength : ((data.drop done).take chunk).length = chunk := by
        rw [List.length_take, List.length_drop]
        omega
      have hput : queued (buffer.patch pipe.tail ((data.drop done).take chunk))
          { pipe with tail := (pipe.tail + chunk) % pipeBufSize, count := pipe.count + chunk } =
            queued buffer pipe ++ (data.drop done).take chunk := by
        have hcontents := @contents_put _ buffer.byte _ _ _ _ h
          (buffer.patch pipe.tail ((data.drop done).take chunk)).byte ((data.drop done).take chunk)
          (by rw [hlength]; exact hroom) (by rw [hlength]; exact hend) ?_ ?_
        · rw [hlength] at hcontents
          exact hcontents
        · intro i hi
          rw [Block.byte_patch_self buffer hi (by rw [hlength]; exact hend), List.getD_eq_getElem _ _ hi]
          rfl
        · intro p _ hp
          rw [Block.byte_patch_of_disjoint buffer hp]
      obtain ⟨hmono, hle, hqueue, hvalid, hused⟩ :=
        @ih { pipe with tail := (pipe.tail + chunk) % pipeBufSize, count := pipe.count + chunk }
          (buffer.patch pipe.tail ((data.drop done).take chunk)) (h.put hroom) (done + chunk) hleft
      refine ⟨by omega, hle, ?_, hvalid, hused⟩
      rw [hqueue, hput, List.append_assoc]
      congr 1
      generalize (pipeWriteLoop data rounds _ _ (done + chunk)).2.2 = finish at hmono
      have hsplit : (data.take finish).drop done = ((data.take finish).drop done).take chunk ++
          (data.take finish).drop (done + chunk) := by
        conv_lhs => rw [← List.take_append_drop chunk ((data.take finish).drop done)]
        rw [List.drop_drop]
      rw [hsplit]
      congr 1
      rw [List.drop_take, List.take_take]
      congr 1
      omega
    · exact ⟨Nat.le_refl _, hdone, by simp, h, rfl⟩

end

section

variable {s : Data} {fd : Int}

theorem pipeRead_spec (h : ∀ i, WellFormed (s.ends.pipes i)) (bufOk : Bool) (count : Nat) :
    pipeRead fd bufOk count s = (-1, [], s) ∨
      ∃ slot pipe out, s.handleOf fd = some (slot, false) ∧ (s.ends.pipes slot).used = true ∧
        pipeRead fd bufOk count s = (out.length, out, s.set slot pipe (s.buffers slot)) ∧
        queued (s.buffers slot) (s.ends.pipes slot) = out ++ queued (s.buffers slot) pipe ∧
        WellFormed pipe ∧ pipe.used = true := by
  unfold pipeRead
  split
  · exact .inl rfl
  cases hhandle : s.handleOf fd with
  | none => exact .inl rfl
  | some slotEnd =>
    obtain ⟨slot, write⟩ := slotEnd
    dsimp only
    split
    · exact .inl rfl
    next hopen =>
    simp only [Bool.or_eq_true, Bool.not_eq_true', not_or, Bool.not_eq_true,
      Bool.not_eq_false] at hopen
    obtain ⟨rfl, hused⟩ := hopen
    right
    obtain ⟨taken, hout, hqueue, hvalid, hsame⟩ :=
      @pipeReadLoop_spec _ (s.buffers slot) (h slot) count (s.ends.pipes slot).count []
    rw [List.nil_append] at hout
    rw [← hout] at hqueue
    exact ⟨slot, _, _, rfl, hused, rfl, hqueue, hvalid, hsame.trans hused⟩

theorem pipeWrite_spec (h : ∀ i, WellFormed (s.ends.pipes i)) (buf : Option (List UInt8)) :
    pipeWrite fd buf s = (-1, s) ∨ ∃ slot pipe buffer data done, buf = some data ∧
      s.handleOf fd = some (slot, true) ∧
        (s.ends.pipes slot).used = true ∧
        pipeWrite fd buf s = (((done : Nat) : Int), s.set slot pipe buffer) ∧
        queued buffer pipe = queued (s.buffers slot) (s.ends.pipes slot) ++ data.take done ∧
        WellFormed pipe ∧ pipe.used = true := by
  unfold pipeWrite
  cases buf with
  | none => exact .inl rfl
  | some data =>
    dsimp only
    split
    · exact .inl rfl
    cases hhandle : s.handleOf fd with
    | none => exact .inl rfl
    | some slotEnd =>
      obtain ⟨slot, write⟩ := slotEnd
      dsimp only
      split
      · exact .inl rfl
      next hopen =>
      simp only [Bool.or_eq_true, Bool.not_eq_true', not_or, Bool.not_eq_false] at hopen
      obtain ⟨rfl, hused⟩ := hopen
      split
      · exact .inl rfl
      right
      obtain ⟨-, -, hqueue, hvalid, hsame⟩ := @pipeWriteLoop_spec _ (s.buffers slot) (h slot) data
        (pipeBufSize - (s.ends.pipes slot).count) 0 (Nat.zero_le _)
      exact ⟨slot, _, _, data, _, rfl, rfl, hused, rfl, hqueue, hvalid, hsame.trans hused⟩

theorem pipeFreeIfIdle_cases (pipe : PipeEntry) :
    pipeFreeIfIdle pipe = pipe ∨ (pipeFreeIfIdle pipe).head = 0 ∧ (pipeFreeIfIdle pipe).tail = 0 ∧
      (pipeFreeIfIdle pipe).count = 0 ∧ (pipeFreeIfIdle pipe).used = false := by
  unfold pipeFreeIfIdle
  split
  · exact .inr ⟨rfl, rfl, rfl, rfl⟩
  · exact .inl rfl

theorem apply_pipes (s : State) (a : Action) (i : Fin 16) :
    ((apply s a).pipes i).used = (s.pipes i).used ∧ ((apply s a).pipes i).head = (s.pipes i).head ∧
        ((apply s a).pipes i).tail = (s.pipes i).tail ∧
        ((apply s a).pipes i).count = (s.pipes i).count ∨
      ((apply s a).pipes i).head = 0 ∧ ((apply s a).pipes i).tail = 0 ∧
      ((apply s a).pipes i).count = 0 ∧
        (((apply s a).pipes i).used = true → (s.pipes i).used = false) := by
  cases a with
  | proc a => exact .inl ⟨rfl, rfl, rfl, rfl⟩
  | pipeCreate outOk bufferOk =>
    show _ ∧ _ ∨ _
    simp only [apply, pipeCreate]
    split
    · exact .inl ⟨rfl, rfl, rfl, rfl⟩
    split
    · exact .inl ⟨rfl, rfl, rfl, rfl⟩
    split
    · exact .inl ⟨rfl, rfl, rfl, rfl⟩
    next slot hfree =>
    have hunused := List.find?_some hfree
    simp only [Bool.not_eq_true'] at hunused
    have hclosed (t : State) (ht : t.pipes = (s.setPipe slot { s.pipes slot with buffer := false }).pipes) :
        (t.pipes i).used = (s.pipes i).used ∧ (t.pipes i).head = (s.pipes i).head ∧
          (t.pipes i).tail = (s.pipes i).tail ∧ (t.pipes i).count = (s.pipes i).count := by
      rw [ht]
      by_cases hi : i = slot
      · simp [State.setPipe, hi]
      · simp [State.setPipe, hi]
    split
    · exact .inl (hclosed _ rfl)
    split
    · by_cases hi : i = slot
      · right
        simp [State.setPipe, State.setPcb, hi, hunused]
      · left
        simp [State.setPipe, State.setPcb, hi]
    · exact .inl (hclosed _ rfl)
    · exact .inl (hclosed _ rfl)
    · exact .inl (hclosed _ rfl)
  | pipeCloseFd fd =>
    simp only [apply, pipeCloseFd]
    split
    · exact .inl ⟨rfl, rfl, rfl, rfl⟩
    split
    · exact .inl ⟨rfl, rfl, rfl, rfl⟩
    next slot write hdecode =>
    split
    · exact .inl ⟨rfl, rfl, rfl, rfl⟩
    by_cases hi : i = slot
    · subst hi
      simp only [State.setPipe, Function.update_self]
      generalize hpipe : (if (!write) = true then _ else _ : PipeEntry) = pipe
      cases pipeFreeIfIdle_cases pipe with
      | inl hsame =>
        left
        rw [hsame, ← hpipe]
        cases write
        · exact ⟨rfl, rfl, rfl, rfl⟩
        · exact ⟨rfl, rfl, rfl, rfl⟩
      | inr hidle =>
        obtain ⟨hhead, htail, hcount, hused⟩ := hidle
        right
        rw [hused]
        exact ⟨hhead, htail, hcount, fun h => absurd h Bool.false_ne_true⟩
    · left
      simp [State.setPipe, State.setPcb, hi]

end

structure Log where
  accepted : List UInt8 := []
  returned : List UInt8 := []

/-- The logs after a call: a call adds the bytes that it answers for.  A slot without a pipe has an
empty log. -/
def record (s : Data) (a : DataAction) (log : Fin 16 → Log) (i : Fin 16) : Log :=
  if !((applyData s a).ends.pipes i).used then {}
  else
    match a with
    | .pipeRead fd bufOk count =>
      let r := pipeRead fd bufOk count s
      if (s.handleOf fd).map Prod.fst = some i then
        { log i with returned := (log i).returned ++ r.2.1.take r.1.toNat }
      else log i
    | .pipeWrite fd buf =>
      if (s.handleOf fd).map Prod.fst = some i then
        { log i with accepted := (log i).accepted ++ (buf.getD []).take (pipeWrite fd buf s).1.toNat }
      else log i
    | .ends _ _ => log i

def runData (s : Data) (calls : List DataAction) : Data × (Fin 16 → Log) :=
  calls.foldl (fun r a => (applyData r.1 a, record r.1 a r.2)) (s, fun _ => {})

structure Fifo (s : Data) (log : Fin 16 → Log) : Prop where
  formed : ∀ i, WellFormed (s.ends.pipes i)
  queue : ∀ i, (log i).accepted = (log i).returned ++ queued (s.buffers i) (s.ends.pipes i)
  idle : ∀ i, (s.ends.pipes i).used = false → (s.ends.pipes i).count = 0 ∧ log i = {}

section

variable {s : Data} {log : Fin 16 → Log}

theorem queued_of_count {buffer : Block pipeBufSize} {pipe : PipeEntry} (h : pipe.count = 0) :
    queued buffer pipe = [] := by
  unfold queued contents
  rw [h]
  rfl

theorem record_same (h : Fifo s log) {a : DataAction} (hsame : applyData s a = s)
    (hlog : ∀ i, (s.ends.pipes i).used = true → record s a log i = log i) :
    Fifo (applyData s a) (record s a log) := by
  have hrecord : record s a log = log := by
    funext i
    cases hused : (s.ends.pipes i).used with
    | true => exact hlog i hused
    | false =>
      unfold record
      rw [hsame, hused, (h.idle i hused).2]
      rfl
  rw [hsame, hrecord]
  exact h

theorem fifo_set (h : Fifo s log) {slot : Fin 16} {pipe : PipeEntry} {buffer : Block pipeBufSize}
    {log' : Fin 16 → Log} (hformed : WellFormed pipe) (hused : pipe.used = true)
    (hslot : (log' slot).accepted = (log' slot).returned ++ queued buffer pipe)
    (hother : ∀ i, i ≠ slot → log' i = log i) : Fifo (s.set slot pipe buffer) log' := by
  refine ⟨fun i => ?_, fun i => ?_, fun i hunused => ?_⟩
  · by_cases hi : i = slot
    · simpa [Data.set, State.setPipe, hi] using hformed
    · simpa [Data.set, State.setPipe, hi] using h.formed i
  · by_cases hi : i = slot
    · simpa [Data.set, State.setPipe, hi] using hslot
    · simpa [Data.set, State.setPipe, hi, hother i hi] using h.queue i
  · by_cases hi : i = slot
    · simp [Data.set, State.setPipe, hi, hused] at hunused
    · simp only [Data.set, State.setPipe, Function.update_of_ne hi] at hunused ⊢
      rw [hother i hi]
      exact h.idle i hunused

theorem fifo_pipeRead (h : Fifo s log) (fd : Int) (bufOk : Bool) (count : Nat) :
    Fifo (applyData s (.pipeRead fd bufOk count)) (record s (.pipeRead fd bufOk count) log) := by
  cases @pipeRead_spec s fd h.formed bufOk count with
  | inl hfail =>
    apply record_same h
    · simp only [applyData, hfail]
    · intro i hused
      simp [record, applyData, hfail, hused]
  | inr hread =>
    obtain ⟨slot, pipe, out, hhandle, hopen, hread, hqueue, hformed, hused⟩ := hread
    have happly : applyData s (.pipeRead fd bufOk count) = s.set slot pipe (s.buffers slot) := by
      simp only [applyData, hread]
    rw [happly]
    apply fifo_set h hformed hused
    · have hold := h.queue slot
      rw [hqueue] at hold
      simp only [record, happly, hread, hhandle]
      simp [Data.set, State.setPipe, hused, hold]
    · intro i hi
      have hne : slot ≠ i := Ne.symm hi
      simp only [record, happly, hhandle]
      cases hother : (s.ends.pipes i).used with
      | true => simp [Data.set, State.setPipe, hi, hne, hother]
      | false => simp [Data.set, State.setPipe, hi, hother, (h.idle i hother).2]

theorem fifo_pipeWrite (h : Fifo s log) (fd : Int) (buf : Option (List UInt8)) :
    Fifo (applyData s (.pipeWrite fd buf)) (record s (.pipeWrite fd buf) log) := by
  cases @pipeWrite_spec s fd h.formed buf with
  | inl hfail =>
    apply record_same h
    · simp only [applyData, hfail]
    · intro i hused
      simp [record, applyData, hfail, hused]
  | inr hwrite =>
    obtain ⟨slot, pipe, buffer, data, done, rfl, hhandle, hopen, hwrite, hqueue, hformed, hused⟩ :=
      hwrite
    have happly : applyData s (.pipeWrite fd (some data)) = s.set slot pipe buffer := by
      simp only [applyData, hwrite]
    rw [happly]
    apply fifo_set h hformed hused
    · simp only [record, happly, hwrite, hhandle]
      simp [Data.set, State.setPipe, hused, hqueue, h.queue slot]
    · intro i hi
      have hne : slot ≠ i := Ne.symm hi
      simp only [record, happly, hhandle]
      cases hother : (s.ends.pipes i).used with
      | true => simp [Data.set, State.setPipe, hi, hne, hother]
      | false => simp [Data.set, State.setPipe, hi, hother, (h.idle i hother).2]

theorem fifo_ends (h : Fifo s log) (a : Action) (fresh : Block pipeBufSize) :
    Fifo (applyData s (.ends a fresh)) (record s (.ends a fresh) log) := by
  refine ⟨fun i => ?_, fun i => ?_, fun i hunused => ?_⟩
  · show Valid _ _ _ _
    cases apply_pipes s.ends a i with
    | inl hsame =>
      obtain ⟨-, hhead, htail, hcount⟩ := hsame
      simp only [applyData, hhead, htail, hcount]
      exact h.formed i
    | inr hzero =>
      obtain ⟨hhead, htail, hcount, -⟩ := hzero
      simp only [applyData, hhead, htail, hcount]
      exact valid_empty (by decide)
  · cases hnew : ((apply s.ends a).pipes i).used with
    | false =>
      have hcount : ((apply s.ends a).pipes i).count = 0 := by
        cases apply_pipes s.ends a i with
        | inl hsame =>
          rw [hsame.2.2.2]
          exact (h.idle i (hsame.1.symm.trans hnew)).1
        | inr hzero => exact hzero.2.2.1
      simp [record, applyData, hnew, queued_of_count hcount]
    | true =>
      cases apply_pipes s.ends a i with
      | inl hsame =>
        obtain ⟨hused, hhead, -, hcount⟩ := hsame
        rw [hnew] at hused
        have hqueue := h.queue i
        simp only [queued] at hqueue ⊢
        simpa [record, applyData, hnew, ← hused, hhead, hcount] using hqueue
      | inr hzero =>
        obtain ⟨-, -, hcount, hfresh⟩ := hzero
        simp [record, applyData, hnew, queued_of_count hcount, (h.idle i (hfresh hnew)).2]
  · simp only [applyData] at hunused
    refine ⟨?_, by simp [record, applyData, hunused]⟩
    cases apply_pipes s.ends a i with
    | inl hsame =>
      simp only [applyData, hsame.2.2.2]
      exact (h.idle i (hsame.1.symm.trans hunused)).1
    | inr hzero => exact hzero.2.2.1

theorem fifo_step (h : Fifo s log) (a : DataAction) : Fifo (applyData s a) (record s a log) := by
  cases a with
  | pipeRead fd bufOk count => exact fifo_pipeRead h fd bufOk count
  | pipeWrite fd buf => exact fifo_pipeWrite h fd buf
  | ends a fresh => exact fifo_ends h a fresh

end

theorem fifo_run (buffers : Fin 16 → Block pipeBufSize) (calls : List DataAction) :
    Fifo (runData { buffers := buffers } calls).1 (runData { buffers := buffers } calls).2 := by
  have hgo (r : Data × (Fin 16 → Log)) (h : Fifo r.1 r.2) :
      Fifo (calls.foldl (fun r a => (applyData r.1 a, record r.1 a r.2)) r).1
        (calls.foldl (fun r a => (applyData r.1 a, record r.1 a r.2)) r).2 := by
    induction calls generalizing r with
    | nil => exact h
    | cons a calls ih => exact ih _ (fifo_step h a)
  apply hgo
  refine ⟨fun i => valid_empty (by decide), fun i => ?_, fun i _ => ⟨rfl, rfl⟩⟩
  rw [queued_of_count rfl]
  rfl

/-- After any calls by any processes, the bytes that have been read from a pipe are the beginning of
those that it has accepted, and the rest of them are in its buffer, which has room for them. -/
theorem pipe_fifo (buffers : Fin 16 → Block pipeBufSize) (calls : List DataAction) (i : Fin 16) :
    let r := runData { buffers := buffers } calls
    (r.2 i).returned <+: (r.2 i).accepted ∧
      (r.2 i).returned.length + (r.1.ends.pipes i).count = (r.2 i).accepted.length ∧
      (r.1.ends.pipes i).count ≤ pipeBufSize := by
  intro r
  have h := fifo_run buffers calls
  have hqueue := h.queue i
  refine ⟨⟨_, hqueue.symm⟩, ?_, (h.formed i).count_le⟩
  rw [hqueue, List.length_append]
  exact congrArg (_ + ·) length_contents.symm

end Monios.Analysis.PipeQueue
