import Mathlib.Algebra.Order.Ring.Int
import Mathlib.Data.List.Basic

/-!
# Reading and writing the bytes of a file

A file is the list of its bytes. `readAt` stops at its end, and `writeAt` extends it with zeros
where it begins behind the end.
-/

set_option autoImplicit false

namespace Monios.Library.FileBytes

def readAt (file : List UInt8) (offset size : Nat) : List UInt8 := (file.drop offset).take size

def writeAt (file : List UInt8) (offset : Nat) (data : List UInt8) : List UInt8 :=
  (file ++ List.replicate (offset - file.length) 0).take offset ++ (data ++ file.drop (offset + data.length))

section

variable (file data : List UInt8) (offset size i : Nat)

theorem getElem?_readAt : (readAt file offset size)[i]? = if i < size then file[offset + i]? else none := by
  unfold readAt
  rw [List.getElem?_take, List.getElem?_drop]

theorem length_readAt : (readAt file offset size).length = min size (file.length - offset) := by
  unfold readAt
  rw [List.length_take, List.length_drop]

theorem length_writeAt : (writeAt file offset data).length = max file.length (offset + data.length) := by
  unfold writeAt
  simp only [List.length_append, List.length_take, List.length_replicate, List.length_drop]
  omega

theorem getElem?_writeAt : (writeAt file offset data)[i]? =
    if i < offset then (if i < file.length then file[i]? else some 0)
    else if i < offset + data.length then data[i - offset]? else file[i]? := by
  have hlen : ((file ++ List.replicate (offset - file.length) 0).take offset).length = offset := by
    rw [List.length_take, List.length_append, List.length_replicate]
    omega
  unfold writeAt
  by_cases hbefore : i < offset
  · rw [if_pos hbefore, List.getElem?_append_left (by omega), List.getElem?_take, if_pos hbefore]
    by_cases hin : i < file.length
    · rw [if_pos hin, List.getElem?_append_left hin]
    · rw [if_neg hin, List.getElem?_append_right (by omega), List.getElem?_replicate,
        if_pos (by omega)]
  · rw [if_neg hbefore, List.getElem?_append_right (by omega), hlen]
    by_cases hdata : i < offset + data.length
    · rw [if_pos hdata, List.getElem?_append_left (by omega)]
    · rw [if_neg hdata, List.getElem?_append_right (by omega), List.getElem?_drop]
      congr 1
      omega

theorem readAt_writeAt : readAt (writeAt file offset data) offset data.length = data := by
  apply List.ext_getElem?
  intro j
  rw [getElem?_readAt]
  split
  · next hj => rw [getElem?_writeAt, if_neg (by omega), if_pos (by omega), Nat.add_sub_cancel_left]
  · next hj => exact (List.getElem?_eq_none (by omega)).symm

theorem writeAt_nil {file : List UInt8} {offset : Nat} (h : offset ≤ file.length) :
    writeAt file offset [] = file := by
  apply List.ext_getElem?
  intro j
  rw [getElem?_writeAt]
  split
  · rw [if_pos (by omega)]
  · rw [List.length_nil, Nat.add_zero, if_neg (by omega)]

theorem writeAt_writeAt (data' : List UInt8) :
    writeAt (writeAt file offset data) (offset + data.length) data' =
      writeAt file offset (data ++ data') := by
  apply List.ext_getElem?
  intro j
  rw [getElem?_writeAt, getElem?_writeAt, getElem?_writeAt, length_writeAt, List.length_append]
  by_cases hbefore : j < offset
  · rw [if_pos (by omega), if_pos (by omega), if_pos hbefore, if_pos hbefore]
  · by_cases hdata : j < offset + data.length
    · rw [if_pos hdata, if_pos (by omega), if_neg hbefore, if_pos hdata, if_neg hbefore,
        if_pos (by omega),
        List.getElem?_append_left (by omega)]
    · rw [if_neg hdata]
      by_cases hdata' : j < offset + data.length + data'.length
      · rw [if_pos hdata', if_neg hbefore, if_pos (by omega), List.getElem?_append_right (by omega)]
        congr 1
        omega
      · rw [if_neg hdata', if_neg hbefore, if_neg hdata, if_neg hbefore, if_neg (by omega)]

theorem readAt_of_end {n : Nat} (hn : n ≤ size) (h : size ≤ n ∨ file.length ≤ offset + n) :
    readAt file offset size = readAt file offset n := by
  apply List.ext_getElem?
  intro j
  rw [getElem?_readAt, getElem?_readAt]
  split
  · split
    · rfl
    · exact List.getElem?_eq_none (by omega)
  · rw [if_neg (by omega)]

theorem readAt_append (size' : Nat) :
    readAt file offset size ++ readAt file (offset + size) size' =
      readAt file offset (size + size') := by
  unfold readAt
  rw [List.take_add, List.drop_drop]

theorem take_drop_of_readAt {file data : List UInt8} {start n m offset size : Nat}
    (hdata : data.take n = readAt file start m) (hn : n ≤ m) (hfrom : start ≤ offset)
    (hto : offset + size ≤ start + n) :
    (data.drop (offset - start)).take size = readAt file offset size := by
  apply List.ext_getElem?
  intro j
  rw [List.getElem?_take, List.getElem?_drop, getElem?_readAt]
  split
  · next hj =>
    have hblock := congrArg (fun l => l[offset - start + j]?) hdata
    rw [List.getElem?_take, if_pos (by omega), getElem?_readAt, if_pos (by omega)] at hblock
    rw [hblock]
    congr 1
    omega
  · rfl

end

end Monios.Library.FileBytes
