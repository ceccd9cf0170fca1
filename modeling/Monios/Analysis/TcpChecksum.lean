import Monios.Library.OnesComplement
import Monios.Model.Tcp

/-!
# The checksum of TCP segments

`tcp_checksum` accepts exactly the segments whose sum with the pseudo-header is a multiple of 65535
(`tcpChecksum_eq_zero_iff`). The value that `tcp_send_segment` puts into the segment makes it one,
and a changed word that is not congruent to the old one makes it none.
-/

set_option autoImplicit false

namespace Monios.Analysis.TcpChecksum

open Monios.Library Monios.Model

theorem ipSum_append {d : List UInt8} (e : List UInt8) (hd : d.length % 2 = 0) :
    ipSum (d ++ e) = ipSum d + ipSum e := by
  induction d using ipSum.induct with
  | case1 => simp [ipSum]
  | case2 a => simp at hd
  | case3 a b rest ih =>
    have hrest : rest.length % 2 = 0 := by
      simp only [List.length_cons] at hd
      omega
    simp only [List.cons_append, ipSum, ih hrest]
    omega

theorem ipSum_le (d : List UInt8) : ipSum d ≤ 65535 * ((d.length + 1) / 2) := by
  induction d using ipSum.induct with
  | case1 => simp [ipSum]
  | case2 a =>
    have ha := UInt8.toNat_lt a
    simp only [ipSum, List.length_cons, List.length_nil]
    omega
  | case3 a b rest ih =>
    have ha := UInt8.toNat_lt a
    have hb := UInt8.toNat_lt b
    simp only [ipSum, List.length_cons]
    omega

theorem ipSum_ipPut16 (value : UInt16) : ipSum (ipPut16 value) = value.toNat := by
  have hvalue := UInt16.toNat_lt value
  simp only [ipPut16, ipSum, UInt16.toNat_toUInt8, UInt16.toNat_shiftRight]
  simp
  omega

theorem ipFold_eq (sum : Nat) : ipFold sum = 65535 - (carry 65536)^[4] sum := rfl

theorem ipFold_eq_zero_iff {sum : Nat} (hpos : 0 < sum) (hsum : sum < 2 ^ 32) :
    ipFold sum = 0 ↔ 65535 ∣ sum := by
  have hlt := carry_iterate_lt (b := 65536) (n := 4) (by decide) (by decide) hsum
  rw [ipFold_eq, ← carry_iterate_eq_iff (b := 65536) (n := 4) (by decide) (by decide) hpos hsum]
  omega

theorem dvd_add_ipFold {sum : Nat} (hsum : sum < 2 ^ 32) : 65535 ∣ sum + ipFold sum := by
  have hlt := carry_iterate_lt (b := 65536) (n := 4) (by decide) (by decide) hsum
  have hmod := carry_iterate_modEq (b := 65536) (by decide) 4 sum
  have hadd : sum + (65535 - (carry 65536)^[4] sum) ≡ (carry 65536)^[4] sum +
      (65535 - (carry 65536)^[4] sum) [MOD 65535] :=
    hmod.symm.add_right _
  rw [Nat.add_sub_cancel' (by omega)] at hadd
  rw [ipFold_eq]
  exact Nat.modEq_zero_iff_dvd.mp (hadd.trans (Nat.modEq_zero_iff_dvd.mpr (Nat.dvd_refl _)))

def pseudoSum (addresses segment : List UInt8) : Nat :=
  ipSum addresses + 6 + segment.length + ipSum segment

variable {addresses segment : List UInt8}

theorem pseudoSum_lt (haddresses : addresses.length = 8) (hsegment : segment.length < 2 ^ 16) :
    pseudoSum addresses segment < 2 ^ 32 := by
  have ha := ipSum_le addresses
  have hs := ipSum_le segment
  rw [haddresses] at ha
  unfold pseudoSum
  omega

theorem tcpChecksum_eq_zero_iff (haddresses : addresses.length = 8)
    (hsegment : segment.length < 2 ^ 16) :
    tcpChecksum addresses segment = 0 ↔ 65535 ∣ pseudoSum addresses segment :=
  ipFold_eq_zero_iff (Nat.add_pos_left (by omega) _) (pseudoSum_lt haddresses hsegment)

section

variable (o : TcpOutput)

theorem addresses_length : o.addresses.length = 8 := rfl

theorem headerFields_length : o.headerFields.length = 16 := rfl

theorem segment_length (checksum : UInt16) : (o.segment checksum).length = 20 + o.data.length := by
  simp only [TcpOutput.segment, List.length_append, headerFields_length]
  simp [ipPut16]

theorem pseudoSum_segment (checksum : UInt16) :
    pseudoSum o.addresses (o.segment checksum) = pseudoSum o.addresses (o.segment 0) +
      checksum.toNat := by
  have hfield (value : UInt16) : ipSum (o.segment value) = ipSum o.headerFields + value.toNat + ipSum ([0, 0] ++ o.data) := by
    rw [TcpOutput.segment, List.append_assoc, List.append_assoc,
      ipSum_append _ (by rw [headerFields_length]),
      ipSum_append _ (by simp [ipPut16]), ipSum_ipPut16, Nat.add_assoc]
  unfold pseudoSum
  rw [hfield checksum, hfield 0, segment_length, segment_length, UInt16.toNat_zero]
  omega

theorem tcpSendSegment_eq (hdata : o.data.length ≤ tcpMaxSegmentSize) :
    tcpSendSegment o = .sent (o.segment (UInt16.ofNat (tcpChecksum o.addresses (o.segment 0)))) := by
  have hmax : tcpMaxSegmentSize = 1460 := rfl
  simp only [tcpSendSegment]
  rw [if_neg (by omega), if_neg (by omega)]

theorem tcpSendSegment_sent (h : tcpSendSegment o = .sent segment) :
    o.data.length ≤ tcpMaxSegmentSize ∧
      segment = o.segment (UInt16.ofNat (tcpChecksum o.addresses (o.segment 0))) := by
  by_cases hdata : o.data.length ≤ tcpMaxSegmentSize
  · rw [tcpSendSegment_eq o hdata] at h
    exact ⟨hdata, (TcpSent.sent.inj h).symm⟩
  · simp only [tcpSendSegment] at h
    split at h
    · cases h
    · rw [if_pos (Nat.lt_of_not_le hdata)] at h
      cases h

theorem pseudoSum_sent (h : tcpSendSegment o = .sent segment) :
    segment.length < 2 ^ 16 ∧ 65535 ∣ pseudoSum o.addresses segment := by
  obtain ⟨hdata, rfl⟩ := tcpSendSegment_sent o h
  have hmax : tcpMaxSegmentSize = 1460 := rfl
  have hlength : (o.segment 0).length < 2 ^ 16 := by
    rw [segment_length]
    omega
  have hsum := pseudoSum_lt (addresses_length o) hlength
  have hvalue : (UInt16.ofNat (tcpChecksum o.addresses (o.segment 0))).toNat =
      ipFold (pseudoSum o.addresses (o.segment 0)) := by
    apply UInt16.toNat_ofNat_of_lt'
    exact Nat.lt_succ_of_le (Nat.sub_le _ _)
  constructor
  · rw [segment_length]
    omega
  · rw [pseudoSum_segment, hvalue]
    exact dvd_add_ipFold hsum

end

def wordAt (segment : List UInt8) (k : Nat) : List UInt8 := (segment.drop (2 * k)).take 2

def setWord (segment : List UInt8) (k : Nat) (word : List UInt8) : List UInt8 :=
  segment.take (2 * k) ++ (word ++ segment.drop (2 * k + 2))

theorem setWord_wordAt (segment : List UInt8) (k : Nat) :
    setWord segment k (wordAt segment k) = segment := by
  rw [setWord, wordAt, ← List.drop_drop, List.take_append_drop, List.take_append_drop]

theorem ipSum_setWord {k : Nat} {word : List UInt8} (hk : 2 * k < segment.length)
    (hword : word.length = (wordAt segment k).length) : ipSum (setWord segment k word) =
      ipSum (segment.take (2 * k)) + ipSum word + ipSum (segment.drop (2 * k + 2)) := by
  have htake : (segment.take (2 * k)).length % 2 = 0 := by
    rw [List.length_take]
    omega
  rw [setWord, ipSum_append _ htake]
  rw [wordAt, List.length_take, List.length_drop] at hword
  by_cases hlast : segment.length ≤ 2 * k + 2
  · rw [List.drop_of_length_le hlast, List.append_nil]
    rfl
  · rw [ipSum_append _ (by omega)]
    omega

theorem length_setWord {k : Nat} {word : List UInt8}
    (hword : word.length = (wordAt segment k).length) :
    (setWord segment k word).length = segment.length := by
  have hsame := congrArg List.length (setWord_wordAt segment k)
  rw [setWord, List.length_append, List.length_append] at hsame ⊢
  omega

theorem not_dvd_setWord {k : Nat} {word : List UInt8} (h : 65535 ∣ pseudoSum addresses segment)
    (hk : 2 * k < segment.length) (hword : word.length = (wordAt segment k).length)
    (hne : ¬ ipSum word ≡ ipSum (wordAt segment k) [MOD 65535]) :
    ¬ 65535 ∣ pseudoSum addresses (setWord segment k word) := by
  intro hdvd
  have hnew := ipSum_setWord hk hword
  have hold := ipSum_setWord hk rfl
  rw [setWord_wordAt] at hold
  have hlength := length_setWord hword
  unfold pseudoSum at h hdvd
  apply hne
  unfold Nat.ModEq
  omega

/-- Every segment up to the maximal size is built, what is built is accepted by the check of the
receiver, and it is not accepted any more when one word of it is changed to one that is not
congruent. -/
theorem tcpSendSegment_accepted (o : TcpOutput) :
    (o.data.length ≤ tcpMaxSegmentSize → ∃ segment, tcpSendSegment o = .sent segment) ∧
      ∀ segment, tcpSendSegment o = .sent segment → tcpChecksum o.addresses segment = 0 ∧
          ∀ k word, 2 * k < segment.length → word.length = (wordAt segment k).length →
            ¬ ipSum word ≡ ipSum (wordAt segment k) [MOD 65535] →
            tcpChecksum o.addresses (setWord segment k word) ≠ 0 := by
  refine ⟨fun hdata => ⟨_, tcpSendSegment_eq o hdata⟩, fun segment h => ?_⟩
  obtain ⟨hlength, hdvd⟩ := pseudoSum_sent o h
  refine ⟨(tcpChecksum_eq_zero_iff (addresses_length o) hlength).mpr hdvd,
    fun k word hk hword hne => ?_⟩
  rw [ne_eq, tcpChecksum_eq_zero_iff (addresses_length o) (by rw [length_setWord hword]; exact hlength)]
  exact not_dvd_setWord hdvd hk hword hne

def oddSegment : TcpOutput where
  srcIp := 0xC0A80101
  dstIp := 0xC0A800C9
  srcPort := 50779
  dstPort := 80
  seq := 1
  ack := 0
  flags := 0x18
  data := [0x47, 0x45, 0x54]
  data_lt := by decide

theorem tcpSendSegment_accepted_oddSegment :
    ∃ segment, tcpSendSegment oddSegment = .sent segment ∧
      tcpChecksum oddSegment.addresses segment = 0 ∧
      tcpChecksum oddSegment.addresses (setWord segment 11 [0x55]) ≠ 0 := by
  obtain ⟨hsent, haccepted⟩ := tcpSendSegment_accepted oddSegment
  obtain ⟨segment, h⟩ := hsent (by decide)
  obtain ⟨hzero, hchanged⟩ := haccepted segment h
  obtain rfl := (tcpSendSegment_sent oddSegment h).2
  exact ⟨_, h, hzero, hchanged 11 [0x55] (by decide) (by decide) (by decide)⟩

end Monios.Analysis.TcpChecksum
