import Monios.Model.X509Parse

/-!
# The times of certificates

`x509_parse_time` and `x509_current_time` make the same number of a time (`parseTime_encoding`),
with months of thirty days. So the number of a time on the 31st of a month is that of the same time
on the first of the next one, and `currentTime_lt_iff` says that these are the only days that the
numbers do not tell apart.
-/

set_option autoImplicit false

namespace Monios.Analysis.CertificateTimes

open Monios.Library Monios.Library.Logged Monios.Model Monios.Model.X509Parse

def daysInMonth (year month : Nat) : Nat :=
  if month = 2 then if year % 4 = 0 ∧ (year % 100 ≠ 0 ∨ year % 400 = 0) then 29 else 28
  else if month = 4 ∨ month = 6 ∨ month = 9 ∨ month = 11 then 30 else 31

structure ValidTime (t : RtcTime) : Prop where
  year : 1970 ≤ t.year ∧ t.year ≤ 2099
  month : 1 ≤ t.month ∧ t.month ≤ 12
  day : 1 ≤ t.day ∧ t.day ≤ daysInMonth t.year t.month
  hour : t.hour ≤ 23
  minute : t.minute ≤ 59
  second : t.second ≤ 59

def secondOfDay (t : RtcTime) : Nat := t.hour * 3600 + t.minute * 60 + t.second

def Earlier (a b : RtcTime) : Prop :=
  a.year < b.year ∨ a.year = b.year ∧ (a.month < b.month ∨ a.month = b.month ∧
    (a.day < b.day ∨ a.day = b.day ∧ secondOfDay a < secondOfDay b))

/-- `a` is on the 31st of a month and `b` on the first of the next one in the same year, at no later
time of the day. -/
def MonthEnd (a b : RtcTime) : Prop :=
  a.year = b.year ∧ b.month = a.month + 1 ∧ a.day = 31 ∧ b.day = 1 ∧ secondOfDay b ≤ secondOfDay a

theorem daysInMonth_le (year month : Nat) : daysInMonth year month ≤ 31 := by
  unfold daysInMonth
  split
  · split <;> omega
  · split <;> omega

theorem secondOfDay_lt {t : RtcTime} (h : ValidTime t) : secondOfDay t < 86400 := by
  have := h.hour
  have := h.minute
  have := h.second
  unfold secondOfDay
  omega

theorem currentTime_eq {t : RtcTime} (h : ValidTime t) :
    x509CurrentTime t = t.year * 31536000 + t.month * 2592000 + t.day * 86400 + secondOfDay t := by
  have hdays := daysInMonth_le t.year t.month
  obtain ⟨hyear, hmonth, hday, hhour, hminute, hsecond⟩ := h
  unfold x509CurrentTime secondOfDay
  rw [if_neg (by omega)]
  omega

theorem currentTime_lt_iff {a b : RtcTime} (ha : ValidTime a) (hb : ValidTime b) (h : Earlier a b) :
    x509CurrentTime a < x509CurrentTime b ↔ ¬ MonthEnd a b := by
  have hsa := secondOfDay_lt ha
  have hsb := secondOfDay_lt hb
  have hda := daysInMonth_le a.year a.month
  have hdb := daysInMonth_le b.year b.month
  obtain ⟨hmonthA, hdayA⟩ := And.intro ha.month ha.day
  obtain ⟨hmonthB, hdayB⟩ := And.intro hb.month hb.day
  rw [currentTime_eq ha, currentTime_eq hb]
  unfold MonthEnd
  obtain hyear | ⟨hyear, hmonth | ⟨hmonth, hday | ⟨hday, hsecond⟩⟩⟩ := h
  · -- twelve such months and 31 days fall short of two years
    exact ⟨fun _ hend => by omega, fun _ => by omega⟩
  · rw [hyear]
    exact ⟨fun hlt hend => by omega, fun hend => by omega⟩
  · rw [hyear, hmonth]
    exact ⟨fun _ hend => by omega, fun _ => by omega⟩
  · rw [hyear, hmonth, hday]
    exact ⟨fun _ hend => by omega, fun _ => by omega⟩

def digit (n : Nat) : UInt8 := UInt8.ofNat (0x30 + n % 10)

def timeDigits (t : RtcTime) : List UInt8 :=
  [digit (t.month / 10), digit t.month, digit (t.day / 10), digit t.day, digit (t.hour / 10), digit t.hour,
    digit (t.minute / 10), digit t.minute, digit (t.second / 10), digit t.second]

inductive TimeEncoding (t : RtcTime) : List UInt8 → Bool → Prop
  | utcTime (hlow : 1950 ≤ t.year) (hhigh : t.year < 2050) :
      TimeEncoding t ([digit (t.year / 10), digit t.year] ++ timeDigits t ++ [0x5A]) true
  | generalizedTime : TimeEncoding t
      ([digit (t.year / 1000), digit (t.year / 100), digit (t.year / 10), digit t.year] ++ timeDigits t ++ [0x5A]) false

theorem toNat_digit (n : Nat) : (digit n).toNat = 0x30 + n % 10 := by
  unfold digit
  rw [UInt8.toNat_ofNat']
  omega

theorem digits_value {n : Nat} (h : n < 100) :
    ((digit (n / 10)).toNat - 0x30) * 10 + ((digit n).toNat - 0x30) = n := by
  rw [toNat_digit, toNat_digit]
  omega

theorem timeDigits_result {l : List UInt8} (hl : ∀ b ∈ l, ∃ n, b = digit n) (n i : Nat)
    (hi : i + n = l.length + 1) :
    (x509TimeDigits (l ++ [0x5A]) 0 (l.length + 1) n i).result = some true := by
  induction n generalizing i with
  | zero => rfl
  | succ n ih =>
    unfold x509TimeDigits
    refine (result_bind rfl).trans ?_
    rw [Nat.zero_add]
    by_cases hlast : i = l.length
    · subst hlast
      rw [if_pos ⟨rfl, by simp⟩]
      exact ih _ (by omega)
    · have hlt : i < l.length := by omega
      obtain ⟨k, hk⟩ := hl l[i] (List.getElem_mem hlt)
      have hget : (l ++ [0x5A]).getD i 0 = digit k := by
        rw [List.getD_eq_getElem?_getD, List.getElem?_append_left hlt,
          List.getElem?_eq_getElem hlt, hk]
        rfl
      have hvalue := toNat_digit k
      have hmod := Nat.mod_lt k (by decide : 0 < 10)
      rw [hget, if_neg (by omega), if_neg ?_]
      · exact ih _ (by omega)
      · rw [UInt8.lt_iff_toNat_lt, UInt8.lt_iff_toNat_lt, hvalue]
        simp
        omega

theorem parseTime_encoding {t : RtcTime} (ht : ValidTime t) {d : List UInt8} {utc : Bool}
    (h : TimeEncoding t d utc) :
    (x509ParseTime d 0 d.length utc).result = some (x509CurrentTime t) := by
  have hdays := daysInMonth_le t.year t.month
  obtain ⟨hyear, hmonth, hday, hhour, hminute, hsecond⟩ := And.intro ht.year (And.intro ht.month
    (And.intro ht.day (And.intro ht.hour (And.intro ht.minute ht.second))))
  have hrest : ∀ value : Nat, value = t.year → value * 31536000 +
      (((digit (t.month / 10)).toNat - 0x30) * 10 + ((digit t.month).toNat - 0x30)) * 2592000 +
      (((digit (t.day / 10)).toNat - 0x30) * 10 + ((digit t.day).toNat - 0x30)) * 86400 +
      (((digit (t.hour / 10)).toNat - 0x30) * 10 + ((digit t.hour).toNat - 0x30)) * 3600 +
      (((digit (t.minute / 10)).toNat - 0x30) * 10 + ((digit t.minute).toNat - 0x30)) * 60 +
      (((digit (t.second / 10)).toNat - 0x30) * 10 + ((digit t.second).toNat - 0x30)) = x509CurrentTime t := by
    rintro _ rfl
    rw [digits_value (by omega), digits_value (by omega), digits_value (by omega),
      digits_value (by omega),
      digits_value (by omega), currentTime_eq ht]
    unfold secondOfDay
    omega
  have hdigits : ∀ b ∈ timeDigits t, ∃ n, b = digit n := by
    intro b hb
    simp only [timeDigits, List.mem_cons, List.not_mem_nil, or_false] at hb
    rcases hb with hb | hb | hb | hb | hb | hb | hb | hb | hb | hb <;> exact ⟨_, hb⟩
  cases h with
  | utcTime hlow hhigh =>
    have hall : ∀ b ∈ [digit (t.year / 10), digit t.year] ++ timeDigits t, ∃ n, b = digit n := by
      intro b hb
      simp only [List.cons_append, List.nil_append, List.mem_cons] at hb
      obtain hb | hb | hb := hb
      · exact ⟨_, hb⟩
      · exact ⟨_, hb⟩
      · exact hdigits b hb
    have hloop := timeDigits_result hall 13 0 rfl
    unfold x509ParseTime
    refine (result_bind hloop).trans (congrArg some (hrest (if 50 ≤ ((digit (t.year / 10)).toNat - 0x30) * 10 +
      ((digit t.year).toNat - 0x30) then ((digit (t.year / 10)).toNat - 0x30) * 10 + ((digit t.year).toNat - 0x30) + 1900
      else ((digit (t.year / 10)).toNat - 0x30) * 10 + ((digit t.year).toNat - 0x30) + 2000) ?_))
    rw [toNat_digit, toNat_digit]
    split <;> omega
  | generalizedTime =>
    have hall : ∀ b ∈ [digit (t.year / 1000), digit (t.year / 100), digit (t.year / 10), digit t.year] ++ timeDigits t,
        ∃ n, b = digit n := by
      intro b hb
      simp only [List.cons_append, List.nil_append, List.mem_cons] at hb
      obtain hb | hb | hb | hb | hb := hb
      · exact ⟨_, hb⟩
      · exact ⟨_, hb⟩
      · exact ⟨_, hb⟩
      · exact ⟨_, hb⟩
      · exact hdigits b hb
    have hloop := timeDigits_result hall 15 0 rfl
    unfold x509ParseTime
    refine (result_bind hloop).trans (congrArg some (hrest ((((digit (t.year / 1000)).toNat - 0x30) * 10 +
      ((digit (t.year / 100)).toNat - 0x30)) * 100 + (((digit (t.year / 10)).toNat - 0x30) * 10 +
      ((digit t.year).toNat - 0x30))) ?_))
    rw [toNat_digit, toNat_digit, toNat_digit, toNat_digit]
    omega

/-- No time of the pair is on the first of a month that comes right after the 31st that the other
one is on. -/
def ToldApart (a b : RtcTime) : Prop := ¬ MonthEnd a b ∧ ¬ MonthEnd b a

theorem currentTime_le_iff {a b : RtcTime} (ha : ValidTime a) (hb : ValidTime b)
    (h : ToldApart a b) :
    x509CurrentTime a ≤ x509CurrentTime b ↔ ¬ Earlier b a := by
  constructor
  · intro hle hearlier
    have hlt := (currentTime_lt_iff hb ha hearlier).mpr h.2
    omega
  · intro hn
    by_cases hearlier : Earlier a b
    · exact Nat.le_of_lt ((currentTime_lt_iff ha hb hearlier).mpr h.1)
    · have hsame : a.year = b.year ∧ a.month = b.month ∧ a.day = b.day ∧ secondOfDay a =
          secondOfDay b := by
        unfold Earlier at hn hearlier
        omega
      exact Nat.le_of_eq (by rw [currentTime_eq ha, currentTime_eq hb, hsame.1, hsame.2.1, hsame.2.2.1, hsame.2.2.2])

theorem currentTime_pos {t : RtcTime} (h : ValidTime t) : x509CurrentTime t ≠ 0 := by
  have := h.year
  rw [currentTime_eq h]
  omega

theorem checkValidity_iff {cert : Cert} {a b now : RtcTime} (ha : ValidTime a)
    (hnow : ValidTime now) (hfrom : cert.notBefore = x509CurrentTime a)
    (huntil : cert.notAfter = x509CurrentTime b) :
    x509CheckValidity cert (x509CurrentTime now) = true ↔
      x509CurrentTime a ≤ x509CurrentTime now ∧ x509CurrentTime now ≤ x509CurrentTime b := by
  have hpos := currentTime_pos ha
  have hpos' := currentTime_pos hnow
  unfold x509CheckValidity
  rw [hfrom, huntil]
  simp only [Bool.and_eq_true, decide_eq_true_eq, ne_eq]
  constructor
  · rintro ⟨⟨-, hlow⟩, hhigh⟩
    exact ⟨hlow, hhigh⟩
  · rintro ⟨hlow, hhigh⟩
    exact ⟨⟨⟨⟨hpos', hpos⟩, Nat.le_trans hlow hhigh⟩, hlow⟩, hhigh⟩

/-- For two times of the calendar, of which the first is earlier: their encodings and the clock give
the same number of each; the numbers are in the order of the times, but for a time on a 31st and one
on the first of the next month that is no later in the day; and the check of a validity between them
accepts the readings of the clock whose number lies between theirs, which are those between the
times where the numbers tell the times apart. -/
theorem x509Times_ordered (a b : RtcTime) (ha : ValidTime a) (hb : ValidTime b) (h : Earlier a b) :
    (∀ d utc, TimeEncoding a d utc →
      (x509ParseTime d 0 d.length utc).result = some (x509CurrentTime a)) ∧
    (∀ d utc, TimeEncoding b d utc →
      (x509ParseTime d 0 d.length utc).result = some (x509CurrentTime b)) ∧
    (x509CurrentTime a < x509CurrentTime b ↔ ¬ MonthEnd a b) ∧
    ∀ (cert : Cert) (now : RtcTime), ValidTime now → cert.notBefore = x509CurrentTime a →
      cert.notAfter = x509CurrentTime b →
      (x509CheckValidity cert (x509CurrentTime now) = true ↔
        x509CurrentTime a ≤ x509CurrentTime now ∧ x509CurrentTime now ≤ x509CurrentTime b) ∧
      (ToldApart a now → ToldApart now b →
        (x509CheckValidity cert (x509CurrentTime now) = true ↔ ¬ Earlier now a ∧
          ¬ Earlier b now)) := by
  refine ⟨fun d utc hd => parseTime_encoding ha hd, fun d utc hd => parseTime_encoding hb hd,
    currentTime_lt_iff ha hb h, ?_⟩
  intro cert now hnow hfrom huntil
  have hcheck := checkValidity_iff ha hnow hfrom huntil
  refine ⟨hcheck, fun hlow hhigh => hcheck.trans ?_⟩
  rw [currentTime_le_iff ha hnow hlow, currentTime_le_iff hnow hb hhigh]

def januaryNoon : RtcTime := ⟨2024, 1, 31, 12, 0, 0⟩

def februaryMorning : RtcTime := ⟨2024, 2, 1, 6, 0, 0⟩

theorem januaryNoon_valid : ValidTime januaryNoon :=
  ⟨by decide, by decide, by decide, by decide, by decide, by decide⟩

theorem februaryMorning_valid : ValidTime februaryMorning :=
  ⟨by decide, by decide, by decide, by decide, by decide, by decide⟩

theorem januaryNoon_earlier : Earlier januaryNoon februaryMorning := .inr ⟨rfl, .inl (by decide)⟩

theorem x509Times_ordered_leapYear :
    x509CurrentTime ⟨2024, 2, 29, 23, 59, 59⟩ < x509CurrentTime ⟨2024, 3, 1, 0, 0, 0⟩ :=
  (x509Times_ordered ⟨2024, 2, 29, 23, 59, 59⟩ ⟨2024, 3, 1, 0, 0, 0⟩
    ⟨by decide, by decide, by decide, by decide, by decide, by decide⟩
    ⟨by decide, by decide, by decide, by decide, by decide, by decide⟩
    (.inr ⟨rfl, .inl (by decide)⟩)).2.2.1.mpr (by unfold MonthEnd; decide)

theorem x509Times_notOrdered :
    ¬ ∀ a b : RtcTime, ValidTime a → ValidTime b → Earlier a b →
      ∀ d utc d' utc', TimeEncoding a d utc → TimeEncoding b d' utc' →
      ∀ v w, (x509ParseTime d 0 d.length utc).result = some v →
      (x509ParseTime d' 0 d'.length utc').result = some w → v < w := by
  intro hall
  have hlt := hall januaryNoon februaryMorning januaryNoon_valid februaryMorning_valid januaryNoon_earlier _ _ _ _
    (.utcTime (by decide) (by decide)) (.utcTime (by decide) (by decide)) (2024 * 31536000 + 2592000 + 31 * 86400 + 12 * 3600)
    (2024 * 31536000 + 2 * 2592000 + 86400 + 6 * 3600) (by decide) (by decide)
  exact absurd hlt (by decide)

end Monios.Analysis.CertificateTimes
