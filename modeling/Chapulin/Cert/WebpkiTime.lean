/-
The dates of a web PKI certificate and the caller's clock against the calendar
(`webpki_time.c`).

An instant is a number of seconds from the first of January of the year 0, so
that a date of before 1970 has one too.  The clock's closed form and the
reader's fields are both settled against it, and the packed numbers compare as
the instants do.
-/

import Chapulin.Cert.Pinned
import Chapulin.Cert.WebpkiPath
import Chapulin.Lib.Calendar

namespace Chapulin

open Lib Lib.Der Lib.Calendar List

namespace CivilTime

structure Real (t : CivilTime) : Prop where
  date : RealDate t.year t.month t.day
  hour : t.hour ≤ 23
  minute : t.minute ≤ 59
  second : t.second ≤ 59

def secondOfDay (t : CivilTime) : Nat := t.hour * 3600 + t.minute * 60 + t.second

def instant (t : CivilTime) : Nat := dayNumber t.year t.month t.day * 86400 + t.secondOfDay

def Before (t u : CivilTime) : Prop :=
  t.year < u.year ∨ t.year = u.year ∧ (t.month < u.month ∨ t.month = u.month ∧ (t.day < u.day ∨
    t.day = u.day ∧ t.secondOfDay < u.secondOfDay))

theorem monthLength_le (leap : Bool) (month : Nat) : monthLength leap month ≤ 31 := by
  unfold monthLength
  split
  all_goals first | decide | (cases leap <;> decide)

theorem Real.day_le {t : CivilTime} (real : t.Real) : t.day ≤ 31 :=
  Nat.le_trans real.date.dayMost (monthLength_le _ _)

theorem Real.secondOfDay_lt {t : CivilTime} (real : t.Real) : t.secondOfDay < 86400 := by
  have hour := real.hour
  have minute := real.minute
  have second := real.second
  unfold secondOfDay
  omega

theorem before_cases (t u : CivilTime) (real : t.Real) (other : u.Real) :
    t.Before u ∨ t = u ∨ u.Before t := by
  rcases t with ⟨year,month,day,hour,minute,second⟩
  rcases u with ⟨year',month',day',hour',minute',second'⟩
  have minutes : minute ≤ 59 := real.minute
  have seconds : second ≤ 59 := real.second
  have minutes' : minute' ≤ 59 := other.minute
  have seconds' : second' ≤ 59 := other.second
  simp only [Before,secondOfDay,CivilTime.mk.injEq]
  omega

variable {t u : CivilTime}

theorem pack_lt_of_before (real : t.Real) (other : u.Real) (before : t.Before u) :
    t.pack < u.pack := by
  have month := real.date.monthMost
  have day := real.day_le
  have hour := real.hour
  have minute := real.minute
  have second := real.second
  have month' := other.date.monthMost
  have day' := other.day_le
  have hour' := other.hour
  have minute' := other.minute
  have second' := other.second
  unfold Before secondOfDay at before
  unfold pack
  omega

theorem instant_lt_of_before (real : t.Real) (before : t.Before u) : t.instant < u.instant := by
  have inDay := real.secondOfDay_lt
  have dates : dayNumber t.year t.month t.day < dayNumber u.year u.month u.day ∨
      dayNumber t.year t.month t.day = dayNumber u.year u.month u.day ∧
        t.secondOfDay < u.secondOfDay := by
    rcases before with years | ⟨years,months | ⟨months,days | ⟨days,seconds⟩⟩⟩
    · exact .inl (dayNumber_lt_dayNumber real.date (.inl years))
    · exact .inl (dayNumber_lt_dayNumber real.date (.inr ⟨years,.inl months⟩))
    · exact .inl (dayNumber_lt_dayNumber real.date (.inr ⟨years,.inr ⟨months,days⟩⟩))
    · exact .inr ⟨by rw [years,months,days],seconds⟩
  unfold instant
  omega

theorem pack_le_iff (real : t.Real) (other : u.Real) : t.pack ≤ u.pack ↔ t.instant ≤ u.instant := by
  rcases before_cases t u real other with before | rfl | after
  · exact ⟨fun _ => Nat.le_of_lt (instant_lt_of_before real before),
      fun _ => Nat.le_of_lt (pack_lt_of_before real other before)⟩
  · exact ⟨fun _ => Nat.le_refl _,fun _ => Nat.le_refl _⟩
  · have packed := pack_lt_of_before other real after
    have instants := instant_lt_of_before other after
    omega

theorem instant_inj (real : t.Real) (other : u.Real) (same : t.instant = u.instant) : t = u := by
  rcases before_cases t u real other with before | rfl | after
  · exact absurd same (Nat.ne_of_lt (instant_lt_of_before real before))
  · rfl
  · exact absurd same.symm (Nat.ne_of_lt (instant_lt_of_before other after))

end CivilTime

/-! ### The clock -/

/-- The days of an era without the leap days its years have had, by the rule's three divisors. -/
def commonDays (dayOfEra : Nat) : Nat :=
  dayOfEra - dayOfEra / 1460 + dayOfEra / 36524 - dayOfEra / 146096

theorem commonDays_mono {first second : Nat} (less : first ≤ second) :
    commonDays first ≤ commonDays second := by
  induction less with
  | refl => exact Nat.le_refl _
  | @step day _ ih =>
    refine Nat.le_trans ih ?_
    unfold commonDays
    omega

theorem commonDays_year : ∀ year < 400, 365 * year ≤ commonDays (marchStart year) ∧
    commonDays (marchStart (year + 1) - 1) < 365 * (year + 1) := by
  decide +kernel

theorem exists_year {day : Nat} (years : Nat) (inside : day < marchStart years) :
    ∃ year < years, marchStart year ≤ day ∧ day < marchStart (year + 1) := by
  induction years with
  | zero => exact absurd inside (Nat.not_lt_zero _)
  | succ years ih =>
    by_cases earlier : day < marchStart years
    · obtain ⟨year,less,found⟩ := ih earlier
      exact ⟨year,Nat.lt_succ_of_lt less,found⟩
    · exact ⟨years,Nat.lt_succ_self years,Nat.le_of_not_lt earlier,inside⟩

theorem yearOfEra_spec {dayOfEra : Nat} (inside : dayOfEra < 146097) :
    commonDays dayOfEra / 365 < 400 ∧ marchStart (commonDays dayOfEra / 365) ≤ dayOfEra ∧
      dayOfEra < marchStart (commonDays dayOfEra / 365 + 1) := by
  obtain ⟨year,small,started,ended⟩ := exists_year 400 inside
  obtain ⟨least,most⟩ := commonDays_year year small
  have above := commonDays_mono started
  have below := commonDays_mono (Nat.le_sub_one_of_lt ended)
  have found : commonDays dayOfEra / 365 = year := by omega
  rw [found]
  exact ⟨small,started,ended⟩

theorem monthFromMarch_spec {dayOfYear : Nat} (inside : dayOfYear < 366) :
    (5 * dayOfYear + 2) / 153 < 12 ∧ (153 * ((5 * dayOfYear + 2) / 153) + 2) / 5 ≤ dayOfYear ∧
      dayOfYear < (153 * ((5 * dayOfYear + 2) / 153 + 1) + 2) / 5 := by
  omega

def epochDays : Nat := 719528

/-- The date of a day count is a real one with that many days in front of it. -/
theorem civilFromDays_date (days secondOfDay : Nat) :
    RealDate (civilFromDays days secondOfDay).year (civilFromDays days secondOfDay).month
        (civilFromDays days secondOfDay).day ∧
      dayNumber (civilFromDays days secondOfDay).year (civilFromDays days secondOfDay).month
        (civilFromDays days secondOfDay).day = days + epochDays := by
  have inEra := Nat.mod_lt (days + 719468) (by decide : 0 < 146097)
  have rest : days + 719468 - (days + 719468) / 146097 * 146097 = (days + 719468) % 146097 := by
    omega
  obtain ⟨small,started,ended⟩ := yearOfEra_spec inEra
  have years : days + 719468 =
      marchStart (commonDays ((days + 719468) % 146097) / 365 + (days + 719468) / 146097 * 400) +
        ((days + 719468) % 146097 - marchStart (commonDays ((days + 719468) % 146097) / 365)) := by
    rw [Nat.mul_comm ((days + 719468) / 146097) 400,marchStart_eras]
    omega
  rw [civilFromDays]
  dsimp only
  rw [rest]
  generalize (days + 719468) / 146097 = era at years ⊢
  generalize (days + 719468) % 146097 = dayOfEra at years small started ended ⊢
  rw [show dayOfEra - dayOfEra / 1460 + dayOfEra / 36524 - dayOfEra / 146096 = commonDays dayOfEra
    from rfl]
  generalize commonDays dayOfEra / 365 = yearOfEra at years small started ended ⊢
  have noEra : 365 * yearOfEra + yearOfEra / 4 - yearOfEra / 100 = marchStart yearOfEra := by
    rw [marchStart,Nat.div_eq_of_lt small,Nat.add_zero]
  have length : yearLength (yearOfEra + era * 400 + 1) = yearLength (yearOfEra + 1) := by
    rw [Nat.add_right_comm,Nat.mul_comm,yearLength,leapYear_eras,← yearLength]
  rw [marchStart_succ,← length] at ended
  have inYear : dayOfEra - marchStart yearOfEra < yearLength (yearOfEra + era * 400 + 1) := by
    omega
  rw [noEra]
  generalize dayOfEra - marchStart yearOfEra = dayOfYear at years inYear ⊢
  generalize yearOfEra + era * 400 = year at years inYear ⊢
  have most : yearLength (year + 1) ≤ 366 := by
    unfold yearLength
    split <;> decide
  obtain ⟨months,first,last⟩ := monthFromMarch_spec (Nat.lt_of_lt_of_le inYear most)
  generalize (5 * dayOfYear + 2) / 153 = month at months first last ⊢
  obtain ⟨day,rfl⟩ := Nat.exists_eq_add_of_le first
  rw [Nat.add_sub_cancel_left]
  by_cases early : month < 10
  · obtain ⟨real,number⟩ := @date_fromMarch year month day early last
    have notNew : ¬ month + 3 ≤ 2 := by omega
    rw [if_pos early,if_neg notNew,Nat.add_zero]
    refine ⟨real,?_⟩
    rw [number,epochDays]
    omega
  · obtain ⟨real,number⟩ := date_newYear (Nat.le_of_not_lt early) months last inYear
    have isNew : month - 9 ≤ 2 := by omega
    rw [if_neg early,if_pos isNew]
    refine ⟨real,?_⟩
    rw [number,epochDays]
    omega

theorem civilFromDays_real (days : Nat) {secondOfDay : Nat} (inDay : secondOfDay < 86400) :
    (civilFromDays days secondOfDay).Real ∧
      (civilFromDays days secondOfDay).instant = (days + epochDays) * 86400 + secondOfDay := by
  obtain ⟨date,number⟩ := civilFromDays_date days secondOfDay
  have hours : (civilFromDays days secondOfDay).hour = secondOfDay / 3600 := rfl
  have minutes : (civilFromDays days secondOfDay).minute =
      (secondOfDay - secondOfDay / 3600 * 3600) / 60 := rfl
  have seconds : (civilFromDays days secondOfDay).second = secondOfDay - secondOfDay / 3600 * 3600 -
      (secondOfDay - secondOfDay / 3600 * 3600) / 60 * 60 := rfl
  refine ⟨⟨date,by omega,by omega,by omega⟩,?_⟩
  rw [CivilTime.instant,number,CivilTime.secondOfDay,hours,minutes,seconds]
  omega

def epochSeconds : Nat := epochDays * 86400

def civilOfSeconds (seconds : Nat) : CivilTime := civilFromDays (seconds / 86400) (seconds % 86400)

theorem seconds_split (seconds days : Nat) :
    (seconds / 86400 + days) * 86400 + seconds % 86400 = days * 86400 + seconds := by
  omega

theorem civilOfSeconds_real (seconds : Nat) :
    (civilOfSeconds seconds).Real ∧ (civilOfSeconds seconds).instant = epochSeconds + seconds := by
  have inDay : seconds % 86400 < 86400 := Nat.mod_lt seconds (by decide)
  obtain ⟨real,instant⟩ := civilFromDays_real (seconds / 86400) inDay
  have split : (seconds / 86400 + epochDays) * 86400 + seconds % 86400 = epochSeconds + seconds :=
    seconds_split seconds epochDays
  rw [split] at instant
  exact ⟨real,instant⟩

theorem webpkiPackSeconds_eq (seconds : Nat) :
    webpkiPackSeconds seconds = (civilOfSeconds (min seconds secondsMax)).pack := by
  rw [webpkiPackSeconds,civilOfSeconds]

/-! ### The reader -/

/-- The fields behind the year, and the closing `Z`. -/
def clockFields (t : CivilTime) : Bytes :=
  digits t.month ++ (digits t.day ++ (digits t.hour ++ (digits t.minute ++
    (digits t.second ++ [0x5a]))))

def utcContent (t : CivilTime) : Bytes := digits (t.year % 100) ++ clockFields t

def generalizedContent (t : CivilTime) : Bytes :=
  digits (t.year / 100) ++ (digits (t.year % 100) ++ clockFields t)

/-- The encoding RFC 5280 gives an instant: UTCTime through 2049, GeneralizedTime from then on. -/
def encodeTime (t : CivilTime) : Bytes :=
  if t.year ≤ 2049 then tlv 0x17 (utcContent t) else tlv 0x18 (generalizedContent t)

def pairValue (high low : UInt8) : Option Nat :=
  if timeDigit high > 9 ∨ timeDigit low > 9 then none
    else some (timeDigit high * 10 + timeDigit low)

theorem pairValue_eq_some {high low : UInt8} {value : Nat} :
    pairValue high low = some value ↔ value < 100 ∧ [high,low] = digits value := by
  constructor
  · intro found
    rw [pairValue] at found
    split at found
    · cases found
    · rename_i bounds
      obtain ⟨tens,ones⟩ := not_or.mp bounds
      have spelled := Option.some.inj found
      subst spelled
      exact ⟨by omega,(digits_spelled (Nat.le_of_not_lt ones)).symm⟩
  · rintro ⟨small,spelled⟩
    obtain ⟨rfl,rest⟩ := List.cons.inj spelled
    obtain ⟨rfl,-⟩ := List.cons.inj rest
    rw [pairValue,timeDigit_byte (by omega),timeDigit_byte (by omega),if_neg (by omega),
      Nat.div_add_mod']

theorem isLeapYear_eq {century low : Nat} (small : low < 100) :
    isLeapYear century low = leapYear (century * 100 + low) := by
  have fours : (century * 100 + low) % 4 = low % 4 := by omega
  have hundreds : (century * 100 + low) % 100 = low := by omega
  rw [isLeapYear,leapYear,fours,hundreds]
  by_cases zero : low = 0
  · subst zero
    have eras : (century * 100 + 0) % 400 = 100 * (century % 4) := by omega
    rw [eras]
    by_cases four : century % 4 = 0
    · simp [four]
    · simp [four]
  · have eras : ¬ (century * 100 + low) % 400 = 0 := by omega
    simp [zero,eras]

theorem monthDays_eq {leap : Bool} {month : Nat} (least : 1 ≤ month) (most : month ≤ 12) :
    (if (month == 2) = true ∧ leap = true then 29 else CivilTime.monthDays.getD month 0) =
      monthLength leap month := by
  have all : ∀ leap : Bool, ∀ month ≤ 12, 1 ≤ month →
      (if (month == 2) = true ∧ leap = true then 29 else CivilTime.monthDays.getD month 0) =
        monthLength leap month := by
    decide
  exact all leap month most least

theorem fieldsInRange_iff {t : CivilTime} : t.fieldsInRange (leapYear t.year) = true ↔ t.Real := by
  simp only [CivilTime.fieldsInRange,Bool.and_eq_true,decide_eq_true_eq]
  constructor
  · rintro ⟨⟨⟨⟨⟨⟨least,most⟩,dayLeast⟩,dayMost⟩,hour⟩,minute⟩,second⟩
    rw [monthDays_eq least most] at dayMost
    exact ⟨⟨least,most,dayLeast,dayMost⟩,hour,minute,second⟩
  · rintro ⟨⟨least,most,dayLeast,dayMost⟩,hour,minute,second⟩
    rw [monthDays_eq least most]
    exact ⟨⟨⟨⟨⟨⟨least,most⟩,dayLeast⟩,dayMost⟩,hour⟩,minute⟩,second⟩

def clockOf (century low : Nat) (month day hour minute second : Option Nat) (last : UInt8) :
    Option CivilTime := do
  let month ← month
  let day ← day
  let hour ← hour
  let minute ← minute
  let second ← second
  if last ≠ 0x5a then none
  else
    let t : CivilTime := ⟨century * 100 + low,month,day,hour,minute,second⟩
    if t.fieldsInRange (isLeapYear century low) then some t else none

theorem readTimeBody_eq {c : Bytes} {start : Nat}
    (offset : (if c.length = 13 then 2 else 4) = start) :
    readTimeBody c = (readYear c).bind fun year =>
      clockOf year.1 year.2 (readPair c start) (readPair c (start + 2)) (readPair c (start + 4))
        (readPair c (start + 6)) (readPair c (start + 8)) (c.getD (c.length - 1) 0) := by
  rw [readTimeBody,offset]
  rcases readYear c with _ | ⟨century,low⟩
  · rfl
  · rfl

theorem clockOf_eq_some {century low : Nat} (small : low < 100)
    {c0 c1 c2 c3 c4 c5 c6 c7 c8 c9 last : UInt8} {t : CivilTime} :
    clockOf century low (pairValue c0 c1) (pairValue c2 c3) (pairValue c4 c5) (pairValue c6 c7)
        (pairValue c8 c9) last = some t ↔
      t.Real ∧ t.year = century * 100 + low ∧
        [c0,c1] ++ ([c2,c3] ++ ([c4,c5] ++ ([c6,c7] ++ ([c8,c9] ++ [last])))) = clockFields t := by
  simp only [clockOf,Option.bind_eq_bind,Option.bind_eq_some_iff,pairValue_eq_some]
  rw [isLeapYear_eq small]
  constructor
  · rintro ⟨month,⟨-,m⟩,day,⟨-,d⟩,hour,⟨-,h⟩,minute,⟨-,mi⟩,second,⟨-,s⟩,rest⟩
    split at rest
    · cases rest
    rename_i zulu
    split at rest
    · rename_i inRange
      cases rest
      refine ⟨fieldsInRange_iff.mp inRange,rfl,?_⟩
      rw [m,d,h,mi,s,not_not.mp zulu]
      rfl
    · cases rest
  · rintro ⟨real,year,spelled⟩
    rcases t with ⟨y,month,day,hour,minute,second⟩
    have monthMost : month ≤ 12 := real.date.monthMost
    have dayMost : day ≤ 31 := real.day_le
    have hourMost : hour ≤ 23 := real.hour
    have minuteMost : minute ≤ 59 := real.minute
    have secondMost : second ≤ 59 := real.second
    have year' : y = century * 100 + low := year
    subst year'
    obtain ⟨m,rest⟩ := append_inj spelled rfl
    obtain ⟨d,rest⟩ := append_inj rest rfl
    obtain ⟨h,rest⟩ := append_inj rest rfl
    obtain ⟨mi,rest⟩ := append_inj rest rfl
    obtain ⟨s,zulu⟩ := append_inj rest rfl
    refine ⟨month,⟨by omega,m⟩,day,⟨by omega,d⟩,hour,⟨by omega,h⟩,minute,⟨by omega,mi⟩,second,
      ⟨by omega,s⟩,?_⟩
    rw [if_neg (not_not.mpr (List.cons.inj zulu).1),if_pos (fieldsInRange_iff.mpr real)]

theorem readPair_eq (c : Bytes) (offset : Nat) :
    readPair c offset = pairValue (c.getD offset 0) (c.getD (offset + 1) 0) := by
  rw [readPair,pairValue]

theorem exists_fifteen {c : Bytes} (length : c.length = 15) :
    ∃ c0 c1 c2 c3 c4 c5 c6 c7 c8 c9 c10 c11 c12 c13 c14,
      c = [c0,c1,c2,c3,c4,c5,c6,c7,c8,c9,c10,c11,c12,c13,c14] := by
  obtain ⟨c0,rest,rfl⟩ := exists_cons_of_length_eq_add_one length
  obtain ⟨c1,rest,rfl⟩ := exists_cons_of_length_eq_add_one (Nat.succ.inj length)
  obtain ⟨c2,c3,c4,c5,c6,c7,c8,c9,c10,c11,c12,c13,c14,rfl⟩ :=
    exists_thirteen (Nat.succ.inj (Nat.succ.inj length))
  exact ⟨c0,c1,c2,c3,c4,c5,c6,c7,c8,c9,c10,c11,c12,c13,c14,rfl⟩

theorem readTimeBody_thirteen {c : Bytes} (length : c.length = 13) {t : CivilTime} :
    readTimeBody c = some t ↔ t.Real ∧ 1950 ≤ t.year ∧ t.year ≤ 2049 ∧ c = utcContent t := by
  rw [readTimeBody_eq (if_pos length),readYear,if_pos length,length]
  simp only [readPair_eq,Option.bind_eq_some_iff,Option.bind_eq_bind,Option.pure_def]
  obtain ⟨c0,c1,c2,c3,c4,c5,c6,c7,c8,c9,c10,c11,c12,rfl⟩ := exists_thirteen length
  simp only [Nat.reduceAdd,Nat.reduceSub,getD_cons_succ,getD_cons_zero,Option.some.injEq]
  constructor
  · rintro ⟨_,⟨low,first,rfl⟩,clock⟩
    obtain ⟨small,spelled⟩ := pairValue_eq_some.mp first
    obtain ⟨real,year,fields⟩ := (clockOf_eq_some small).mp clock
    have century : t.year % 100 = low ∧ 1950 ≤ t.year ∧ t.year ≤ 2049 := by
      rw [year]
      dsimp only
      split <;> omega
    refine ⟨real,century.2.1,century.2.2,?_⟩
    rw [utcContent,century.1,← spelled,← fields]
    rfl
  · rintro ⟨real,least,most,spelled⟩
    obtain ⟨first,fields⟩ := append_inj
      (show [c0,c1] ++ [c2,c3,c4,c5,c6,c7,c8,c9,c10,c11,c12] = _ from spelled) rfl
    have small : t.year % 100 < 100 := Nat.mod_lt _ (by decide)
    refine ⟨_,⟨t.year % 100,pairValue_eq_some.mpr ⟨small,first⟩,rfl⟩,
      (clockOf_eq_some small).mpr ⟨real,?_,fields⟩⟩
    dsimp only
    split <;> omega

theorem readTimeBody_fifteen {c : Bytes} (length : c.length = 15) {t : CivilTime} :
    readTimeBody c = some t ↔ t.Real ∧ 2050 ≤ t.year ∧ t.year ≤ 9999 ∧
      c = generalizedContent t := by
  have notUtc : ¬ c.length = 13 := by
    rw [length]
    decide
  rw [readTimeBody_eq (if_neg notUtc),readYear,if_neg notUtc,length]
  simp only [readPair_eq,Option.bind_eq_some_iff,Option.bind_eq_bind,Option.pure_def]
  obtain ⟨c0,c1,c2,c3,c4,c5,c6,c7,c8,c9,c10,c11,c12,c13,c14,rfl⟩ :=
    exists_fifteen length
  simp only [Nat.reduceAdd,Nat.reduceSub,getD_cons_succ,getD_cons_zero]
  constructor
  · rintro ⟨_,⟨century,first,low,second,years⟩,clock⟩
    split at years
    · rename_i late
      cases years
      obtain ⟨centurySmall,centurySpelled⟩ := pairValue_eq_some.mp first
      obtain ⟨small,spelled⟩ := pairValue_eq_some.mp second
      obtain ⟨real,year,fields⟩ := (clockOf_eq_some small).mp clock
      have halves : t.year / 100 = century ∧ t.year % 100 = low := by
        rw [year]
        dsimp only
        omega
      refine ⟨real,by omega,by omega,?_⟩
      rw [generalizedContent,halves.1,halves.2,← centurySpelled,← spelled,← fields]
      rfl
    · cases years
  · rintro ⟨real,least,most,spelled⟩
    obtain ⟨first,rest⟩ := append_inj (show [c0,c1] ++
      ([c2,c3] ++ [c4,c5,c6,c7,c8,c9,c10,c11,c12,c13,c14]) = _ from spelled) rfl
    obtain ⟨second,fields⟩ := append_inj rest rfl
    have small : t.year % 100 < 100 := Nat.mod_lt _ (by decide)
    have year : t.year = t.year / 100 * 100 + t.year % 100 := by omega
    refine ⟨(t.year / 100, t.year % 100),⟨t.year / 100,pairValue_eq_some.mpr ⟨by omega,first⟩,
      t.year % 100,pairValue_eq_some.mpr ⟨small,second⟩,?_⟩,
      (clockOf_eq_some small).mpr ⟨real,year,fields⟩⟩
    rw [if_pos (by omega)]

theorem reads_timeContent (want : Nat) :
    Reads (x509ReadLen >>= fun len =>
        if len ≠ want then failure
        else do
          let c ← rbTake want
          let t ← (readTimeBody c : DerReader CivilTime)
          pure t.pack)
      (fun packed front => ∃ content t, content.length = want ∧ content.length < 65536 ∧
        readTimeBody content = some t ∧ packed = t.pack ∧
        front = lengthOctets content.length ++ content) := by
  have body (n : Nat) : Reads (if n ≠ want then failure
      else do
        let c ← rbTake want
        let t ← (readTimeBody c : DerReader CivilTime)
        pure t.pack)
      (fun packed front => ∃ content right, content.length = n ∧
        (content.length = want ∧ right = [] ∧ ∃ t, readTimeBody content = some t ∧
          packed = t.pack) ∧
        front = content ++ right) := by
    refine (Reads.refuse fun _ => (reads_take want).bind fun c =>
      (reads_lift (readTimeBody c)).map CivilTime.pack).congr fun packed front => ?_
    constructor
    · rintro ⟨same,content,_,_,⟨rfl,length⟩,⟨t,⟨read,rfl⟩,rfl⟩,rfl⟩
      exact ⟨content,[],length.trans (not_not.mp same).symm,⟨length,rfl,t,read,rfl⟩,rfl⟩
    · rintro ⟨content,_,length,⟨wanted,rfl,t,read,rfl⟩,rfl⟩
      exact ⟨not_not.mpr (length.symm.trans wanted),content,content,[],⟨rfl,wanted⟩,
        ⟨t,⟨read,rfl⟩,rfl⟩,rfl⟩
  refine (reads_length body).congr fun packed front => ?_
  constructor
  · rintro ⟨content,_,small,⟨wanted,rfl,t,read,rfl⟩,rfl⟩
    exact ⟨content,t,wanted,small,read,rfl,append_nil _⟩
  · rintro ⟨content,t,wanted,small,read,rfl,rfl⟩
    exact ⟨content,[],small,⟨wanted,rfl,t,read,rfl⟩,(append_nil _).symm⟩

theorem utcContent_length (t : CivilTime) : (utcContent t).length = 13 := rfl

theorem generalizedContent_length (t : CivilTime) : (generalizedContent t).length = 15 := rfl

theorem encodeTime_length_le (t : CivilTime) : (encodeTime t).length ≤ 19 := by
  rw [encodeTime]
  split
  · have whole := tlv_length_le 0x17 (utcContent t)
    rw [utcContent_length] at whole
    omega
  · have whole := tlv_length_le 0x18 (generalizedContent t)
    rw [generalizedContent_length] at whole
    omega

/-- A time is a UTCTime through 2049 and a GeneralizedTime from 2050 on. -/
theorem reads_webpkiTime : Reads webpkiReadTime (fun packed front => ∃ t : CivilTime, t.Real ∧
    1950 ≤ t.year ∧ t.year ≤ 9999 ∧ front = encodeTime t ∧ packed = t.pack) := by
  refine Reads.congr (@reads_either Nat _ 0x17 0x18 _ _ (by decide) (fun _ => rfl)
    (reads_timeContent 13) (reads_timeContent 15) fun tag utc generalized => by simp_all)
    fun packed front => ?_
  constructor
  · rintro (⟨_,⟨content,t,length,-,read,rfl,rfl⟩,rfl⟩ | ⟨_,⟨content,t,length,-,read,rfl,rfl⟩,rfl⟩)
    · obtain ⟨real,least,most,rfl⟩ := (readTimeBody_thirteen length).mp read
      exact ⟨t,real,least,by omega,by rw [encodeTime,if_pos most,tlv],rfl⟩
    · obtain ⟨real,least,most,rfl⟩ := (readTimeBody_fifteen length).mp read
      exact ⟨t,real,by omega,most,by rw [encodeTime,if_neg (by omega),tlv],rfl⟩
  · rintro ⟨t,real,least,most,rfl,rfl⟩
    rw [encodeTime]
    split
    · rename_i early
      exact .inl ⟨_,⟨utcContent t,t,utcContent_length t,by simp [utcContent_length],
        (readTimeBody_thirteen (utcContent_length t)).mpr ⟨real,least,early,rfl⟩,rfl,rfl⟩,rfl⟩
    · rename_i late
      exact .inr ⟨_,⟨generalizedContent t,t,generalizedContent_length t,
        by simp [generalizedContent_length],
        (readTimeBody_fifteen (generalizedContent_length t)).mpr ⟨real,by omega,most,rfl⟩,
        rfl,rfl⟩,rfl⟩

end Chapulin
