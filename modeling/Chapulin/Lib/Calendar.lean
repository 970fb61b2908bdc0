/-
The proleptic Gregorian calendar, counted in days from the first of January of
the year 0.

The calendar is what its rules say: a year has the length its leap rule gives
it, a month the length its year gives it, and a day is numbered by the days in
front of it.  The closed form of the years and the order of the dates follow.
-/

import Mathlib.Tactic.Common

namespace Chapulin.Lib.Calendar

def leapYear (year : Nat) : Bool := year % 4 == 0 && (year % 100 != 0 || year % 400 == 0)

def yearLength (year : Nat) : Nat := if leapYear year then 366 else 365

def monthLength (leap : Bool) : Nat → Nat
  | 1 => 31
  | 2 => if leap then 29 else 28
  | 3 => 31
  | 4 => 30
  | 5 => 31
  | 6 => 30
  | 7 => 31
  | 8 => 31
  | 9 => 30
  | 10 => 31
  | 11 => 30
  | 12 => 31
  | _ => 0

def daysBeforeYear : Nat → Nat
  | 0 => 0
  | year + 1 => daysBeforeYear year + yearLength year

def daysBeforeMonth (leap : Bool) : Nat → Nat
  | 0 => 0
  | month + 1 => daysBeforeMonth leap month + monthLength leap month

structure RealDate (year month day : Nat) : Prop where
  monthLeast : 1 ≤ month
  monthMost : month ≤ 12
  dayLeast : 1 ≤ day
  dayMost : day ≤ monthLength (leapYear year) month

def dayNumber (year month day : Nat) : Nat :=
  daysBeforeYear year + daysBeforeMonth (leapYear year) month + (day - 1)

theorem ceil_div (number : Nat) {step : Nat} (positive : 0 < step) :
    (number + (step - 1)) / step = number / step + if number % step = 0 then 0 else 1 := by
  have split := Nat.div_add_mod number step
  have small := Nat.mod_lt number positive
  generalize number / step = quotient at split ⊢
  generalize number % step = rest at split small ⊢
  subst split
  rw [Nat.add_assoc,Nat.mul_add_div positive]
  congr 1
  split
  · rename_i exact
    rw [exact,Nat.zero_add]
    exact Nat.div_eq_of_lt (Nat.sub_lt positive Nat.one_pos)
  · rename_i more
    refine Nat.div_eq_of_lt_le ?_ ?_
    · omega
    · omega

variable (year : Nat)

theorem leapYear_cases :
    (¬ year % 4 = 0 ∧ ¬ year % 100 = 0 ∧ ¬ year % 400 = 0 ∧ leapYear year = false) ∨
      (year % 4 = 0 ∧ ¬ year % 100 = 0 ∧ ¬ year % 400 = 0 ∧ leapYear year = true) ∨
      (year % 4 = 0 ∧ year % 100 = 0 ∧ ¬ year % 400 = 0 ∧ leapYear year = false) ∨
      year % 4 = 0 ∧ year % 100 = 0 ∧ year % 400 = 0 ∧ leapYear year = true := by
  by_cases four : year % 4 = 0 <;> by_cases hundred : year % 100 = 0 <;>
    by_cases era : year % 400 = 0 <;> simp [leapYear,four,hundred,era] <;> omega

/-- The days before a year, counted by its leap years. -/
theorem daysBeforeYear_eq :
    daysBeforeYear year + (year + 99) / 100 = 365 * year + (year + 3) / 4 + (year + 399) / 400 := by
  induction year with
  | zero => rfl
  | succ year ih =>
    have fours : (year + 1 + 3) / 4 = year / 4 + 1 := by omega
    have hundreds : (year + 1 + 99) / 100 = year / 100 + 1 := by omega
    have eras : (year + 1 + 399) / 400 = year / 400 + 1 := by omega
    rw [ceil_div year (by decide : 0 < 4),ceil_div year (by decide : 0 < 100),
      ceil_div year (by decide : 0 < 400)] at ih
    rw [daysBeforeYear,fours,hundreds,eras]
    generalize year / 4 = four at ih ⊢
    generalize year / 100 = hundred at ih ⊢
    generalize year / 400 = era at ih ⊢
    rcases leapYear_cases year with ⟨four,hundred,era,leap⟩ | ⟨four,hundred,era,leap⟩ |
      ⟨four,hundred,era,leap⟩ | ⟨four,hundred,era,leap⟩
    all_goals
      simp only [four,hundred,era,if_true,if_false] at ih
      simp only [yearLength,leap,if_true,if_false,Bool.false_eq_true]
      omega

theorem daysBeforeYear_mono {first second : Nat} (less : first ≤ second) :
    daysBeforeYear first ≤ daysBeforeYear second := by
  induction less with
  | refl => exact Nat.le_refl _
  | step _ ih => exact Nat.le_trans ih (Nat.le_add_right _ _)

theorem daysBeforeMonth_mono {leap : Bool} {first second : Nat} (less : first ≤ second) :
    daysBeforeMonth leap first ≤ daysBeforeMonth leap second := by
  induction less with
  | refl => exact Nat.le_refl _
  | step _ ih => exact Nat.le_trans ih (Nat.le_add_right _ _)

theorem daysBeforeMonth_year : daysBeforeMonth (leapYear year) 13 = yearLength year := by
  rw [yearLength]
  cases leapYear year <;> rfl

theorem RealDate.inside {year month day : Nat} (real : RealDate year month day) :
    daysBeforeMonth (leapYear year) month + (day - 1) <
      daysBeforeMonth (leapYear year) (month + 1) := by
  have least := real.dayLeast
  have most := real.dayMost
  rw [daysBeforeMonth]
  omega

theorem RealDate.dayNumber_lt {year month day : Nat} (real : RealDate year month day) :
    dayNumber year month day < daysBeforeYear (year + 1) := by
  have later : daysBeforeMonth (leapYear year) (month + 1) ≤ daysBeforeMonth (leapYear year) 13 :=
    daysBeforeMonth_mono (Nat.succ_le_succ real.monthMost)
  have inside := real.inside
  rw [daysBeforeMonth_year] at later
  rw [dayNumber,daysBeforeYear]
  omega

theorem dayNumber_lt_dayNumber {year month day laterYear laterMonth laterDay : Nat}
    (real : RealDate year month day)
    (before : year < laterYear ∨ year = laterYear ∧ (month < laterMonth ∨
      month = laterMonth ∧ day < laterDay)) :
    dayNumber year month day < dayNumber laterYear laterMonth laterDay := by
  rcases before with years | ⟨rfl,months | ⟨rfl,days⟩⟩
  · have next : daysBeforeYear (year + 1) ≤ daysBeforeYear laterYear := daysBeforeYear_mono years
    have inside := real.dayNumber_lt
    unfold dayNumber at inside ⊢
    omega
  · have next : daysBeforeMonth (leapYear year) (month + 1) ≤
        daysBeforeMonth (leapYear year) laterMonth := daysBeforeMonth_mono months
    have inside := real.inside
    unfold dayNumber
    omega
  · have least := real.dayLeast
    unfold dayNumber
    omega

/-! ### Years that begin in March

A year from March on ends with its leap day, so its months have fixed lengths. -/

/-- The days in front of the first of March of a year, from that of the year 0. -/
def marchStart (year : Nat) : Nat := 365 * year + year / 4 - year / 100 + year / 400

theorem fewer_centuries : year / 100 ≤ year / 4 := by
  omega

theorem daysBeforeYear_march :
    daysBeforeYear year + daysBeforeMonth (leapYear year) 3 = marchStart year + 60 := by
  have counted := daysBeforeYear_eq year
  have fewer := fewer_centuries year
  have months : daysBeforeMonth (leapYear year) 3 = 59 + if leapYear year then 1 else 0 := by
    cases leapYear year <;> rfl
  rw [ceil_div year (by decide : 0 < 4),ceil_div year (by decide : 0 < 100),
    ceil_div year (by decide : 0 < 400)] at counted
  rw [marchStart,months]
  generalize year / 4 = fours at counted fewer ⊢
  generalize year / 100 = hundreds at counted fewer ⊢
  generalize year / 400 = eras at counted ⊢
  rcases leapYear_cases year with ⟨four,hundred,era,leap⟩ | ⟨four,hundred,era,leap⟩ |
    ⟨four,hundred,era,leap⟩ | ⟨four,hundred,era,leap⟩
  all_goals
    simp only [four,hundred,era,if_true,if_false] at counted
    simp only [leap,if_true,if_false,Bool.false_eq_true]
    omega

theorem daysBeforeMonth_march (leap : Bool) {month : Nat} (late : month < 11) :
    daysBeforeMonth leap (month + 3) = daysBeforeMonth leap 3 + (153 * month + 2) / 5 := by
  revert leap month
  decide

theorem daysBeforeYear_succ_march : daysBeforeYear (year + 1) = marchStart year + 366 := by
  have march := daysBeforeYear_march year
  have january := daysBeforeMonth_march (leapYear year) (by decide : 10 < 11)
  rw [daysBeforeMonth_year] at january
  rw [daysBeforeYear]
  omega

theorem marchStart_succ : marchStart (year + 1) = marchStart year + yearLength (year + 1) := by
  have march := daysBeforeYear_march (year + 1)
  have january := daysBeforeYear_succ_march year
  have months : daysBeforeMonth (leapYear (year + 1)) 3 + 306 = yearLength (year + 1) := by
    rw [yearLength]
    cases leapYear (year + 1) <;> rfl
  omega

theorem marchStart_eras (year eras : Nat) :
    marchStart (year + 400 * eras) = marchStart year + 146097 * eras := by
  have fours : (year + 400 * eras) / 4 = year / 4 + 100 * eras := by omega
  have hundreds : (year + 400 * eras) / 100 = year / 100 + 4 * eras := by omega
  have whole : (year + 400 * eras) / 400 = year / 400 + eras := by omega
  have fewer := fewer_centuries year
  rw [marchStart,marchStart,fours,hundreds,whole]
  omega

theorem leapYear_eras (year eras : Nat) : leapYear (year + 400 * eras) = leapYear year := by
  have fours : (year + 400 * eras) % 4 = year % 4 := by omega
  have hundreds : (year + 400 * eras) % 100 = year % 100 := by omega
  have whole : (year + 400 * eras) % 400 = year % 400 := by omega
  rw [leapYear,leapYear,fours,hundreds,whole]

theorem date_fromMarch {year month day : Nat} (early : month < 10)
    (inside : (153 * month + 2) / 5 + day < (153 * (month + 1) + 2) / 5) :
    RealDate year (month + 3) (day + 1) ∧
      dayNumber year (month + 3) (day + 1) =
        marchStart year + 60 + ((153 * month + 2) / 5 + day) := by
  have march := daysBeforeYear_march year
  have begun := daysBeforeMonth_march (leapYear year) (Nat.lt_succ_of_lt early)
  have ended : daysBeforeMonth (leapYear year) (month + 1 + 3) =
      daysBeforeMonth (leapYear year) 3 + (153 * (month + 1) + 2) / 5 :=
    daysBeforeMonth_march (leapYear year) (Nat.succ_lt_succ early)
  rw [Nat.add_right_comm,daysBeforeMonth] at ended
  refine ⟨⟨by omega,by omega,by omega,by omega⟩,?_⟩
  rw [dayNumber]
  omega

theorem date_newYear {year month day : Nat} (late : 10 ≤ month) (most : month < 12)
    (inside : (153 * month + 2) / 5 + day < (153 * (month + 1) + 2) / 5)
    (inYear : (153 * month + 2) / 5 + day < yearLength (year + 1)) :
    RealDate (year + 1) (month - 9) (day + 1) ∧
      dayNumber (year + 1) (month - 9) (day + 1) =
        marchStart year + 60 + ((153 * month + 2) / 5 + day) := by
  have january := daysBeforeYear_succ_march year
  obtain rfl | rfl : month = 10 ∨ month = 11 := by omega
  · have first : daysBeforeMonth (leapYear (year + 1)) (10 - 9) = 0 := rfl
    have length : monthLength (leapYear (year + 1)) (10 - 9) = 31 := rfl
    refine ⟨⟨by decide,by decide,by omega,by omega⟩,?_⟩
    rw [dayNumber,first]
    omega
  · have first : daysBeforeMonth (leapYear (year + 1)) (11 - 9) = 31 := rfl
    have length : monthLength (leapYear (year + 1)) (11 - 9) + 337 = yearLength (year + 1) := by
      rw [yearLength]
      cases leapYear (year + 1) <;> rfl
    refine ⟨⟨by decide,by decide,by omega,by omega⟩,?_⟩
    rw [dayNumber,first]
    omega

end Chapulin.Lib.Calendar
