import Msb.Automation.Cron
import Msb.Infra.PyValue

/-!
# What a cron expression means

The values of a field are read off its text. For the two day fields the module documents the rule of
Vixie cron: either of them suffices where both are written as something other than `*`. The code
takes a field for `*` when it has all values.

* `fires_documented_iff` — where `matches` follows the documented rule
* `nextAfterChecked_spec` — `next_after` on the dates that the language has
-/

namespace Cron

open Py

variable {decimal : CodePoint → Option Nat}

/-! ## The values of a field -/

/-- A value is one of an element of the field. -/
def FieldHas (decimal : CodePoint → Option Nat) (text : Str) (lo hi v : Nat) : Prop :=
  ∃ part ∈ text.splitOn 44, ∃ token values,
    readToken decimal (strip part) = some token ∧ tokenValues lo hi token = some values ∧ v ∈ values

variable {values : List Nat} {v lo hi : Nat} {expr : Str}

theorem mem_sortedSet : v ∈ sortedSet values ↔ v ∈ values := by
  rw [sortedSet, (List.perm_insertionSort _ _).mem_iff, List.mem_dedup]

theorem nodup_sortedSet (values : List Nat) : (sortedSet values).Nodup := by
  rw [sortedSet, (List.perm_insertionSort _ _).nodup_iff]
  exact List.nodup_dedup _

/-- The first value of an element, the last one, and the step between two. -/
def Token.first (lo : Nat) (t : Token) : Option Nat := t.start.elim (some lo) readInt

def Token.last (hi : Nat) (t : Token) (first : Nat) : Option Nat :=
  match t.stop with
  | none => some (if t.start = none then hi else first)
  | some stop => stop.elim (some hi) readInt

def Token.stride (t : Token) : Option Nat := t.step.elim (some 1) readInt

/-- The values between two bounds, checked against those of the field. -/
def steps (lo hi first last stride : Nat) : Option (List Nat) :=
  if first < lo ∨ last > hi ∨ first > last then none
  else if stride < 1 then none
  else some (List.range' first ((last - first) / stride + 1) stride)

theorem tokenValues_eq (lo hi : Nat) (t : Token) : tokenValues lo hi t =
    (t.first lo).bind fun first => (t.last hi first).bind fun last =>
    t.stride.bind (steps lo hi first last) := by
  obtain ⟨_ | start, _ | _ | stop, _ | step⟩ := t <;> rfl

theorem tokenValues_bounds {token : Token} (h : tokenValues lo hi token = some values)
    (hv : v ∈ values) : lo ≤ v ∧ v ≤ hi := by
  simp only [tokenValues_eq, Option.bind_eq_some_iff] at h
  obtain ⟨first, -, last, -, stride, -, h⟩ := h
  unfold steps at h
  split_ifs at h with hrange hstep
  obtain rfl := Option.some.inj h
  obtain ⟨i, hi, rfl⟩ := List.mem_range'.mp hv
  have hmul : stride * i ≤ last - first := by
    rw [mul_comm]
    exact (Nat.le_div_iff_mul_le (by omega)).mp (Nat.lt_succ_iff.mp hi)
  omega

/-- The values of the elements, one after the other. -/
theorem mem_mapM_flatten {α : Type} {f : α → Option (List Nat)} {texts : List α}
    {parts : List (List Nat)}
    (h : texts.mapM f = some parts) (v : Nat) :
    v ∈ parts.flatten ↔ ∃ text ∈ texts, ∃ values, f text = some values ∧ v ∈ values := by
  induction texts generalizing parts with
  | nil =>
    obtain rfl := Option.some.inj h
    simp
  | cons text texts ih =>
    simp only [List.mapM_cons, Option.bind_eq_bind, Option.bind_eq_some_iff] at h
    obtain ⟨values, hvalues, rest, hrest, h⟩ := h
    obtain rfl := Option.some.inj h
    rw [List.flatten_cons, List.mem_append, ih hrest]
    simp [hvalues]

/-- The parsed field has the values of its text. -/
theorem mem_parseField (h : parseField decimal expr lo hi = some values) (v : Nat) :
    v ∈ values ↔ FieldHas decimal expr lo hi v := by
  unfold parseField at h
  simp only [Option.bind_eq_bind, Option.bind_eq_some_iff] at h
  obtain ⟨parts, hparts, h⟩ := h
  split_ifs at h
  obtain rfl := Option.some.inj h
  rw [mem_sortedSet, mem_mapM_flatten hparts, FieldHas]
  refine exists_congr fun part => and_congr_right fun _ => ?_
  constructor
  · rintro ⟨values, hvalues, hv⟩
    obtain ⟨token, htoken, hvalues⟩ := Option.bind_eq_some_iff.mp hvalues
    exact ⟨token, values, htoken, hvalues, hv⟩
  · rintro ⟨token, values, htoken, hvalues, hv⟩
    exact ⟨values, Option.bind_eq_some_iff.mpr ⟨token, htoken, hvalues⟩, hv⟩

theorem nodup_parseField (h : parseField decimal expr lo hi = some values) :
    values.Nodup := by
  unfold parseField at h
  simp only [Option.bind_eq_bind, Option.bind_eq_some_iff] at h
  obtain ⟨parts, -, h⟩ := h
  split_ifs at h
  obtain rfl := Option.some.inj h
  exact nodup_sortedSet _

theorem FieldHas.bounds {text : Str} (h : FieldHas decimal text lo hi v) : lo ≤ v ∧ v ≤ hi := by
  obtain ⟨_, _, token, values, -, hvalues, hv⟩ := h
  exact tokenValues_bounds hvalues hv

/-- A star has every value. -/
theorem fieldHas_star (hlo : lo ≤ v) (hhi : v ≤ hi) : FieldHas decimal (lit "*") lo hi v := by
  refine ⟨lit "*", by decide, ⟨none, none, none⟩, List.range' lo ((hi - lo) / 1 + 1) 1, rfl, ?_, ?_⟩
  · show steps lo hi lo hi 1 = _
    rw [steps, if_neg (by omega), if_neg (by decide)]
  · rw [List.mem_range'_1]
    omega

/-- So many values there are in a list without repetition that is within bounds, and fewer where one
is missing. -/
theorem length_lt_iff (lo : Nat) {n : Nat} (hnd : values.Nodup)
    (hbounds : ∀ v ∈ values, lo ≤ v ∧ v < lo + n) :
    values.length < n ↔ ∃ v, lo ≤ v ∧ v < lo + n ∧ v ∉ values := by
  have hsub : values ⊆ List.range' lo n := fun v hv => List.mem_range'_1.mpr (hbounds v hv)
  have hle : values.length ≤ n := by
    have := (hnd.subperm hsub).length_le
    rwa [List.length_range'] at this
  constructor
  · intro hlt
    by_contra hall
    push Not at hall
    have hback : List.range' lo n ⊆ values := by
      intro v hv
      obtain ⟨hlo, hhi⟩ := List.mem_range'_1.mp hv
      exact hall v hlo hhi
    have := ((List.nodup_range' 1 (by decide)).subperm hback).length_le
    rw [List.length_range'] at this
    omega
  · rintro ⟨v, hlo, hhi, hnot⟩
    by_contra hge
    have hperm : values.Perm (List.range' lo n) :=
      (hnd.subperm hsub).perm_of_length_le (by rw [List.length_range']; omega)
    exact hnot (hperm.mem_iff.mpr (List.mem_range'_1.mpr ⟨hlo, hhi⟩))

/-! ## The documented rule -/

/-- The texts of the five fields. -/
structure FieldTexts where
  minutes : Str
  hours : Str
  daysOfMonth : Str
  months : Str
  daysOfWeek : Str
  deriving DecidableEq

deriving instance DecidableEq for CronExpr

/-- `expr.strip().split()` -/
def fieldTexts (expr : Str) : Option FieldTexts :=
  match (expr.splitOnP isSpace).filter (· ≠ []) with
  | [minutes, hours, dom, months, dow] => some ⟨minutes, hours, dom, months, dow⟩
  | _ => none

/-- A day of the week, 0 for Sunday, is one of an element of the field. 7 is Sunday too. -/
def DowHas (decimal : CodePoint → Option Nat) (text : Str) (v : Nat) : Prop :=
  ∃ w, FieldHas decimal text 0 7 w ∧ v = if w = 7 then 0 else w

namespace FieldTexts

variable (decimal) (texts : FieldTexts) (m : Nat)

/-- The minute, the hour and the month are values of their fields. -/
structure TimeFits : Prop where
  minute : FieldHas decimal texts.minutes 0 59 (m % 60)
  hour : FieldHas decimal texts.hours 0 23 (m / 60 % 24)
  month : FieldHas decimal texts.months 1 12 (dateOf (m / 1440)).month

/-- The day of the month is a value of its field. -/
def DayFits : Prop := FieldHas decimal texts.daysOfMonth 1 31 (dateOf (m / 1440)).day

/-- The day of the week is a value of its field. -/
def DowFits : Prop := DowHas decimal texts.daysOfWeek ((weekday (m / 1440) + 1) % 7)

/-- The field of the day of the month has all of its values. -/
def DayFull : Prop := ∀ v, 1 ≤ v → v ≤ 31 → FieldHas decimal texts.daysOfMonth 1 31 v

/-- The field of the day of the week has all of its values. -/
def DowFull : Prop := ∀ v, v ≤ 6 → DowHas decimal texts.daysOfWeek v

/-- Both day fields are written as something other than a star. -/
def BothRestricted : Prop := texts.daysOfMonth ≠ lit "*" ∧ texts.daysOfWeek ≠ lit "*"

/-- **The documented rule**: either of the day fields suffices where both are restricted, and both
are asked for otherwise. -/
def Documented : Prop :=
  texts.TimeFits decimal m ∧
    (texts.BothRestricted ∧ (texts.DayFits decimal m ∨ texts.DowFits decimal m) ∨
      ¬ texts.BothRestricted ∧ texts.DayFits decimal m ∧ texts.DowFits decimal m)

/-- Both day fields are restricted, one of them to all of its values, and the other does not have
this day. -/
def Misjudged : Prop :=
  texts.TimeFits decimal m ∧ texts.BothRestricted ∧
    (texts.DayFull decimal ∧ ¬ texts.DowFits decimal m ∨ texts.DowFull decimal ∧
      ¬ texts.DayFits decimal m)

end FieldTexts

/-- A day of a month. -/
theorem dateOf_day (days : Nat) : 1 ≤ (dateOf days).day ∧ (dateOf days).day ≤ 31 := by
  have hmonth : ∀ n < 365, ∀ leap < 2,
      n - (daysBeforeMonth.getD ((n + 50) / 32 - 1) 0 + if (n + 50) / 32 > 2 then leap else 0) +
      1 ≤ 31 := by
    decide +kernel
  have hbefore : ∀ n < 365, ∀ leap < 2,
      daysBeforeMonth.getD ((n + 50) / 32 - 1) 0 + (if (n + 50) / 32 > 2 then leap else 0) > n →
      n - (daysBeforeMonth.getD ((n + 50) / 32 - 1) 0 + (if (n + 50) / 32 > 2 then leap else 0) -
        (daysInMonth.getD ((n + 50) / 32 - 2) 0 + if (n + 50) / 32 - 1 = 2 then leap else 0)) +
        1 ≤ 31 := by
    decide +kernel
  have hn : days % 146097 % 36524 % 1461 % 365 < 365 := Nat.mod_lt _ (by decide)
  unfold dateOf
  dsimp only
  have hleap : (if days % 146097 % 36524 % 1461 / 365 = 3 ∧ (days % 146097 % 36524 / 1461 ≠ 24 ∨
      days % 146097 / 36524 = 3) then 1 else 0) < 2 := by
    split_ifs <;> decide
  by_cases hlast : days % 146097 % 36524 % 1461 / 365 = 4 ∨ days % 146097 / 36524 = 4
  · rw [if_pos hlast]
    exact ⟨show 1 ≤ 31 by decide, show 31 ≤ 31 by decide⟩
  rw [if_neg hlast]
  generalize (if days % 146097 % 36524 % 1461 / 365 = 3 ∧ (days % 146097 % 36524 / 1461 ≠ 24 ∨
      days % 146097 / 36524 = 3) then 1 else 0) = leap at hleap ⊢
  generalize days % 146097 % 36524 % 1461 % 365 = n at hn ⊢
  by_cases hpreceding : daysBeforeMonth.getD ((n + 50) / 32 - 1) 0 +
    (if (n + 50) / 32 > 2 then leap else 0) > n
  · rw [if_pos hpreceding]
    exact ⟨Nat.le_add_left 1 _, hbefore n hn leap hleap hpreceding⟩
  · rw [if_neg hpreceding]
    exact ⟨Nat.le_add_left 1 _, hmonth n hn leap hleap⟩

/-! ## What the code decides -/

/-- What `parse` has read of each field. -/
structure Reads (decimal : CodePoint → Option Nat) (texts : FieldTexts) (e : CronExpr) : Prop where
  minutes : parseField decimal texts.minutes 0 59 = some e.minutes
  hours : parseField decimal texts.hours 0 23 = some e.hours
  daysOfMonth : parseField decimal texts.daysOfMonth 1 31 = some e.daysOfMonth
  months : parseField decimal texts.months 1 12 = some e.months
  daysOfWeek : ∃ dow, parseField decimal texts.daysOfWeek 0 7 = some dow ∧
    e.daysOfWeek = canonicalDow dow

theorem reads_of_parse {e : CronExpr} (h : CronExpr.parse decimal expr = some e) :
    ∃ texts, fieldTexts expr = some texts ∧ Reads decimal texts e := by
  unfold CronExpr.parse at h
  split at h
  · next minutes hours dom months dow hsplit =>
    simp only [Option.bind_eq_bind, Option.bind_eq_some_iff] at h
    obtain ⟨mins, hmins, hrs, hhrs, doms, hdoms, mons, hmons, dows, hdows, h⟩ := h
    obtain rfl := Option.some.inj h
    have htexts : fieldTexts expr = some ⟨minutes, hours, dom, months, dow⟩ := by
      simp only [fieldTexts, hsplit]
    exact ⟨_, htexts, hmins, hhrs, hdoms, hmons, dows, hdows, rfl⟩
  · cases h

variable {texts : FieldTexts} {e : CronExpr}

theorem Reads.mem_daysOfWeek (h : Reads decimal texts e) (v : Nat) :
    v ∈ e.daysOfWeek ↔ DowHas decimal texts.daysOfWeek v := by
  obtain ⟨dow, hdow, heq⟩ := h.daysOfWeek
  rw [heq, canonicalDow, mem_sortedSet, List.mem_map, DowHas]
  refine exists_congr fun w => ?_
  rw [mem_parseField hdow, eq_comm]

theorem DowHas.le {text : Str} (h : DowHas decimal text v) : v ≤ 6 := by
  obtain ⟨w, hw, rfl⟩ := h
  have := hw.bounds
  split_ifs
  · omega
  · omega

/-- The day of the month is restricted for the code where a value is missing. -/
theorem Reads.dom_restricted (h : Reads decimal texts e) :
    e.daysOfMonth.length < 31 ↔ ¬ texts.DayFull decimal := by
  unfold FieldTexts.DayFull
  have hmem := mem_parseField h.daysOfMonth
  rw [length_lt_iff 1 (nodup_parseField h.daysOfMonth) fun v hv => ?_]
  · push Not
    refine exists_congr fun v => and_congr_right fun _ => ?_
    rw [hmem]
    exact and_congr_left fun _ => by omega
  · have := ((hmem v).mp hv).bounds
    omega

/-- So is the day of the week. -/
theorem Reads.dow_restricted (h : Reads decimal texts e) :
    e.daysOfWeek.length < 7 ↔ ¬ texts.DowFull decimal := by
  unfold FieldTexts.DowFull
  have hmem := h.mem_daysOfWeek
  have hnd : e.daysOfWeek.Nodup := by
    obtain ⟨dow, -, heq⟩ := h.daysOfWeek
    rw [heq]
    exact nodup_sortedSet _
  rw [length_lt_iff 0 hnd fun v hv => ?_]
  · push Not
    refine exists_congr fun v => ?_
    rw [hmem]
    exact ⟨fun ⟨_, hlt, hnot⟩ => ⟨by omega, hnot⟩, fun ⟨hle, hnot⟩ => ⟨by omega, by omega, hnot⟩⟩
  · have := ((hmem v).mp hv).le
    omega

/-- A full field has the day. -/
theorem FieldTexts.DayFull.fits (h : texts.DayFull decimal) (m : Nat) : texts.DayFits decimal m :=
  h _ (dateOf_day _).1 (dateOf_day _).2

theorem FieldTexts.DowFull.fits (h : texts.DowFull decimal) (m : Nat) : texts.DowFits decimal m :=
  h _ (by omega)

/-- A star is full. -/
theorem dayFull_star (h : texts.daysOfMonth = lit "*") : texts.DayFull decimal := by
  intro v hlo hhi
  rw [h]
  exact fieldHas_star hlo hhi

theorem dowFull_star (h : texts.daysOfWeek = lit "*") : texts.DowFull decimal := by
  intro v hle
  refine ⟨v, ?_, by rw [if_neg (by omega)]⟩
  rw [h]
  exact fieldHas_star (Nat.zero_le v) (by omega)

/-- What the code decides of the two day fields. -/
def FieldTexts.Decided (decimal : CodePoint → Option Nat) (texts : FieldTexts) (m : Nat) : Prop :=
  ¬ texts.DayFull decimal ∧ ¬ texts.DowFull decimal ∧
    (texts.DayFits decimal m ∨ texts.DowFits decimal m) ∨
    texts.DayFull decimal ∧ texts.DowFits decimal m ∨ texts.DowFull decimal ∧
    texts.DayFits decimal m

/-- **What `matches` decides**: a day field of which no value is missing is ignored. -/
theorem Reads.fires_iff (h : Reads decimal texts e) (m : Nat) :
    e.fires m = true ↔ texts.TimeFits decimal m ∧ texts.Decided decimal m := by
  have htime : texts.TimeFits decimal m ↔ m % 60 ∈ e.minutes ∧ m / 60 % 24 ∈ e.hours ∧
      (dateOf (m / 1440)).month ∈ e.months := by
    rw [mem_parseField h.minutes, mem_parseField h.hours, mem_parseField h.months]
    exact ⟨fun ht => ⟨ht.minute, ht.hour, ht.month⟩, fun ⟨hm, hh, ho⟩ => ⟨hm, hh, ho⟩⟩
  have hday : (dateOf (m / 1440)).day ∈ e.daysOfMonth ↔ texts.DayFits decimal m :=
    mem_parseField h.daysOfMonth _
  have hdow : (weekday (m / 1440) + 1) % 7 ∈ e.daysOfWeek ↔ texts.DowFits decimal m :=
    h.mem_daysOfWeek _
  unfold CronExpr.fires FieldTexts.Decided
  dsimp only
  rw [Bool.and_eq_true, Bool.and_eq_true, Bool.and_eq_true, decide_eq_true_eq, decide_eq_true_eq,
    decide_eq_true_eq, htime, and_assoc, and_assoc, and_assoc, and_assoc]
  refine and_congr_right fun _ => and_congr_right fun _ => and_congr_right fun _ => ?_
  by_cases hd : e.daysOfMonth.length < 31
  · have hday' := h.dom_restricted.mp hd
    by_cases hw : e.daysOfWeek.length < 7
    · have hdow' := h.dow_restricted.mp hw
      rw [if_pos ⟨hd, hw⟩, Bool.or_eq_true, decide_eq_true_eq, decide_eq_true_eq, hday, hdow]
      simp [hday', hdow']
    · have hdow' := not_not.mp (h.dow_restricted.not.mp hw)
      rw [if_neg fun hboth => hw hboth.2, if_pos hd, decide_eq_true_eq, hday]
      simp [hday', hdow']
  · have hday' := not_not.mp (h.dom_restricted.not.mp hd)
    rw [if_neg fun hboth => hd hboth.1, if_neg hd]
    by_cases hw : e.daysOfWeek.length < 7
    · have hdow' := h.dow_restricted.mp hw
      rw [if_pos hw, decide_eq_true_eq, hdow]
      simp [hday', hdow']
    · have hdow' := not_not.mp (h.dow_restricted.not.mp hw)
      rw [if_neg hw]
      simp [hday', hdow', hdow'.fits m]

/-- **Where `matches` follows the documented rule**: unless both day fields are restricted, one of
them to all of its values, and the other does not have this day. -/
theorem fires_documented_iff {expr : Str} (h : CronExpr.parse decimal expr = some e) (m : Nat) :
    ∃ texts, fieldTexts expr = some texts ∧
      ((e.fires m = true ↔ texts.Documented decimal m) ↔ ¬ texts.Misjudged decimal m) := by
  obtain ⟨texts, htexts, hreads⟩ := reads_of_parse h
  refine ⟨texts, htexts, ?_⟩
  have hfullDay : texts.DayFull decimal → texts.DayFits decimal m := fun hfull => hfull.fits m
  have hfullDow : texts.DowFull decimal → texts.DowFits decimal m := fun hfull => hfull.fits m
  have hboth : ¬ texts.BothRestricted → texts.DayFull decimal ∨ texts.DowFull decimal := by
    intro hstar
    by_cases hday : texts.daysOfMonth = lit "*"
    · exact .inl (dayFull_star hday)
    · exact .inr (dowFull_star (not_not.mp fun hdow => hstar ⟨hday, hdow⟩))
  rw [hreads.fires_iff, FieldTexts.Documented, FieldTexts.Misjudged, FieldTexts.Decided]
  clear hreads htexts h
  tauto

/-- At midnight, on every day of the month that is written out, or on Mondays. -/
def everyDayOrMonday : Str := lit "0 0 1-31 * 1"

def everyDayOrMondayExpr : CronExpr := ⟨[0], [0], List.range' 1 31, List.range' 1 12, [1]⟩

/-- On a Tuesday the day of the month is a value of its field, and the expression does not fire. -/
theorem everyDayOrMonday_misjudged :
    ¬ ∀ (expr : Str) (e : CronExpr) (m : Nat), CronExpr.parse digit? expr = some e →
      ∃ texts, fieldTexts expr = some texts ∧ (e.fires m = true ↔ texts.Documented digit? m) := by
  intro h
  have hparse : CronExpr.parse digit? everyDayOrMonday = some everyDayOrMondayExpr := by
    decide +kernel
  obtain ⟨texts, htexts, hreads⟩ := reads_of_parse hparse
  obtain ⟨texts', htexts', hiff⟩ := h _ _ (738942 * 1440) hparse
  obtain rfl := Option.some.inj (htexts'.symm.trans htexts)
  have htext : texts' = ⟨lit "0", lit "0", lit "1-31", lit "*", lit "1"⟩ :=
    Option.some.inj (htexts.symm.trans (by decide +kernel))
  have htime : texts'.TimeFits digit? (738942 * 1440) := by
    constructor
    · exact (mem_parseField hreads.minutes _).mp (by decide +kernel)
    · exact (mem_parseField hreads.hours _).mp (by decide +kernel)
    · exact (mem_parseField hreads.months _).mp (by decide +kernel)
  have hday : texts'.DayFits digit? (738942 * 1440) :=
    (mem_parseField hreads.daysOfMonth _).mp (by decide +kernel)
  have hboth : texts'.BothRestricted := by
    rw [htext]
    exact ⟨by decide, by decide⟩
  have hfires := hiff.mpr ⟨htime, .inl ⟨hboth, .inl hday⟩⟩
  revert hfires
  decide +kernel

/-- On a Monday it fires. -/
theorem fires_documented_monday : ∃ texts, fieldTexts everyDayOrMonday = some texts ∧
    ((everyDayOrMondayExpr.fires (738941 * 1440) = true ↔ texts.Documented digit? (738941 * 1440)) ↔
      ¬ texts.Misjudged digit? (738941 * 1440)) :=
  fires_documented_iff (by decide +kernel) _

/-! ## The next time -/

namespace CronExpr

/-- The end of the calendar: one microsecond after `datetime.max`. -/
def endOfTime : Time := 3652059 * 1440 * minute

def overflowError : PyError := .raised (lit "OverflowError") (lit "date value out of range")

variable (e : CronExpr)

/-- `next_after`. A sum beyond the calendar raises: the first probe, the horizon, or the probe after
the last one. -/
def nextAfterChecked (t : Time) : Except PyError (Option Time) :=
  if endOfTime ≤ (t / minute + 1) * minute then .error overflowError
  else if endOfTime ≤ t + horizon * minute then .error overflowError
  else
    match e.scan horizon (t / minute + 1) with
    | some m => .ok (some (m * minute))
    | none =>
      if endOfTime ≤ (t / minute + 1 + horizon) * minute then .error overflowError else .ok none

/-- The first time after `t` at which the expression fires, within five years. -/
structure IsNext (t o : Time) : Prop where
  fires : ∃ m, e.fires m = true ∧ o = m * minute
  after : t < o
  near : o ≤ t + horizon * minute
  first : ∀ m, e.fires m = true → t < m * minute → o ≤ m * minute

variable {e} {t o : Time}

theorem lt_mul_minute {m : Nat} : t < m * minute ↔ t / minute < m :=
  (Nat.div_lt_iff_lt_mul (by decide)).symm

theorem mul_minute_le {m : Nat} : m * minute ≤ t + horizon * minute ↔ m ≤ t / minute + horizon := by
  rw [← Nat.le_div_iff_mul_le (by decide), Nat.add_mul_div_right _ _ (by decide)]

theorem isNext_iff :
    e.IsNext t o ↔ (e.scan horizon (t / minute + 1)).map (· * minute) = some o := by
  rw [Option.map_eq_some_iff]
  constructor
  · rintro ⟨⟨m, hm, rfl⟩, hafter, hnear, hfirst⟩
    refine ⟨m, scan_eq_some.mpr ⟨hm, lt_mul_minute.mp hafter, ?_, fun k hk hkm => ?_⟩, rfl⟩
    · have := mul_minute_le.mp hnear
      omega
    · by_contra hfires
      have hle := hfirst k (by simpa using hfires) (lt_mul_minute.mpr hk)
      have := Nat.le_of_mul_le_mul_right hle (by decide)
      omega
  · rintro ⟨m, hscan, rfl⟩
    obtain ⟨hm, hle, hlt, hfirst⟩ := scan_eq_some.mp hscan
    refine ⟨⟨m, hm, rfl⟩, lt_mul_minute.mpr hle, mul_minute_le.mpr (by omega), fun k hk hkt => ?_⟩
    refine Nat.mul_le_mul_right minute ?_
    by_contra hkm
    rw [hfirst k (lt_mul_minute.mp hkt) (by omega)] at hk
    cases hk

theorem scan_eq_none {n probe : Nat} :
    e.scan n probe = none ↔ ∀ m, probe ≤ m → m < probe + n → e.fires m = false := by
  induction n generalizing probe with
  | zero => exact iff_of_true rfl fun m hle hlt => by omega
  | succ n ih =>
    unfold scan
    by_cases hfires : e.fires probe = true
    · rw [if_pos hfires]
      refine iff_of_false (by simp) fun h => ?_
      rw [h probe (le_refl _) (by omega)] at hfires
      cases hfires
    · rw [if_neg hfires, ih]
      rw [Bool.not_eq_true] at hfires
      constructor
      · intro h m hle hlt
        rcases hle.lt_or_eq with hlt' | rfl
        · exact h m hlt' (by omega)
        · exact hfires
      · intro h m hle hlt
        exact h m (by omega) (by omega)

theorem nextAfterChecked_some (h : e.nextAfterChecked t = .ok (some o)) : e.IsNext t o := by
  unfold nextAfterChecked at h
  rw [isNext_iff]
  cases hscan : e.scan horizon (t / minute + 1) with
  | some m =>
    rw [hscan] at h
    dsimp only at h
    split_ifs at h
    exact Except.ok.inj h
  | none =>
    rw [hscan] at h
    dsimp only at h
    split_ifs at h
    cases h

/-- **The next firing time**: the least minute after the time at which the expression fires, when
there is one within five years, and none when there is none. Close to the end of the calendar the
call raises. -/
theorem nextAfterChecked_spec (e : CronExpr) (t : Time) :
    (∀ o, e.nextAfterChecked t = .ok (some o) ↔ t + horizon * minute < endOfTime ∧ e.IsNext t o) ∧
    (e.nextAfterChecked t = .ok none ↔ (t / minute + 1 + horizon) * minute < endOfTime ∧
      ∀ m, e.fires m = true → t < m * minute → t + horizon * minute < m * minute) ∧
    ∀ err, e.nextAfterChecked t = .error err → err = overflowError := by
  have hnone : e.scan horizon (t / minute + 1) = none ↔
      ∀ m, e.fires m = true → t < m * minute → t + horizon * minute < m * minute := by
    rw [scan_eq_none]
    constructor
    · intro h m hm hafter
      by_contra hnear
      have hle := mul_minute_le.mp (not_lt.mp hnear)
      rw [h m (lt_mul_minute.mp hafter) (by omega)] at hm
      cases hm
    · intro h m hle hlt
      by_contra hfires
      have hbeyond := h m (by simpa using hfires) (lt_mul_minute.mpr hle)
      exact absurd (mul_minute_le.mpr (show m ≤ t / minute + horizon by omega)) (not_le.mpr hbeyond)
  have hlast : t + horizon * minute < (t / minute + 1 + horizon) * minute := by
    rw [Nat.add_mul _ horizon]
    exact Nat.add_lt_add_right (lt_mul_minute.mpr (Nat.lt_succ_self _)) _
  unfold nextAfterChecked
  by_cases hfar : endOfTime ≤ t + horizon * minute
  · -- the horizon is beyond the calendar
    have herror : (if endOfTime ≤ (t / minute + 1) * minute then .error overflowError
        else if endOfTime ≤ t + horizon * minute then .error overflowError
        else match e.scan horizon (t / minute + 1) with
          | some m => .ok (some (m * minute))
          | none =>
            if endOfTime ≤ (t / minute + 1 + horizon) * minute then .error overflowError
              else .ok none)
        = (.error overflowError : Except PyError (Option Time)) := by
      rw [if_pos hfar, ite_self]
    rw [herror]
    refine ⟨fun o => iff_of_false (by simp) fun h => absurd h.1 (not_lt.mpr hfar),
      iff_of_false (by simp) fun h => ?_, ?_⟩
    · exact absurd (hfar.trans_lt (hlast.trans h.1)) (lt_irrefl _)
    · intro err herr
      exact (Except.error.inj herr).symm
  · have hprobe : ¬ endOfTime ≤ (t / minute + 1) * minute := by
      have hle : (t / minute + 1) * minute ≤ t + horizon * minute := by
        rw [Nat.add_mul, one_mul]
        exact Nat.add_le_add (Nat.div_mul_le_self t minute) (Nat.le_mul_of_pos_left _ (by decide))
      exact fun h => hfar (h.trans hle)
    rw [if_neg hprobe, if_neg hfar]
    cases hscan : e.scan horizon (t / minute + 1) with
    | some m =>
      have hsome : ∀ o, e.IsNext t o ↔ m * minute = o := by
        intro o
        rw [isNext_iff, hscan]
        simp
      refine ⟨fun o => ?_, iff_of_false (by simp) fun h => ?_, by simp⟩
      · rw [hsome, Except.ok.injEq, Option.some.injEq]
        exact (and_iff_right (not_le.mp hfar)).symm
      · rw [hnone.mpr h.2] at hscan
        cases hscan
    | none =>
      have hno : ∀ o, ¬ e.IsNext t o := by
        intro o
        rw [isNext_iff, hscan]
        simp
      -- the scan probes one minute more than the horizon
      by_cases hend : endOfTime ≤ (t / minute + 1 + horizon) * minute
      · rw [if_pos hend]
        refine ⟨fun o => iff_of_false (by simp) fun h => hno o h.2, iff_of_false (by simp)
          fun h => ?_, ?_⟩
        · exact absurd h.1 (not_lt.mpr hend)
        · intro err herr
          exact (Except.error.inj herr).symm
      · rw [if_neg hend]
        refine ⟨fun o => iff_of_false (by simp) fun h => hno o h.2, ?_, by simp⟩
        exact iff_of_true rfl ⟨not_le.mp hend, hnone.mp hscan⟩

/-- The twenty-ninth of February. -/
def leapDay : CronExpr := ⟨[0], [0], [29], [2], List.range' 0 7⟩

/-- From March 2096 there is none within five years: 2100 is no leap year. The next one is in 2104.
-/
theorem leapDay_none :
    ¬ ∀ (e : CronExpr) (t : Time) (text : Str), CronExpr.parse digit? text = some e →
    t < endOfTime →
      (∃ o, e.nextAfterChecked t = .ok (some o) ∧ t < o ∧ (∃ m, e.fires m = true ∧ o = m * minute) ∧
        ∀ m, e.fires m = true → t < m * minute → o ≤ m * minute) ∨
      e.nextAfterChecked t = .ok none ∧ ∀ m, m * minute < endOfTime → e.fires m = false := by
  intro h
  have hparse : CronExpr.parse digit? (lit "0 0 29 2 *") = some leapDay := by decide +kernel
  have hfires : leapDay.fires (768163 * 1440) = true := by decide +kernel
  have hdays : ∀ d < 1826,
    ¬ ((dateOf (765243 + d)).day = 29 ∧ (dateOf (765243 + d)).month = 2) := by decide +kernel
  rcases h leapDay (765243 * 1440 * minute) _ hparse (by decide)
    with ⟨o, hok, hafter, ⟨m, hm, rfl⟩, -⟩ | ⟨-, hnever⟩
  · have hday : 765243 * 1440 * minute / minute = 765243 * 1440 := Nat.mul_div_cancel _ (by decide)
    have hnear : m ≤ 765243 * 1440 + 1825 * 1440 := by
      have := mul_minute_le.mp (nextAfterChecked_some hok).near
      rwa [hday] at this
    have hlow : 765243 * 1440 < m := by
      have := lt_mul_minute.mp hafter
      rwa [hday] at this
    -- within five years the date is none of the days that were looked at
    refine hdays (m / 1440 - 765243) (by omega) ?_
    rw [show 765243 + (m / 1440 - 765243) = m / 1440 by omega]
    have hdate : m % 60 = 0 ∧ m / 60 % 24 = 0 ∧ (dateOf (m / 1440)).month = 2 ∧
        (dateOf (m / 1440)).day = 29 := by
      simpa [fires, leapDay, and_assoc] using hm
    exact ⟨hdate.2.2.2, hdate.2.2.1⟩
  · rw [hnever _ (by decide)] at hfires
    cases hfires

end CronExpr

end Cron
