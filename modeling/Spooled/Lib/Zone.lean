import Mathlib

/-!
# Time zones and the calendar

Instants are nanoseconds since the epoch. A time zone is an offset from UTC,
in whole seconds, for every UTC second; its wall clock shows the instant moved
by the offset. Where the offset falls, a wall time is shown twice, and where it
rises some are never shown, so going back from a wall time to an instant is
only partial.
-/

namespace Spooled

/-- Nanoseconds of a second. -/
def nanos : Int := 1000000000

/-- The wall clock at `t` under the given offsets. -/
def wallOf (offset : Int → Int) (t : Int) : Int := t + nanos * offset (t / nanos)

/-- A time zone: its offsets, and what a lookup of a wall time finds. -/
structure Zone where
  offset : Int → Int
  /-- The first of the instants that show a wall time. -/
  earliest : Int → Option Int
  /-- The instant that shows a wall time, if there is exactly one. -/
  single : Int → Option Int
  earliest_iff : ∀ w t, earliest w = some t ↔
    wallOf offset t = w ∧ ∀ u, wallOf offset u = w → t ≤ u
  single_iff : ∀ w t, single w = some t ↔ ∀ u, wallOf offset u = w ↔ u = t

namespace Zone

def wall (z : Zone) (t : Int) : Int := wallOf z.offset t

/-- The wall clock in whole seconds: the local date and time of day. -/
def wallSecond (z : Zone) (t : Int) : Int := z.wall t / nanos

/-! ## The wall clock and the second -/

/-- Offsets are whole seconds, so the fraction of a second is the instant's own. -/
theorem wall_emod (z : Zone) (t : Int) : z.wall t % nanos = t % nanos := by
  unfold wall wallOf
  exact Int.add_mul_emod_self_left t nanos _

theorem wall_sub_emod (z : Zone) (t : Int) : z.wall (t - t % nanos) = z.wall t - t % nanos := by
  have hfloor : (t - t % nanos) / nanos = t / nanos := by unfold nanos; omega
  unfold wall wallOf
  rw [hfloor]
  omega

theorem wallSecond_lt {z : Zone} {t u : Int} (h : z.wall t < z.wall u)
    (hfrac : u % nanos = 0 ∨ u % nanos = t % nanos) : z.wallSecond t < z.wallSecond u := by
  have ht := z.wall_emod t
  have hu := z.wall_emod u
  unfold wallSecond
  unfold nanos at *
  omega

theorem eq_of_single {z : Zone} {t u : Int} (h : z.single (z.wall t - z.wall t % nanos) = some u) :
    u = t - t % nanos := by
  refine (((z.single_iff _ _).1 h _).1 ?_).symm
  rw [wall_emod]
  exact z.wall_sub_emod t

end Zone

/-! ## Zones given by their transitions -/

variable (first : Int) (transitions : List (Int × Int))

/-- The offset in force at a UTC second: the one of the last transition before it. -/
def offsetOf (second : Int) : Int :=
  (((transitions.filter fun x => x.1 ≤ second).getLast?).map (·.2)).getD first

/-- Every instant that shows the wall time `w`. -/
def instantsOf (w : Int) : List Int :=
  (((first :: transitions.map (·.2)).dedup).map fun o => w - nanos * o).filter fun t =>
    wallOf (offsetOf first transitions) t = w

theorem offsetOf_mem (second : Int) :
    offsetOf first transitions second ∈ first :: transitions.map (·.2) := by
  unfold offsetOf
  cases h : (transitions.filter fun x => x.1 ≤ second).getLast? with
  | none => exact List.mem_cons_self
  | some x =>
    have hx := List.mem_of_mem_filter (List.mem_of_getLast? h)
    exact List.mem_cons_of_mem _ (List.mem_map_of_mem hx)

theorem mem_instantsOf {first : Int} {transitions : List (Int × Int)} {w t : Int} :
    t ∈ instantsOf first transitions w ↔ wallOf (offsetOf first transitions) t = w := by
  unfold instantsOf
  rw [List.mem_filter, decide_eq_true_eq]
  refine ⟨fun h => h.2, fun h => ⟨List.mem_map.2 ⟨_, List.mem_dedup.2 (offsetOf_mem first
    transitions (t / nanos)), ?_⟩, h⟩⟩
  unfold wallOf at h
  omega

theorem nodup_instantsOf (w : Int) :
    (instantsOf first transitions w).Nodup := by
  refine List.Nodup.filter _ (List.Nodup.map (fun a b h => ?_) (List.nodup_dedup _))
  unfold nanos at h
  omega

def onlyOf : List Int → Option Int
  | [t] => some t
  | _ => none

theorem onlyOf_iff {ts : List Int} (hnd : ts.Nodup) (t : Int) :
    onlyOf ts = some t ↔ ∀ u, u ∈ ts ↔ u = t := by
  constructor
  · intro h u
    match ts with
    | [x] =>
      obtain rfl : x = t := Option.some.inj h
      exact List.mem_singleton
  · intro h
    have hperm : ts.Perm [t] := (List.perm_ext_iff_of_nodup hnd (List.nodup_singleton t)).2
      fun u => by rw [h u, List.mem_singleton]
    rw [List.perm_singleton.1 hperm]
    rfl

/-- The zone with the given transitions: from each UTC second on, a new offset. -/
def Zone.ofTransitions : Zone where
  offset := offsetOf first transitions
  earliest w := (instantsOf first transitions w).min?
  single w := onlyOf (instantsOf first transitions w)
  earliest_iff w t := by
    rw [List.min?_eq_some_iff]
    simp only [mem_instantsOf]
  single_iff w t := by
    rw [onlyOf_iff (nodup_instantsOf first transitions w)]
    simp only [mem_instantsOf]

/-! ## The proleptic Gregorian calendar -/

/-- Month and day of month of the day `days` after 1970-01-01: the year is counted
from March, in eras of 400 years. -/
def civilOf (days : Int) : Nat × Nat :=
  let z := days + 719468
  let dayOfEra := z % 146097
  let yearOfEra := (dayOfEra - dayOfEra / 1460 + dayOfEra / 36524 - dayOfEra / 146096) / 365
  let dayOfYear := dayOfEra - (365 * yearOfEra + yearOfEra / 4 - yearOfEra / 100)
  let fromMarch := (5 * dayOfYear + 2) / 153
  let day := dayOfYear - (153 * fromMarch + 2) / 5 + 1
  let month := if fromMarch < 10 then fromMarch + 3 else fromMarch - 9
  (month.toNat, day.toNat)

example : (civilOf 0, civilOf 59, civilOf 11016, civilOf (-1)) =
    ((1, 1), (3, 1), (2, 29), (12, 31)) := by decide

/-- Days since Sunday of the day `days` after 1970-01-01, a Thursday. -/
def weekdayOf (days : Int) : Nat := ((days + 4) % 7).toNat

end Spooled
