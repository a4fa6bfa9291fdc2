import Mathlib

/-!
# A place in a queue

Someone who wants `total` stands behind `ahead`. Of a volume that is served from the front, the
part past `ahead` reaches them, until they have their `total` (`served`). `served_burn` and
`served_claim` are two ways to serve the next volume : keep what is still ahead and burn it down,
or keep the volume so far and what was claimed of it.
-/

variable {α : Type*} [AddCommGroup α] [LinearOrder α]

namespace QueuePosition

/-- How much of `volume` reaches a place behind `ahead` that wants `total`. -/
def served (total ahead volume : α) : α := min total (max 0 (volume - ahead))

/-- What is still ahead of the place after `volume`. -/
def left (ahead volume : α) : α := max 0 (ahead - volume)

variable {total ahead volume v : α}

theorem served_le (total ahead volume : α) : served total ahead volume ≤ total := min_le_left _ _

theorem served_nonneg (h : 0 ≤ total) : 0 ≤ served total ahead volume := le_min h (le_max_left _ _)

variable [IsOrderedAddMonoid α]

theorem served_zero (htotal : 0 ≤ total) (hahead : 0 ≤ ahead) : served total ahead 0 = 0 := by
  unfold served
  grind

theorem left_zero (hahead : 0 ≤ ahead) : left ahead 0 = ahead := by
  unfold left
  grind

/-- What is left ahead takes its share of the next volume first. -/
theorem left_add (hv : 0 ≤ v) :
    left ahead (volume + v) = left ahead volume - min (left ahead volume) v := by
  unfold left
  grind

/-- The next volume serves what remains with what it has past the rest ahead. -/
theorem served_burn (hv : 0 ≤ v) (htotal : 0 ≤ total) :
    served total ahead (volume + v) - served total ahead volume =
      min (v - min (left ahead volume) v) (total - served total ahead volume) := by
  unfold served left
  grind

/-- The next volume serves what remains with what is past `ahead` and not claimed. -/
theorem served_claim (hv : 0 ≤ v) (hremains : served total ahead volume < total) :
    served total ahead (volume + v) - served total ahead volume =
      max (min (volume + v - ahead - served total ahead volume)
        (total - served total ahead volume)) 0 := by
  unfold served at *
  grind

end QueuePosition
