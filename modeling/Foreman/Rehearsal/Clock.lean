import Foreman.Instant
import Foreman.Identity

/-!
A clock and a source of ids for rehearsals. Each look at the clock is a microsecond later than the
one before, and each id is greater than the one before.
-/

namespace Foreman.Rehearsal

structure Clock where
  ticks : Nat
  ids : Nat

namespace Clock

def start : Clock := ⟨0, 0⟩

/-- The day on which rehearsals take place. -/
def day : Date := ⟨2026, 1, 15, by decide⟩

def tick : StateM Clock Instant := fun c =>
  let micros := (43200000000 + c.ticks) % 86400000000
  (⟨day, micros / 1000000, micros % 1000000 * 1000, by
    have : micros < 86400000000 := Nat.mod_lt _ (by decide)
    unfold IsMoment
    omega⟩, { c with ticks := c.ticks + 1 })

def firstId : BitVec 128 := 0x019b76da_6800_7000_8000_000000000000#128

def freshId : StateM Clock ResourceId := fun c =>
  (⟨firstId + BitVec.ofNat 128 (c.ids + 1)⟩, { c with ids := c.ids + 1 })

end Clock

end Foreman.Rehearsal
