import Mathlib.Data.Fintype.Basic
import Mathlib.Data.Int.Interval
import Mathlib.Order.Interval.Finset.Defs

/-!
# Column types

The schema stores every identifier in a native sixteen-byte `uuid` column and
every moment in a `timestamptz(3)` column.  Both are values, not texts: two
spellings of one identifier are the same `Uuid`, and an `Instant` is a whole
number of milliseconds since the epoch.

The range of an `Instant` is the one the program can hold: a `Date` is valid up
to `8.64e15` milliseconds either side of the epoch and `Invalid Date` beyond.
It is a subtype, so an instant that has no printed form cannot be built.
-/

namespace GroupChat
namespace Database

/-- A value of a `uuid` column, ordered as Postgres orders the sixteen bytes. -/
abbrev Uuid := Fin (2 ^ 128)

instance neZero_uuid : NeZero (2 ^ 128) := ⟨by decide⟩

instance lawfulBEq_uuid : LawfulBEq Uuid := inferInstance

/-- The largest time value of a valid `Date`, in milliseconds. -/
def maxTimeValue : ℤ := 8640000000000000

/-- A moment, as milliseconds since the epoch. -/
abbrev Instant := {t : ℤ // -maxTimeValue ≤ t ∧ t ≤ maxTimeValue}

/-- Instants are ordered as the numbers they are. -/
instance : LinearOrder Instant := @Subtype.instLinearOrder ℤ Int.instLinearOrder _

instance : Preorder Instant := @Subtype.preorder ℤ Int.instLinearOrder.toPreorder _

instance (a b : Instant) : Decidable (a ≤ b) := inferInstanceAs (Decidable (a.val ≤ b.val))

instance (a b : Instant) : Decidable (a < b) := inferInstanceAs (Decidable (a.val < b.val))

/-- There are finitely many instants: what decreases along them stops. -/
instance : Finite Instant :=
  inferInstanceAs (Finite (Set.Icc (-maxTimeValue) maxTimeValue))

/-- The epoch itself: the moment of a run that does not depend on time. -/
def epoch : Instant := ⟨0, by decide⟩

end Database
end GroupChat
