/-!
# Bounds of a conversation

The capacity bounds the live feed and the loaded history. The threshold is the index in the live
feed from which on the feed is taken to cover the end of history; where it is not given it is
half the capacity.
-/

namespace Timeline

structure Bounds where
  capacity : Nat
  givenThreshold : Option Nat
  deriving DecidableEq, Repr

/-- Why bounds cannot be used. -/
inductive BoundsError
  | zeroCapacity
  | thresholdTooHigh (threshold capacity : Nat)
  deriving DecidableEq, Repr

def BoundsError.message : BoundsError → String
  | .zeroCapacity => "capacity must be at least 1"
  | .thresholdTooHigh threshold capacity =>
    "overlap threshold " ++ toString threshold ++ " must be below capacity " ++ toString capacity

namespace Bounds

def defaultCapacity : Nat := 50

def ofCapacity (capacity : Nat) : Bounds := ⟨capacity, none⟩

instance : Inhabited Bounds := ⟨ofCapacity defaultCapacity⟩

def threshold (b : Bounds) : Nat := b.givenThreshold.getD (b.capacity / 2)

/-- Refuse bounds that cannot be used. -/
def check (b : Bounds) : Except BoundsError Unit :=
  if b.capacity = 0 then .error .zeroCapacity
  else if b.capacity ≤ b.threshold then .error (.thresholdTooHigh b.threshold b.capacity)
  else .ok ()

/-- The threshold is an index that a full feed has. -/
def Usable (b : Bounds) : Prop := b.threshold < b.capacity

instance (b : Bounds) : Decidable b.Usable := inferInstanceAs (Decidable (_ < _))

theorem check_eq_ok_iff (b : Bounds) : b.check = .ok () ↔ b.Usable := by
  unfold check Usable
  split
  · next h => simp [h]
  · split
    · next h => simpa using h
    · next h => simpa using h

end Bounds

end Timeline
