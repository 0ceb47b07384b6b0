import Timeline.Bounds
import Timeline.Wire.Layout

/-!
# Bounds on the wire

Every field may be absent and then has its default. A threshold that is not given is not written.
-/

namespace Timeline

@[reducible]
def Bounds.layout : Layout Bounds where
  fields := [.optional "capacity" Bounds.defaultCapacity,
    { Field.optional "overlap_threshold" (none : Option Nat) with isHidden := Option.isNone }]
  toRow b := (b.capacity, b.givenThreshold, ())
  ofRow := fun (capacity, givenThreshold, ()) => ⟨capacity, givenThreshold⟩

instance : Wire Bounds := Bounds.layout.wire

end Timeline
