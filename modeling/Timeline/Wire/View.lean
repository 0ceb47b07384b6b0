import Timeline.View
import Timeline.Wire.Entry

/-!
# Views on the wire

All fields of a view must be there.
-/

namespace Timeline

def Mode.names : List (String × Mode) := [("live", .live), ("history", .history)]

instance : Wire Mode where
  toJson
    | .live => .string "live"
    | .history => .string "history"
  decode _ doc := Wire.decodeName Mode.names doc

@[reducible]
def View.layout : Layout View where
  fields := [.required "pool_id" String, .required "mode" Mode, .required "entries" (List Entry),
    .required "has_more_older" Bool, .required "has_more_newer" Bool]
  toRow v := (v.poolId, v.mode, v.entries, v.canGoOlder, v.canGoNewer, ())
  ofRow := fun (poolId, mode, entries, canGoOlder, canGoNewer, ()) =>
    ⟨poolId, mode, entries, canGoOlder, canGoNewer⟩

instance : Wire View := View.layout.wire

end Timeline
