import Timeline.Entry

/-!
# The live feed

A live feed holds the last entries delivered, up to its capacity. History is joined to it at its
first message, so eviction keeps a message at the head once there is one: if the entry behind
the head is no message, that entry goes instead of the head. A feed thus always begins with a
message if a message ever reached its head.

Main statements: an eviction removes one entry (`length_evict`), and no feed grows beyond its
capacity by a delivery (`length_push_le`).
-/

namespace Timeline

/-- The last entries delivered, oldest first. -/
structure Feed where
  capacity : Nat
  entries : List Entry
  deriving DecidableEq, Repr

namespace Feed

def empty (capacity : Nat) : Feed := ⟨capacity, []⟩

/-- Remove the oldest entry, or the one behind it if else a message at the head would give way to
an entry that is none. -/
def evict : List Entry → List Entry
  | head :: next :: rest =>
    if head.isMessage && !next.isMessage then head :: rest else next :: rest
  | _ => []

def evictMany : Nat → List Entry → List Entry
  | 0, entries => entries
  | n + 1, entries => evictMany n (evict entries)

/-- Evict until the capacity is kept. -/
def fit (capacity : Nat) (entries : List Entry) : List Entry :=
  evictMany (entries.length - capacity) entries

/-- Deliver an entry. -/
def push (f : Feed) (e : Entry) : Feed :=
  { f with entries := fit f.capacity (f.entries ++ [e]) }

/-- Deliver entries one by one. -/
def pushAll (f : Feed) (entries : List Entry) : Feed := entries.foldl push f

/-- Forget everything. -/
def clear (f : Feed) : Feed := { f with entries := [] }

/-- Start again with the given entries. -/
def replace (f : Feed) (entries : List Entry) : Feed := f.clear.pushAll entries

/-- The first message: its index and its id. -/
def anchor? (f : Feed) : Option (Nat × String) := do
  let index ← f.entries.findIdx? Entry.isMessage
  let id ← f.entries.findSome? Entry.id?
  pure (index, id)

/-- The first index at which a message has the given id. -/
def indexOf? (f : Feed) (id : String) : Option Nat :=
  f.entries.findIdx? fun e => e.id? == some id

/-! ## Length -/

theorem length_evict (entries : List Entry) : (evict entries).length = entries.length - 1 := by
  match entries with
  | [] => rfl
  | [_] => rfl
  | head :: next :: rest => simp only [evict]; split <;> simp

theorem length_evictMany (n : Nat) (entries : List Entry) :
    (evictMany n entries).length = entries.length - n := by
  induction n generalizing entries with
  | zero => rfl
  | succ n ih => rw [evictMany, ih, length_evict]; omega

theorem length_fit (capacity : Nat) (entries : List Entry) :
    (fit capacity entries).length = min capacity entries.length := by
  rw [fit, length_evictMany]; omega

@[simp] theorem capacity_push (f : Feed) (e : Entry) : (f.push e).capacity = f.capacity := rfl

theorem length_push_le (f : Feed) (e : Entry) : (f.push e).entries.length ≤ f.capacity := by
  rw [push, length_fit]; omega

end Feed

end Timeline
