import Timeline.Json.Basic

/-!
# Equality of JSON values

Two values are equal if they have the same shape and the same leaves; the members of two objects
are compared in their order.
-/

namespace Timeline.Json

mutual

/-- Compare two values from their outermost part inward. -/
def decideEq : (a b : Json) → Decidable (a = b)
  | .null, b =>
    match b with
    | .null => isTrue rfl
    | .bool _ | .number _ | .string _ | .array _ | .object _ => isFalse nofun
  | .bool x, b =>
    match b with
    | .bool y => decidable_of_iff (x = y) (Json.bool.injEq x y ▸ Iff.rfl)
    | .null | .number _ | .string _ | .array _ | .object _ => isFalse nofun
  | .number x, b =>
    match b with
    | .number y => decidable_of_iff (x = y) (Json.number.injEq x y ▸ Iff.rfl)
    | .null | .bool _ | .string _ | .array _ | .object _ => isFalse nofun
  | .string x, b =>
    match b with
    | .string y => decidable_of_iff (x = y) (Json.string.injEq x y ▸ Iff.rfl)
    | .null | .bool _ | .number _ | .array _ | .object _ => isFalse nofun
  | .array xs, b =>
    match b with
    | .array ys =>
      match decideEqItems xs ys with
      | isTrue h => isTrue (congrArg Json.array h)
      | isFalse h => isFalse fun e => h (Json.array.inj e)
    | .null | .bool _ | .number _ | .string _ | .object _ => isFalse nofun
  | .object xs, b =>
    match b with
    | .object ys =>
      match decideEqMembers xs ys with
      | isTrue h => isTrue (congrArg Json.object h)
      | isFalse h => isFalse fun e => h (Json.object.inj e)
    | .null | .bool _ | .number _ | .string _ | .array _ => isFalse nofun

def decideEqItems : (xs ys : List Json) → Decidable (xs = ys)
  | [], [] => isTrue rfl
  | [], _ :: _ => isFalse nofun
  | _ :: _, [] => isFalse nofun
  | x :: xs, y :: ys =>
    match decideEq x y, decideEqItems xs ys with
    | isTrue h, isTrue hs => isTrue (h ▸ hs ▸ rfl)
    | isFalse h, _ => isFalse fun e => h (List.cons.inj e).1
    | _, isFalse hs => isFalse fun e => hs (List.cons.inj e).2

def decideEqMembers : (xs ys : List (String × Json)) → Decidable (xs = ys)
  | [], [] => isTrue rfl
  | [], _ :: _ => isFalse nofun
  | _ :: _, [] => isFalse nofun
  | (k, x) :: xs, (l, y) :: ys =>
    match decEq k l, decideEq x y, decideEqMembers xs ys with
    | isTrue hk, isTrue h, isTrue hs => isTrue (hk ▸ h ▸ hs ▸ rfl)
    | isFalse hk, _, _ => isFalse fun e => hk (congrArg Prod.fst (List.cons.inj e).1)
    | _, isFalse h, _ => isFalse fun e => h (congrArg Prod.snd (List.cons.inj e).1)
    | _, _, isFalse hs => isFalse fun e => hs (List.cons.inj e).2

end

instance : DecidableEq Json := decideEq

end Timeline.Json
