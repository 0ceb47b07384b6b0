import Timeline.Conversation.Paging

/-!
# Runs of operations

Everything that can happen to a conversation is an `Operation`. `Conversation.apply` does one
and tells its outcome, and `Conversation.run` does a whole list of them.

Main statement: `run_append`, a run can be cut in two anywhere.
-/

namespace Timeline

/-- Something that happens to a conversation. Notices carry the time at which they are made. -/
inductive Operation
  | push (e : Entry)
  | restart (entries : List Entry)
  | clear
  | memberJoined (userId : String) (now : Nat)
  | memberLeft (userId : String) (now : Nat)
  | deviceOnline (deviceId userId : String) (now : Nat)
  | deviceOffline (deviceId : String) (now : Nat)
  | setDevices (devices : List (String × String))
  | askOlder
  | askNewer
  | receive (reply : Reply)
  | giveUp
  | returnToLive
  | realign
  | fetchOlder (source : PageRequest → Reply)
  | fetchNewer (source : PageRequest → Reply)

/-- What an operation answers. -/
inductive Outcome
  | done
  /-- Whether the device was online. -/
  | wasOnline (known : Bool)
  | askedOlder (result : Except Failure PageRequest)
  | askedNewer (result : Except Failure Forward)
  | received (result : Except Failure Bool)
  /-- Whether history can be asked for. -/
  | live (canGoOlder : Bool)
  | aligned (outcome : Option Alignment)
  | fetched (outcome : Conversation.Fetched)

namespace Conversation

def apply (c : Conversation) : Operation → Conversation × Outcome
  | .push e => (c.push e, .done)
  | .restart entries => (c.restart entries, .done)
  | .clear => (c.clear, .done)
  | .memberJoined userId now => (c.memberJoined userId now, .done)
  | .memberLeft userId now => (c.memberLeft userId now, .done)
  | .deviceOnline deviceId userId now => (c.deviceOnline deviceId userId now, .done)
  | .deviceOffline deviceId now => (c.deviceOffline deviceId now).map id .wasOnline
  | .setDevices devices => (c.setDevices devices, .done)
  | .askOlder => c.askOlder.map id .askedOlder
  | .askNewer => c.askNewer.map id .askedNewer
  | .receive reply => (c.receive reply).map id .received
  | .giveUp => (c.giveUp, .done)
  | .returnToLive => c.returnToLive.map id .live
  | .realign => c.realign.map id .aligned
  | .fetchOlder source => (c.fetchOlder source).map id .fetched
  | .fetchNewer source => (c.fetchNewer source).map id .fetched

/-- Do operations in order, and list what each of them answers. -/
def run (c : Conversation) : List Operation → Conversation × List Outcome
  | [] => (c, [])
  | op :: ops =>
    let (next, outcome) := c.apply op
    let (last, outcomes) := next.run ops
    (last, outcome :: outcomes)

theorem run_append (c : Conversation) (first second : List Operation) :
    c.run (first ++ second) =
      (((c.run first).1.run second).1,
        (c.run first).2 ++ ((c.run first).1.run second).2) := by
  induction first generalizing c with
  | nil => rfl
  | cons op ops ih => simp only [List.cons_append, run, ih]

end Conversation

end Timeline
