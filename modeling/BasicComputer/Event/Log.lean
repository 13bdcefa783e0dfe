import BasicComputer.Event

/-!
# Sinks and the event log

A sink takes entries in. There are two. A `Channel` passes every entry on to the diagnostic channel
and keeps nothing for itself. An `EventLog` passes it on too, hands it to every subscriber, and
keeps it; a new subscriber is first handed the history.

What a sink has passed on or handed out is part of its value: that is all an observer can see of it.

A subscriber is a function somewhere else, and calling it is an effect. Here the calls are recorded
in the log, each with the subscription it was for, in the order in which they were made. Whatever
can be said about who was told what, and when, is then a statement about a list.
-/

namespace BasicComputer

/-- A type whose values take entries in, one at a time. -/
class Sink (σ : Type) where
  /-- Take in one entry. -/
  record : σ → Entry → σ

def Sink.recordAll {σ : Type} [Sink σ] (sink : σ) (entries : List Entry) : σ :=
  entries.foldl Sink.record sink

/-- A sink that only passes entries on. -/
structure Channel where
  /-- The records passed on so far. -/
  records : Array Record
  deriving DecidableEq, Repr

/-- A channel nothing has been sent to. -/
def Channel.empty : Channel := ⟨#[]⟩

instance : Sink Channel where
  record c e := ⟨c.records.push e.record⟩

/-- The handle of a subscription, numbered within its log. -/
structure SubscriptionId where
  number : Nat
  deriving DecidableEq, Repr

def SubscriptionId.text (id : SubscriptionId) : String := s!"SubscriptionId({id.number})"

/-- The history of entries, broadcast to subscribers. -/
structure EventLog where
  /-- What has been recorded since the history was last cleared. -/
  entries : Array Entry
  /-- The live subscriptions, oldest first. -/
  subscribers : List SubscriptionId
  /-- The handle the next subscription gets. -/
  nextId : Nat
  /-- Everything handed to a subscriber, in order. -/
  delivered : Array (SubscriptionId × Entry)
  /-- The records passed on to the diagnostic channel. -/
  records : Array Record
  deriving DecidableEq, Repr

namespace EventLog

/-- A log with no history and no subscribers. -/
def empty : EventLog := ⟨#[], [], 0, #[], #[]⟩

/-- Pass an entry on, hand it to the subscribers from the oldest to the newest, and keep it. -/
def record (log : EventLog) (e : Entry) : EventLog :=
  { log with
    entries := log.entries.push e
    delivered := log.delivered ++ log.subscribers.map (·, e)
    records := log.records.push e.record }

instance : Sink EventLog := ⟨record⟩

/-- Add a subscription. It is handed the history at once, and every entry from now on. -/
def subscribe (log : EventLog) : SubscriptionId × EventLog :=
  let id : SubscriptionId := ⟨log.nextId⟩
  (id, { log with
    subscribers := log.subscribers ++ [id]
    nextId := log.nextId + 1
    delivered := log.delivered ++ log.entries.map (id, ·) })

/-- End a subscription, and say whether there was one to end. -/
def unsubscribe (log : EventLog) (id : SubscriptionId) : Bool × EventLog :=
  (log.subscribers.contains id, { log with subscribers := log.subscribers.filter (· != id) })

/-- Forget the history. Subscriptions stay. -/
def clear (log : EventLog) : EventLog := { log with entries := #[] }

def byLevel (log : EventLog) (level : Level) : Array Entry := log.entries.filter (·.level == level)

def byContext (log : EventLog) (context : Context) : Array Entry :=
  log.entries.filter (·.context == context)

/-- What one subscription has been handed, in order. -/
def deliveredTo (log : EventLog) (id : SubscriptionId) : List Entry :=
  (log.delivered.toList.filter (·.1 == id)).map (·.2)

def summary (log : EventLog) : String :=
  String.join ["EventLog \x7b entries: ", toString log.entries.size, ", subscribers: ",
    toString log.subscribers.length, " \x7d"]

end EventLog

end BasicComputer
