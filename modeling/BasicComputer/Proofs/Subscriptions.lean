import BasicComputer.Event.Log
import Mathlib.Data.List.DropRight
import Mathlib.Data.List.Induction

/-!
# What subscribers are told

A log is called in four ways: to record an entry, to subscribe, to unsubscribe, to clear the
history. What it does can be said by looking back at the calls, without the log. The history is what
has been recorded since it was last cleared. A subscription is told the history at once and then
what is recorded until its handle is given back; it does not matter who else comes and goes.

The proofs follow a subscription from the call that made it. All that a later call needs to know of
the log in order to say what it tells one subscriber is the history, the next handle, and how often
the subscriber is listed. A handle is listed once as long as it has not been given back, and never
again afterwards, since handles only count up.

## One subscriber at a time

To follow all subscribers at once would be to follow the whole log. What a call tells one of them is
therefore a function of its own, of little more than the call, and so is what a call does to the
place of this one in the list. The log is shown to act on each subscriber by these two functions.
The others can be forgotten after that, and nobody's part in the list is changed by them.

Handles given back and handles never given out look the same to the log. That handles only count up
is what tells them apart in the calls.
-/

namespace BasicComputer.EventLog

/-! ## Calls -/

/-- What can be asked of a log. -/
inductive Call
  | record (e : Entry)
  | subscribe
  | unsubscribe (id : SubscriptionId)
  | clear
  deriving DecidableEq, Repr

def Call.entry? : Call → Option Entry
  | record e => some e
  | subscribe | unsubscribe _ | clear => none

/-- The log after one call. -/
def serve (log : EventLog) : Call → EventLog
  | .record e => log.record e
  | .subscribe => log.subscribe.2
  | .unsubscribe id => (log.unsubscribe id).2
  | .clear => log.clear

/-- A new log after calls. -/
def after (calls : List Call) : EventLog := calls.foldl serve empty

/-- The entries that calls record. -/
def recorded (calls : List Call) : List Entry := calls.filterMap Call.entry?

/-- The entries that calls record and do not clear. -/
def held (calls : List Call) : List Entry := recorded (calls.rtakeWhile (· ≠ .clear))

/-- Whether some call made the subscription `id` and none since then has given it back. -/
def Subscribed (calls : List Call) (id : SubscriptionId) : Prop :=
  ∃ before later, calls = before ++ .subscribe :: later ∧
    id = (after before).subscribe.1 ∧ .unsubscribe id ∉ later

theorem recorded_append (first second : List Call) :
    recorded (first ++ second) = recorded first ++ recorded second := List.filterMap_append

theorem after_append (before later : List Call) :
    after (before ++ later) = later.foldl serve (after before) := List.foldl_append

theorem after_concat (before : List Call) (c : Call) :
    after (before ++ [c]) = (after before).serve c := after_append before [c]

/-! ## Deliveries -/

theorem delivered_record (log : EventLog) (e : Entry) :
    (log.record e).delivered.toList = log.delivered.toList ++ log.subscribers.map (·, e) :=
  Array.toList_appendList

theorem delivered_subscribe (log : EventLog) :
    log.subscribe.2.delivered.toList =
      log.delivered.toList ++ log.entries.toList.map (log.subscribe.1, ·) := by
  rw [subscribe, Array.toList_append, Array.toList_map]

/-! ## The history -/

theorem held_concat_of_ne {c : Call} (h : c ≠ .clear) (calls : List Call) :
    held (calls ++ [c]) = held calls ++ recorded [c] := by
  rw [held, List.rtakeWhile_concat_pos, recorded_append, held]
  exact decide_eq_true h

/-- The history is what has been recorded since it was last cleared. -/
theorem entries_after (calls : List Call) : (after calls).entries.toList = held calls := by
  induction calls using List.reverseRecOn with
  | nil => rfl
  | append_singleton calls c ih =>
    rw [after_concat]
    rcases c with e | - | id | -
    · rw [held_concat_of_ne Call.noConfusion, ← ih]
      exact Array.toList_push
    · rw [held_concat_of_ne Call.noConfusion, ← ih]
      exact (List.append_nil _).symm
    · rw [held_concat_of_ne Call.noConfusion, ← ih]
      exact (List.append_nil _).symm
    · rw [held, List.rtakeWhile_concat_neg _ _ _ (by simp)]
      rfl

/-! ## Handles -/

theorem nextId_serve (log : EventLog) (c : Call) :
    (log.serve c).nextId = log.nextId + if c = .subscribe then 1 else 0 := by
  rcases c with e | - | id | - <;> rfl

theorem nextId_after (calls : List Call) : (after calls).nextId = calls.count .subscribe := by
  induction calls using List.reverseRecOn with
  | nil => rfl
  | append_singleton calls c ih =>
    rw [after_concat, nextId_serve, ih, List.count_append, List.count_singleton]
    simp only [beq_iff_eq]

/-- The handles of a log: those that are listed or were told anything have been given out, and they
are listed in the order in which they were. -/
structure Numbered (log : EventLog) : Prop where
  listed_lt : ∀ id ∈ log.subscribers, id.number < log.nextId
  told_lt : ∀ d ∈ log.delivered, d.1.number < log.nextId
  ordered : log.subscribers.Pairwise (·.number < ·.number)

theorem numbered_serve {log : EventLog} (h : Numbered log) (c : Call) : Numbered (log.serve c) := by
  have hnext : log.nextId ≤ (log.serve c).nextId := by
    rw [nextId_serve]
    exact Nat.le_add_right _ _
  have hlisted (id) (hid : id ∈ log.subscribers) : id.number < (log.serve c).nextId :=
    (h.listed_lt id hid).trans_le hnext
  have htold (d) (hd : d ∈ log.delivered) : d.1.number < (log.serve c).nextId :=
    (h.told_lt d hd).trans_le hnext
  rcases c with e | - | id | -
  · refine ⟨hlisted, ?_, h.ordered⟩
    intro d hd
    rw [serve, ← Array.mem_toList_iff, delivered_record] at hd
    rcases List.mem_append.mp hd with hd | hd
    · exact htold d (Array.mem_toList_iff.mp hd)
    · obtain ⟨id, hid, rfl⟩ := List.mem_map.mp hd
      exact hlisted id hid
  · refine ⟨?_, ?_, ?_⟩
    · intro id hid
      rcases List.mem_append.mp hid with hid | hid
      · exact hlisted id hid
      · rw [List.mem_singleton.mp hid]
        exact Nat.lt_succ_self log.nextId
    · intro d hd
      rw [serve, ← Array.mem_toList_iff, delivered_subscribe] at hd
      rcases List.mem_append.mp hd with hd | hd
      · exact htold d (Array.mem_toList_iff.mp hd)
      · obtain ⟨e, -, rfl⟩ := List.mem_map.mp hd
        exact Nat.lt_succ_self log.nextId
    · refine List.pairwise_append.mpr ⟨h.ordered, List.pairwise_singleton _ _, ?_⟩
      intro id hid new hnew
      rw [List.mem_singleton.mp hnew]
      exact h.listed_lt id hid
  · refine ⟨?_, htold, h.ordered.filter _⟩
    intro other hother
    exact hlisted other (List.mem_filter.mp hother).1
  · exact ⟨hlisted, htold, h.ordered⟩

theorem numbered_after (calls : List Call) : Numbered (after calls) := by
  induction calls using List.reverseRecOn with
  | nil => exact ⟨by simp [after, empty], by simp [after, empty], List.Pairwise.nil⟩
  | append_singleton calls c ih =>
    rw [after_concat]
    exact numbered_serve ih c

/-! ## What one call tells one subscriber -/

/-- What a call tells a subscriber who is listed `places` times, where the history is `history` and
the next handle is `next`. -/
def toldBy (id : SubscriptionId) (history : List Entry) (next : SubscriptionId) (places : Nat) :
    Call → List Entry
  | .record e => List.replicate places e
  | .subscribe => if id = next then history else []
  | .unsubscribe _ | .clear => []

/-- How often a subscriber is listed after a call. -/
def placesAfter (id next : SubscriptionId) (places : Nat) : Call → Nat
  | .subscribe => if id = next then places + 1 else places
  | .unsubscribe other => if id = other then 0 else places
  | .record _ | .clear => places

theorem deliveredTo_serve (log : EventLog) (id : SubscriptionId) (c : Call) :
    (log.serve c).deliveredTo id = log.deliveredTo id ++
      toldBy id log.entries.toList log.subscribe.1 (log.subscribers.count id) c := by
  rcases c with e | - | other | -
  · have hcalls : ((log.subscribers.map (·, e)).filter (·.1 == id)).map (·.2) =
        List.replicate (log.subscribers.count id) e := by
      rw [List.filter_map, List.map_map, Function.comp_def, Function.comp_def, List.map_const',
        List.count_eq_length_filter]
    rw [deliveredTo, serve, delivered_record, List.filter_append, List.map_append, hcalls]
    rfl
  · have hreplay : ((log.entries.toList.map (log.subscribe.1, ·)).filter (·.1 == id)).map (·.2) =
        if id = log.subscribe.1 then log.entries.toList else [] := by
      rw [List.filter_map, List.map_map, Function.comp_def, Function.comp_def]
      by_cases h : id = log.subscribe.1
      · simp [h]
      · simp [h, Ne.symm h]
    rw [deliveredTo, serve, delivered_subscribe, List.filter_append, List.map_append, hreplay]
    rfl
  · exact (List.append_nil _).symm
  · exact (List.append_nil _).symm

theorem count_subscribers_serve (log : EventLog) (id : SubscriptionId) (c : Call) :
    (log.serve c).subscribers.count id =
      placesAfter id log.subscribe.1 (log.subscribers.count id) c := by
  rcases c with e | - | other | -
  · rfl
  · have hlisted : (log.serve .subscribe).subscribers = log.subscribers ++ [log.subscribe.1] := rfl
    rw [hlisted, List.count_append, List.count_singleton, placesAfter]
    by_cases h : id = log.subscribe.1
    · simp [h]
    · simp [h, Ne.symm h]
  · have hlisted : (log.serve (.unsubscribe other)).subscribers =
        log.subscribers.filter (· != other) := rfl
    rw [hlisted, placesAfter]
    by_cases h : id = other
    · rw [if_pos h, h]
      exact List.count_eq_zero.mpr (by simp)
    · rw [if_neg h, List.count_filter (by simp [h])]
  · rfl

/-! ## Many calls -/

section Later

variable {log : EventLog} {id : SubscriptionId}

theorem ne_subscribe_of_lt (h : id.number < log.nextId) : id ≠ log.subscribe.1 := by
  rintro rfl
  exact Nat.lt_irrefl _ h

theorem lt_nextId_serve (h : id.number < log.nextId) (c : Call) :
    id.number < (log.serve c).nextId := by
  rw [nextId_serve]
  exact Nat.lt_add_right _ h

/-- A handle that is listed no more stays so and is told nothing. -/
theorem silent_of_not_listed (h : id.number < log.nextId) (hid : log.subscribers.count id = 0)
    (later : List Call) :
    (later.foldl serve log).deliveredTo id = log.deliveredTo id ∧
      id ∉ (later.foldl serve log).subscribers := by
  induction later generalizing log with
  | nil => exact ⟨rfl, List.count_eq_zero.mp hid⟩
  | cons c later ih =>
    have hnew := ne_subscribe_of_lt h
    have htold : (log.serve c).deliveredTo id = log.deliveredTo id := by
      rw [deliveredTo_serve, hid]
      rcases c with e | - | other | - <;> simp [toldBy, hnew]
    have hcount : (log.serve c).subscribers.count id = 0 := by
      rw [count_subscribers_serve, hid]
      rcases c with e | - | other | - <;> simp [placesAfter, hnew]
    obtain ⟨hdelivered, hlisted⟩ := ih (lt_nextId_serve h c) hcount
    exact ⟨hdelivered.trans htold, hlisted⟩

/-- A handle that is listed is told what is recorded until it is given back, and is listed until
then. -/
theorem told_of_listed (h : id.number < log.nextId) (hid : log.subscribers.count id = 1)
    (later : List Call) :
    (later.foldl serve log).deliveredTo id =
        log.deliveredTo id ++ recorded (later.takeWhile (· ≠ .unsubscribe id)) ∧
      (id ∈ (later.foldl serve log).subscribers ↔ .unsubscribe id ∉ later) := by
  induction later generalizing log with
  | nil =>
    have hlisted : id ∈ log.subscribers := List.count_pos_iff.mp (hid ▸ Nat.one_pos)
    exact ⟨(List.append_nil _).symm, iff_of_true hlisted List.not_mem_nil⟩
  | cons c later ih =>
    have hnew := ne_subscribe_of_lt h
    rw [List.foldl_cons, List.takeWhile_cons, List.mem_cons]
    by_cases hc : c = .unsubscribe id
    · have hcount : (log.serve c).subscribers.count id = 0 := by
        rw [count_subscribers_serve, hc]
        exact if_pos rfl
      obtain ⟨hdelivered, hlisted⟩ := silent_of_not_listed (lt_nextId_serve h c) hcount later
      rw [hdelivered, deliveredTo_serve, hc]
      exact ⟨by simp [toldBy, recorded], by simpa [hc] using hlisted⟩
    · have htold : (log.serve c).deliveredTo id = log.deliveredTo id ++ recorded [c] := by
        rw [deliveredTo_serve, hid]
        rcases c with e | - | other | - <;> simp [toldBy, recorded, Call.entry?, hnew]
      have hcount : (log.serve c).subscribers.count id = 1 := by
        rw [count_subscribers_serve, hid]
        rcases c with e | - | other | -
        · rfl
        · exact if_neg hnew
        · refine if_neg ?_
          rintro rfl
          exact hc rfl
        · rfl
      obtain ⟨hdelivered, hlisted⟩ := ih (lt_nextId_serve h c) hcount
      rw [hdelivered, hlisted, htold, if_pos (decide_eq_true hc), List.append_assoc,
        ← recorded_append, or_iff_right (Ne.symm hc)]
      exact ⟨rfl, Iff.rfl⟩

/-- Logs in which one subscriber sees no difference. -/
structure Alike (id : SubscriptionId) (log log' : EventLog) : Prop where
  entries : log.entries = log'.entries
  nextId : log.nextId = log'.nextId
  places : log.subscribers.count id = log'.subscribers.count id
  told : log.deliveredTo id = log'.deliveredTo id

theorem Alike.serve {log' : EventLog} (h : Alike id log log') (c : Call) :
    Alike id (log.serve c) (log'.serve c) := by
  have hnew : log.subscribe.1 = log'.subscribe.1 := congrArg SubscriptionId.mk h.nextId
  refine ⟨?_, ?_, ?_, ?_⟩
  · rcases c with e | - | other | -
    · exact congrArg (Array.push · e) h.entries
    · exact h.entries
    · exact h.entries
    · rfl
  · rw [nextId_serve, nextId_serve, h.nextId]
  · rw [count_subscribers_serve, count_subscribers_serve, hnew, h.places]
  · rw [deliveredTo_serve, deliveredTo_serve, h.told, h.entries, hnew, h.places]

theorem Alike.foldl_serve {log' : EventLog} (h : Alike id log log') (later : List Call) :
    Alike id (later.foldl EventLog.serve log) (later.foldl EventLog.serve log') := by
  induction later generalizing log log' with
  | nil => exact h
  | cons c later ih => exact ih (h.serve c)

theorem alike_unsubscribe {other : SubscriptionId} (h : other ≠ id) (log : EventLog) :
    Alike other (log.serve (.unsubscribe id)) log := by
  refine ⟨rfl, rfl, ?_, rfl⟩
  rw [count_subscribers_serve]
  exact if_neg h

end Later

/-! ## Subscriptions -/

/-- A subscription just made is listed once, and has been told the history. -/
theorem listed_after_subscribe (before : List Call) :
    ((after before).serve .subscribe).subscribers.count (after before).subscribe.1 = 1 ∧
      ((after before).serve .subscribe).deliveredTo (after before).subscribe.1 = held before := by
  have hfresh : (after before).subscribe.1 ∉ (after before).subscribers := by
    intro hid
    exact Nat.lt_irrefl _ ((numbered_after before).listed_lt _ hid)
  have huntold : (after before).deliveredTo (after before).subscribe.1 = [] := by
    rw [deliveredTo, List.map_eq_nil_iff, List.filter_eq_nil_iff]
    intro d hd heq
    have hlt := (numbered_after before).told_lt d (Array.mem_toList_iff.mp hd)
    rw [eq_of_beq heq] at hlt
    exact Nat.lt_irrefl _ hlt
  rw [count_subscribers_serve, deliveredTo_serve, List.count_eq_zero.mpr hfresh, huntold,
    entries_after]
  exact ⟨if_pos rfl, if_pos rfl⟩

theorem told_after_subscribe (before later : List Call) :
    (after (before ++ .subscribe :: later)).deliveredTo (after before).subscribe.1 =
        held before ++
          recorded (later.takeWhile (· ≠ .unsubscribe (after before).subscribe.1)) ∧
      ((after before).subscribe.1 ∈ (after (before ++ .subscribe :: later)).subscribers ↔
        .unsubscribe (after before).subscribe.1 ∉ later) := by
  obtain ⟨hlisted, htold⟩ := listed_after_subscribe before
  have hlt : (after before).subscribe.1.number < ((after before).serve .subscribe).nextId :=
    Nat.lt_succ_self _
  rw [after_append, List.foldl_cons, ← htold]
  exact told_of_listed hlt hlisted later

/-- The handles listed are those of the subscriptions not yet given back. -/
theorem mem_subscribers_after {calls : List Call} {id : SubscriptionId} :
    id ∈ (after calls).subscribers ↔ Subscribed calls id := by
  constructor
  · intro hid
    induction calls using List.reverseRecOn with
    | nil => exact absurd hid List.not_mem_nil
    | append_singleton calls c ih =>
      rw [after_concat] at hid
      -- a handle that was listed before the call was made further back
      have hback (hold : id ∈ (after calls).subscribers) (hc : .unsubscribe id ≠ c) :
          Subscribed (calls ++ [c]) id := by
        obtain ⟨before, later, rfl, hmade, hlater⟩ := ih hold
        refine ⟨before, later ++ [c], by simp, hmade, ?_⟩
        simpa [hlater] using hc
      rcases c with e | - | other | -
      · exact hback hid Call.noConfusion
      · rcases List.mem_append.mp hid with hold | hnew
        · exact hback hold Call.noConfusion
        · exact ⟨calls, [], rfl, List.mem_singleton.mp hnew, List.not_mem_nil⟩
      · obtain ⟨hold, hne⟩ := List.mem_filter.mp hid
        refine hback hold ?_
        rintro ⟨⟩
        simp at hne
      · exact hback hid Call.noConfusion
  · rintro ⟨before, later, rfl, rfl, hlater⟩
    exact (told_after_subscribe before later).2.mpr hlater

/-- **Subscribers are told everything once.** After any calls of a new log:

* its history is what has been recorded since it was last cleared;
* every subscription has been told the history that the log held when it was made, then what has
  been recorded until it was given back, and no later one has the same handle;
* giving a handle back says whether a subscription with it was live, and makes no difference to
  what anyone else is told, whatever comes after it;
* recording an entry tells it to the live subscriptions, each once, from the oldest to the
  newest. -/
theorem subscribers_told_once (calls : List Call) :
    (after calls).entries.toList = held calls ∧
    (∀ before later, calls = before ++ .subscribe :: later →
      (after calls).deliveredTo (after before).subscribe.1 =
          held before ++
            recorded (later.takeWhile (· ≠ .unsubscribe (after before).subscribe.1)) ∧
        (after before).subscribe.1.number < (after calls).subscribe.1.number) ∧
    (∀ id, ((after calls).unsubscribe id).1 ↔ Subscribed calls id) ∧
    (∀ id later other, other ≠ id →
      (after (calls ++ .unsubscribe id :: later)).deliveredTo other =
        (after (calls ++ later)).deliveredTo other) ∧
    ∀ e, ∃ told : List SubscriptionId,
      (after (calls ++ [.record e])).delivered.toList =
          (after calls).delivered.toList ++ told.map (·, e) ∧
        told.Pairwise (·.number < ·.number) ∧ ∀ id, id ∈ told ↔ Subscribed calls id := by
  refine ⟨entries_after calls, ?_, ?_, ?_, ?_⟩
  · rintro before later rfl
    refine ⟨(told_after_subscribe before later).1, ?_⟩
    show (after before).nextId < (after (before ++ .subscribe :: later)).nextId
    rw [nextId_after, nextId_after, List.count_append, List.count_cons_self]
    omega
  · intro id
    exact List.contains_iff_mem.trans mem_subscribers_after
  · intro id later other hother
    rw [after_append, after_append, List.foldl_cons]
    exact ((alike_unsubscribe hother (after calls)).foldl_serve later).told
  · intro e
    refine ⟨(after calls).subscribers, ?_, (numbered_after calls).ordered, ?_⟩
    · rw [after_concat]
      exact delivered_record (after calls) e
    · intro id
      exact mem_subscribers_after

/-- The first subscription replays an entry that is cleared afterwards, the second comes after the
clearing, and a handle is given back that has not been given out yet. -/
def comingAndGoing : List Call :=
  [.record (.info .lexer "1 token(s)"), .subscribe, .clear, .record (.warning .system "halted"),
    .unsubscribe ⟨1⟩, .subscribe, .unsubscribe ⟨0⟩, .record (.error .parser "no operand")]

theorem subscribers_told_once_comingAndGoing :
    (after comingAndGoing).deliveredTo ⟨0⟩ =
      [.info .lexer "1 token(s)", .warning .system "halted"] ∧
    (after comingAndGoing).deliveredTo ⟨1⟩ =
      [.warning .system "halted", .error .parser "no operand"] ∧
    (⟨1⟩ : SubscriptionId) ≠ ⟨0⟩ ∧
    (after (comingAndGoing ++ [.unsubscribe ⟨0⟩, .clear])).deliveredTo ⟨1⟩ =
      (after (comingAndGoing ++ [.clear])).deliveredTo ⟨1⟩ := by
  obtain ⟨-, htold, -, hothers, -⟩ := subscribers_told_once comingAndGoing
  have hne : (⟨1⟩ : SubscriptionId) ≠ ⟨0⟩ := by decide
  refine ⟨?_, ?_, hne, hothers ⟨0⟩ [.clear] ⟨1⟩ hne⟩
  · exact (htold (comingAndGoing.take 1) (comingAndGoing.drop 2) rfl).1
  · exact (htold (comingAndGoing.take 5) (comingAndGoing.drop 6) rfl).1

end BasicComputer.EventLog
