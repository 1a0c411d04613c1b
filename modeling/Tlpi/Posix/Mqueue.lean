import Tlpi.Lib.Decimal
import Tlpi.Posix.Base

set_option autoImplicit false

/-! # POSIX message queues

What the kernel keeps for a message queue, and its rule for `mq_notify`. One process at a time can
be registered for notification. A message that arrives at an empty queue while a process is
registered and no receiver is blocked removes the registration and notifies the process. Nothing
else does: a message for a blocked receiver never enters the queue, a message that arrives at a
queue with messages in it goes unnoticed, and so does the message of a blocked sender, which takes
the place that a receiver has made in a full queue.
-/

namespace Tlpi

structure Message where
  priority : ℕ
  data : List UInt8
deriving DecidableEq, Repr

/-- `printf("Read %ld bytes\n", numRead)`, as the notified programs print it for each message. -/
def printRead (numRead : ℕ) : List UInt8 :=
  str "Read " ++ Decimal.numeral numRead ++ str " bytes\n"

/-- Highest priority first, and the oldest first among equals. -/
def insertMessage (m : Message) : List Message → List Message
  | [] => [m]
  | x :: xs => if x.priority < m.priority then m :: x :: xs else x :: insertMessage m xs

theorem insertMessage_length (m : Message) (ms : List Message) :
    (insertMessage m ms).length = ms.length + 1 := by
  induction ms with
  | nil => rfl
  | cons x xs ih =>
      unfold insertMessage
      split
      · rfl
      · rw [List.length_cons, ih, List.length_cons]

/-- A queue; `receivers` counts the processes that are blocked in `mq_receive`. -/
structure Mqueue where
  maxmsg : ℕ
  messages : List Message
  receivers : ℕ
  registered : Bool
  maxmsg_pos : 0 < maxmsg
  length_le : messages.length ≤ maxmsg
  blocked_empty : 0 < receivers → messages = []

namespace Mqueue

/-- `mq_send`: the queue after it, and whether the registered process is notified. A full queue
blocks the sender. -/
def send (q : Mqueue) (m : Message) : Option (Mqueue × Bool) :=
  -- a blocked receiver gets the message directly
  if hr : 0 < q.receivers then
    some ({ q with
      receivers := q.receivers - 1
      blocked_empty := fun _ => q.blocked_empty hr }, false)
  else if hlt : q.messages.length < q.maxmsg then
    some ({ q with
      messages := insertMessage m q.messages
      registered := q.registered && !q.messages.isEmpty
      length_le := by rw [insertMessage_length]; exact hlt
      blocked_empty := fun h => absurd h hr }, q.registered && q.messages.isEmpty)
  else none

/-- `mq_receive` on a queue that is not empty. If the queue was full, a blocked sender's message
`refill` may enter it at once. -/
def receive (q : Mqueue) (refill : Option Message) : Option (Message × Mqueue) :=
  match h : q.messages with
  | [] => none
  | m :: rest =>
      have hlen : rest.length < q.maxmsg := by
        have := q.length_le
        rw [h, List.length_cons] at this
        exact this
      have hnone : ¬ 0 < q.receivers := fun hr =>
        List.cons_ne_nil m rest (h.symm.trans (q.blocked_empty hr))
      -- no `refill` also if the queue was full but no sender was waiting
      match refill with
      | none =>
          some (m, { q with
            messages := rest
            length_le := hlen.le
            blocked_empty := fun hr => absurd hr hnone })
      | some m' =>
          if q.messages.length = q.maxmsg then
            some (m, { q with
              messages := insertMessage m' rest
              length_le := by rw [insertMessage_length]; exact hlen
              blocked_empty := fun hr => absurd hr hnone })
          else none

/-- A process calls `mq_receive` on the empty queue and blocks. -/
def block (q : Mqueue) : Option Mqueue :=
  if h : q.messages = [] then
    some { q with receivers := q.receivers + 1, blocked_empty := fun _ => h }
  else none

/-- A blocked receiver is interrupted or times out. -/
def unblock (q : Mqueue) : Option Mqueue :=
  if h : 0 < q.receivers then
    some { q with receivers := q.receivers - 1, blocked_empty := fun _ => q.blocked_empty h }
  else none

/-- `mq_notify(mqd, &sev)` on a valid descriptor. -/
def notify (q : Mqueue) : Except Errno Mqueue :=
  if q.registered then .error .EBUSY else .ok { q with registered := true }

/-- The registration ends with the process. -/
def unregister (q : Mqueue) : Mqueue := { q with registered := false }

/-! ## Other processes -/

/-- What the processes that never register do with the queue. -/
inductive Use where
  | send (m : Message)
  | receive (refill : Option Message)
  | block
  | unblock
deriving DecidableEq, Repr

/-- The queue after it, and whether the registered process is notified. -/
def use (q : Mqueue) : Use → Option (Mqueue × Bool)
  | .send m => q.send m
  | .receive refill => (q.receive refill).map fun r => (r.2, false)
  | .block => q.block.map (·, false)
  | .unblock => q.unblock.map (·, false)

/-- What others can do: notify the registered process, or leave the registration as it is; and
then a queue that was empty under a registration has stayed empty. -/
inductive Used (q r : Mqueue) : Bool → Prop where
  | notified (hreg : q.registered = true) (hempty : q.messages = [])
      (hreg' : r.registered = false) : Used q r true
  | silent (hreg : r.registered = q.registered)
      (hempty : q.registered = true → q.messages = [] → r.messages = []) : Used q r false

theorem receive_spec {q r : Mqueue} {refill : Option Message} {m : Message}
    (h : q.receive refill = some (m, r)) : q.messages ≠ [] ∧ r.registered = q.registered := by
  unfold receive at h
  split at h
  · cases h
  · rename_i x rest hq
    refine ⟨by rw [hq]; exact List.cons_ne_nil x rest, ?_⟩
    split at h
    · obtain ⟨-, rfl⟩ := Prod.mk.inj (Option.some.inj h)
      rfl
    · split at h
      · obtain ⟨-, rfl⟩ := Prod.mk.inj (Option.some.inj h)
        rfl
      · cases h

theorem used_of_send {q r : Mqueue} {m : Message} {fired : Bool} (h : q.send m = some (r, fired)) :
    Used q r fired := by
  unfold send at h
  split at h
  · obtain ⟨rfl, rfl⟩ := Prod.mk.inj (Option.some.inj h)
    exact .silent rfl fun _ hempty => hempty
  · split at h
    · obtain ⟨rfl, rfl⟩ := Prod.mk.inj (Option.some.inj h)
      by_cases hfire : q.registered = true ∧ q.messages = []
      · have hfired : (q.registered && q.messages.isEmpty) = true := by simp [hfire]
        rw [hfired]
        exact .notified hfire.1 hfire.2 (by simp [hfire])
      · have hfired : (q.registered && q.messages.isEmpty) = false := by simpa using hfire
        rw [hfired]
        refine .silent ?_ fun hreg hempty => absurd ⟨hreg, hempty⟩ hfire
        show (q.registered && !q.messages.isEmpty) = q.registered
        cases hreg : q.registered with
        | false => rfl
        | true => simpa [hreg] using hfire
    · cases h

theorem used_of_use {q r : Mqueue} {a : Use} {fired : Bool} (h : q.use a = some (r, fired)) :
    Used q r fired := by
  cases a with
  | send m => exact used_of_send h
  | receive refill =>
      obtain ⟨⟨m, r'⟩, hrec, heq⟩ := Option.map_eq_some_iff.mp h
      obtain ⟨rfl, rfl⟩ := Prod.mk.inj heq
      obtain ⟨hne, hreg⟩ := receive_spec hrec
      exact .silent hreg fun _ hempty => absurd hempty hne
  | block =>
      obtain ⟨r', hblock, heq⟩ := Option.map_eq_some_iff.mp h
      obtain ⟨rfl, rfl⟩ := Prod.mk.inj heq
      unfold block at hblock
      split at hblock
      · obtain rfl := Option.some.inj hblock
        exact .silent rfl fun _ hempty => hempty
      · cases hblock
  | unblock =>
      obtain ⟨r', hunblock, heq⟩ := Option.map_eq_some_iff.mp h
      obtain ⟨rfl, rfl⟩ := Prod.mk.inj heq
      unfold unblock at hunblock
      split at hunblock
      · obtain rfl := Option.some.inj hunblock
        exact .silent rfl fun _ hempty => hempty
      · cases hunblock

theorem notify_of_unregistered {q : Mqueue} (h : q.registered = false) :
    q.notify = .ok { q with registered := true } := by
  simp [notify, h]

/-- A queue for ten messages, with one in it. -/
def withOld : Mqueue :=
  ⟨10, [⟨0, str "old"⟩], 0, false, by decide, by decide, fun h => absurd h (by decide)⟩

end Mqueue

end Tlpi
