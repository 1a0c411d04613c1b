import Tlpi.Posix.Mqueue

set_option autoImplicit false

/-! # Processes at a message queue

A message queue with the processes that are blocked on it, by their numbers, and with its history:
the messages that have come in, each with its sender, and the messages that have gone out, each with
its receiver. When a message arrives and processes are blocked in `mq_receive`, one of them gets it;
when a place becomes free and processes are blocked in `mq_send`, the message of one of them enters
the queue. Which one is left open (`pick`).
-/

namespace Tlpi

structure WaitQueue where
  queue : Mqueue
  msgsize : ℕ
  receivers : List ℕ
  senders : List (ℕ × Message)
  accepted : List (ℕ × Message)
  taken : List (ℕ × Message)

namespace Mqueue

variable {q r : Mqueue} {m m' : Message} {fired : Bool}

/-- A message goes to a blocked receiver or into the queue. -/
theorem send_spec (h : q.send m = some (r, fired)) :
    r.maxmsg = q.maxmsg ∧
      (q.receivers = r.receivers + 1 ∧ q.messages = [] ∧ r.messages = [] ∨
        q.receivers = 0 ∧ r.receivers = 0 ∧ r.messages = insertMessage m q.messages) := by
  unfold send at h
  split at h
  · rename_i hr
    obtain ⟨rfl, -⟩ := Prod.mk.inj (Option.some.inj h)
    exact ⟨rfl, Or.inl ⟨(Nat.succ_pred_eq_of_pos hr).symm, q.blocked_empty hr, q.blocked_empty hr⟩⟩
  · rename_i hr
    have hzero : q.receivers = 0 := Nat.eq_zero_of_not_pos hr
    split at h
    · obtain ⟨rfl, -⟩ := Prod.mk.inj (Option.some.inj h)
      exact ⟨rfl, Or.inr ⟨hzero, hzero, rfl⟩⟩
    · cases h

theorem send_eq_none (h : q.send m = none) : q.messages.length = q.maxmsg := by
  unfold send at h
  split at h
  · cases h
  · split at h
    · cases h
    · rename_i hfull
      have hle := q.length_le
      omega

theorem receive_none_spec (h : q.receive none = some (m, r)) :
    r.maxmsg = q.maxmsg ∧ r.receivers = q.receivers ∧ q.messages = m :: r.messages := by
  unfold receive at h
  split at h
  · cases h
  · rename_i x rest hq
    obtain ⟨rfl, rfl⟩ := Prod.mk.inj (Option.some.inj h)
    exact ⟨rfl, rfl, hq⟩

theorem receive_some_spec (h : q.receive (some m') = some (m, r)) :
    r.maxmsg = q.maxmsg ∧ r.receivers = q.receivers ∧ q.messages.length = q.maxmsg ∧
      ∃ rest, q.messages = m :: rest ∧ r.messages = insertMessage m' rest := by
  unfold receive at h
  split at h
  · cases h
  · rename_i x rest hq
    dsimp only at h
    split at h
    · rename_i hfull
      obtain ⟨rfl, rfl⟩ := Prod.mk.inj (Option.some.inj h)
      exact ⟨rfl, rfl, hfull, rest, hq, rfl⟩
    · cases h

theorem exists_receive_none (h : q.messages ≠ []) : ∃ s, q.receive none = some s := by
  unfold receive
  split
  · rename_i hnil
    exact absurd hnil h
  · exact ⟨_, rfl⟩

theorem exists_receive_some (m' : Message) (h : q.messages ≠ [])
    (hfull : q.messages.length = q.maxmsg) : ∃ s, q.receive (some m') = some s := by
  unfold receive
  split
  · rename_i hnil
    exact absurd hnil h
  · dsimp only
    rw [if_pos hfull]
    exact ⟨_, rfl⟩

theorem block_spec (h : q.block = some r) :
    r.maxmsg = q.maxmsg ∧ r.receivers = q.receivers + 1 ∧ r.messages = q.messages := by
  unfold block at h
  split at h
  · obtain rfl := Option.some.inj h
    exact ⟨rfl, rfl, rfl⟩
  · cases h

theorem unblock_spec (h : q.unblock = some r) :
    r.maxmsg = q.maxmsg ∧ q.receivers = r.receivers + 1 ∧ r.messages = q.messages := by
  unfold unblock at h
  split at h
  · rename_i hpos
    obtain rfl := Option.some.inj h
    exact ⟨rfl, (Nat.succ_pred_eq_of_pos hpos).symm, rfl⟩
  · cases h

end Mqueue

namespace WaitQueue

/-- What a call does at once: it is done, or the process is blocked. -/
inductive Result (α : Type) where
  | done (a : α)
  | blocked
deriving DecidableEq, Repr

/-- `mq_send` by the process `p`. -/
def send (k : WaitQueue) (p : ℕ) (m : Message) (pick : ℕ) : Option (Result Unit × WaitQueue) :=
  match k.receivers with
  | [] =>
      match k.queue.send m with
      | some (queue, _) =>
          some (.done (), { k with queue := queue, accepted := k.accepted ++ [(p, m)] })
      | none => some (.blocked, { k with senders := k.senders ++ [(p, m)] })
  | receivers =>
      (receivers[pick]?).bind fun r =>
        (k.queue.send m).map fun s =>
          (.done (), { k with
            queue := s.1
            receivers := receivers.eraseIdx pick
            accepted := k.accepted ++ [(p, m)]
            taken := k.taken ++ [(r, m)] })

/-- `mq_receive` by the process `p`. -/
def receive (k : WaitQueue) (p : ℕ) (pick : ℕ) : Option (Result Message × WaitQueue) :=
  if k.queue.messages = [] then
    k.queue.block.map fun queue =>
      (.blocked, { k with queue := queue, receivers := k.receivers ++ [p] })
  else
    match k.senders with
    | [] =>
        (k.queue.receive none).map fun r =>
          (.done r.1, { k with queue := r.2, taken := k.taken ++ [(p, r.1)] })
    | senders =>
        (senders[pick]?).bind fun s =>
          (k.queue.receive (some s.2)).map fun r =>
            (.done r.1, { k with
              queue := r.2
              senders := senders.eraseIdx pick
              accepted := k.accepted ++ [s]
              taken := k.taken ++ [(p, r.1)] })

/-- The process `p` stops waiting, if it still does. -/
def cancel (k : WaitQueue) (p : ℕ) : WaitQueue :=
  if p ∈ k.receivers then
    match k.queue.unblock with
    | some queue => { k with queue := queue, receivers := k.receivers.erase p }
    | none => k
  else { k with senders := k.senders.filter fun s => s.1 ≠ p }

def fresh (maxmsg msgsize : ℕ) (h : 0 < maxmsg) : WaitQueue where
  queue := ⟨maxmsg, [], 0, false, h, Nat.zero_le _, fun h => absurd h (lt_irrefl 0)⟩
  msgsize := msgsize
  receivers := []
  senders := []
  accepted := []
  taken := []

/-! ## Messages of one priority -/

/-- The messages with the priority `n`, in their order. -/
def ofPriority (n : ℕ) (ms : List Message) : List Message :=
  ms.filter fun m => decide (m.priority = n)

theorem ofPriority_append (n : ℕ) (ms ns : List Message) :
    ofPriority n (ms ++ ns) = ofPriority n ms ++ ofPriority n ns := List.filter_append ..

/-- Highest priority first. -/
def Sorted (ms : List Message) : Prop := ms.Pairwise fun a b => b.priority ≤ a.priority

theorem mem_insertMessage {m x : Message} {ms : List Message} (h : x ∈ insertMessage m ms) :
    x = m ∨ x ∈ ms := by
  induction ms with
  | nil => exact Or.inl (List.mem_singleton.mp h)
  | cons y ys ih =>
      unfold insertMessage at h
      split at h
      · exact List.mem_cons.mp h
      · rcases List.mem_cons.mp h with rfl | h
        · exact Or.inr List.mem_cons_self
        · rcases ih h with hm | hmem
          · exact Or.inl hm
          · exact Or.inr (List.mem_cons_of_mem y hmem)

theorem insertMessage_sorted {m : Message} {ms : List Message} (h : Sorted ms) :
    Sorted (insertMessage m ms) := by
  induction ms with
  | nil => exact List.pairwise_singleton _ m
  | cons y ys ih =>
      obtain ⟨hy, hys⟩ := List.pairwise_cons.mp h
      unfold insertMessage
      split
      · rename_i hlt
        refine List.pairwise_cons.mpr ⟨fun x hx => ?_, h⟩
        rcases List.mem_cons.mp hx with rfl | hx
        · exact hlt.le
        · exact (hy x hx).trans hlt.le
      · rename_i hge
        refine List.pairwise_cons.mpr ⟨fun x hx => ?_, ih hys⟩
        rcases mem_insertMessage hx with rfl | hx
        · exact not_lt.mp hge
        · exact hy x hx

/-- A message enters behind those of its priority. -/
theorem ofPriority_insertMessage {m : Message} {ms : List Message} (h : Sorted ms) (n : ℕ) :
    ofPriority n (insertMessage m ms) = ofPriority n ms ++ ofPriority n [m] := by
  induction ms with
  | nil => rfl
  | cons y ys ih =>
      obtain ⟨hy, hys⟩ := List.pairwise_cons.mp h
      unfold insertMessage
      split
      · rename_i hlt
        -- All the others have a lower priority than `m`.
        by_cases hn : m.priority = n
        · have hnone : ofPriority n (y :: ys) = [] := by
            rw [ofPriority, List.filter_eq_nil_iff]
            intro x hx
            have hle : x.priority ≤ y.priority := by
              rcases List.mem_cons.mp hx with rfl | hx
              · exact le_rfl
              · exact hy x hx
            simp only [decide_eq_true_eq]
            omega
          have hcons : ofPriority n (m :: y :: ys) = ofPriority n [m] ++ ofPriority n (y :: ys) :=
            ofPriority_append n [m] (y :: ys)
          rw [hcons, hnone, List.append_nil, List.nil_append]
        · have hnil : ofPriority n [m] = [] := by simp [ofPriority, hn]
          have hcons : ofPriority n (m :: y :: ys) = ofPriority n [m] ++ ofPriority n (y :: ys) :=
            ofPriority_append n [m] (y :: ys)
          rw [hcons, hnil, List.append_nil, List.nil_append]
      · have hcons : ∀ zs, ofPriority n (y :: zs) = ofPriority n [y] ++ ofPriority n zs :=
          ofPriority_append n [y]
        rw [hcons, ih hys, hcons ys, List.append_assoc]

/-! ## The invariant of a queue -/

/-- The processes that have called `mq_send`, and those that have called `mq_receive`, but for the
ones that stopped waiting. -/
def senderIds (k : WaitQueue) : List ℕ := k.accepted.map Prod.fst ++ k.senders.map Prod.fst

def receiverIds (k : WaitQueue) : List ℕ := k.taken.map Prod.fst ++ k.receivers

/-- Messages of one priority go out in the order in which they came in, and none is lost or comes
twice; a process gets or sends one message. -/
structure Ok (k : WaitQueue) : Prop where
  count : k.queue.receivers = k.receivers.length
  full : k.senders ≠ [] → k.queue.messages.length = k.queue.maxmsg
  sorted : Sorted k.queue.messages
  order : ∀ n, ofPriority n (k.taken.map Prod.snd) ++ ofPriority n k.queue.messages =
    ofPriority n (k.accepted.map Prod.snd)
  senders_nodup : k.senderIds.Nodup
  receivers_nodup : k.receiverIds.Nodup

variable {k k' : WaitQueue} {p pick : ℕ} {m : Message}

theorem fresh_ok (maxmsg msgsize : ℕ) (h : 0 < maxmsg) : Ok (fresh maxmsg msgsize h) :=
  ⟨rfl, fun h => absurd rfl h, .nil, fun _ => rfl, .nil, .nil⟩

/-- Blocked receivers find the queue empty. -/
theorem Ok.empty (h : Ok k) (hr : k.receivers ≠ []) : k.queue.messages = [] := by
  refine k.queue.blocked_empty ?_
  rw [h.count]
  exact List.length_pos_of_ne_nil hr

/-- Senders and receivers are never blocked at the same time. -/
theorem Ok.one_side (h : Ok k) : k.receivers = [] ∨ k.senders = [] := by
  by_contra hnot
  obtain ⟨hr, hs⟩ := not_or.mp hnot
  have hfull := h.full hs
  rw [h.empty hr, List.length_nil] at hfull
  have hpos := k.queue.maxmsg_pos
  omega

/-- What `mq_send` can do. -/
inductive Sends (k : WaitQueue) (p : ℕ) (m : Message) : Result Unit → WaitQueue → Prop where
  | handed (r pick : ℕ) (queue : Mqueue) (hr : k.receivers[pick]? = some r)
      (hmax : queue.maxmsg = k.queue.maxmsg) (hcount : k.queue.receivers = queue.receivers + 1)
      (hold : k.queue.messages = []) (hempty : queue.messages = []) :
      Sends k p m (.done ()) { k with
        queue := queue
        receivers := k.receivers.eraseIdx pick
        accepted := k.accepted ++ [(p, m)]
        taken := k.taken ++ [(r, m)] }
  | entered (queue : Mqueue) (hnone : k.receivers = []) (hmax : queue.maxmsg = k.queue.maxmsg)
      (hcount : queue.receivers = 0) (hlt : k.queue.messages.length < k.queue.maxmsg)
      (hmessages : queue.messages = insertMessage m k.queue.messages) :
      Sends k p m (.done ()) { k with queue := queue, accepted := k.accepted ++ [(p, m)] }
  | blocked (hfull : k.queue.messages.length = k.queue.maxmsg) :
      Sends k p m .blocked { k with senders := k.senders ++ [(p, m)] }

theorem Ok.send_cases {res : Result Unit} (h : Ok k) (hsend : k.send p m pick = some (res, k')) :
    Sends k p m res k' := by
  unfold send at hsend
  split at hsend
  · rename_i hnone
    have hzero : k.queue.receivers = 0 := by rw [h.count, hnone, List.length_nil]
    split at hsend
    · rename_i queue fired hq
      obtain ⟨rfl, rfl⟩ := Prod.mk.inj (Option.some.inj hsend)
      obtain ⟨hmax, ⟨hcount, -⟩ | ⟨-, hcount, hmessages⟩⟩ := Mqueue.send_spec hq
      · omega
      · have hlen := queue.length_le
        rw [hmessages, insertMessage_length, hmax] at hlen
        exact .entered queue hnone hmax hcount hlen hmessages
    · rename_i hq
      obtain ⟨rfl, rfl⟩ := Prod.mk.inj (Option.some.inj hsend)
      exact .blocked (Mqueue.send_eq_none hq)
  · rename_i hsome
    obtain ⟨r, hr, hsend⟩ := Option.bind_eq_some_iff.mp hsend
    obtain ⟨⟨queue, fired⟩, hq, heq⟩ := Option.map_eq_some_iff.mp hsend
    obtain ⟨rfl, rfl⟩ := Prod.mk.inj heq
    obtain ⟨hmax, ⟨hcount, hold, hempty⟩ | ⟨hcount, -⟩⟩ := Mqueue.send_spec hq
    · exact .handed r pick queue hr hmax hcount hold hempty
    · rw [h.count, List.length_eq_zero_iff] at hcount
      exact absurd hcount hsome

/-- What `mq_receive` can do. -/
inductive Receives (k : WaitQueue) (p : ℕ) : Result Message → WaitQueue → Prop where
  | blocked (queue : Mqueue) (hmax : queue.maxmsg = k.queue.maxmsg)
      (hcount : queue.receivers = k.queue.receivers + 1) (hold : k.queue.messages = [])
      (hempty : queue.messages = []) :
      Receives k p .blocked { k with queue := queue, receivers := k.receivers ++ [p] }
  | took (m : Message) (queue : Mqueue) (hnone : k.senders = [])
      (hmax : queue.maxmsg = k.queue.maxmsg) (hcount : queue.receivers = k.queue.receivers)
      (hmessages : k.queue.messages = m :: queue.messages) :
      Receives k p (.done m) { k with queue := queue, taken := k.taken ++ [(p, m)] }
  | refilled (m : Message) (pick : ℕ) (s : ℕ × Message) (queue : Mqueue) (rest : List Message)
      (hs : k.senders[pick]? = some s) (hmax : queue.maxmsg = k.queue.maxmsg)
      (hcount : queue.receivers = k.queue.receivers)
      (hfull : k.queue.messages.length = k.queue.maxmsg)
      (hold : k.queue.messages = m :: rest) (hmessages : queue.messages = insertMessage s.2 rest) :
      Receives k p (.done m) { k with
        queue := queue
        senders := k.senders.eraseIdx pick
        accepted := k.accepted ++ [s]
        taken := k.taken ++ [(p, m)] }

theorem receive_cases {res : Result Message} (hrec : k.receive p pick = some (res, k')) :
    Receives k p res k' := by
  unfold receive at hrec
  split at hrec
  · rename_i hempty
    obtain ⟨queue, hq, heq⟩ := Option.map_eq_some_iff.mp hrec
    obtain ⟨rfl, rfl⟩ := Prod.mk.inj heq
    obtain ⟨hmax, hcount, hmessages⟩ := Mqueue.block_spec hq
    exact .blocked queue hmax hcount hempty (hmessages.trans hempty)
  · split at hrec
    · rename_i hnone
      obtain ⟨⟨m, queue⟩, hq, heq⟩ := Option.map_eq_some_iff.mp hrec
      obtain ⟨rfl, rfl⟩ := Prod.mk.inj heq
      obtain ⟨hmax, hcount, hmessages⟩ := Mqueue.receive_none_spec hq
      exact .took m queue hnone hmax hcount hmessages
    · obtain ⟨s, hs, hrec⟩ := Option.bind_eq_some_iff.mp hrec
      obtain ⟨⟨m, queue⟩, hq, heq⟩ := Option.map_eq_some_iff.mp hrec
      obtain ⟨rfl, rfl⟩ := Prod.mk.inj heq
      obtain ⟨hmax, hcount, hfull, rest, hold, hmessages⟩ := Mqueue.receive_some_spec hq
      exact .refilled m pick s queue rest hs hmax hcount hfull hold hmessages

/-! ### The processes that have called -/

theorem perm_eraseIdx {α : Type} {l : List α} {i : ℕ} {a : α} (h : l[i]? = some a) :
    (a :: l.eraseIdx i).Perm l := by
  obtain ⟨hlt, rfl⟩ := List.getElem?_eq_some_iff.mp h
  exact List.getElem_cons_eraseIdx_perm hlt

/-- The head of the second list moves to the end of the first. -/
theorem perm_moved {α : Type} {as bs cs : List α} {a : α} (h : (a :: cs).Perm bs) :
    (as ++ [a] ++ cs).Perm (as ++ bs) := by
  rw [List.append_assoc, List.singleton_append]
  exact h.append_left as

theorem perm_inserted {α : Type} (as bs : List α) (a : α) :
    (as ++ [a] ++ bs).Perm (as ++ bs ++ [a]) := by
  rw [List.append_assoc, List.append_assoc]
  exact List.perm_append_comm.append_left as

theorem Sends.ids {res : Result Unit} (h : Sends k p m res k') :
    k'.senderIds.Perm (k.senderIds ++ [p]) ∧ k'.receiverIds.Perm k.receiverIds := by
  cases h with
  | handed r pick queue hr hmax hcount hold hempty =>
      refine ⟨?_, ?_⟩
      · simp only [senderIds, List.map_append, List.map_cons, List.map_nil]
        exact perm_inserted _ _ p
      · simp only [receiverIds, List.map_append, List.map_cons, List.map_nil]
        exact perm_moved (perm_eraseIdx hr)
  | entered queue hnone hmax hcount hlt hmessages =>
      refine ⟨?_, .refl _⟩
      simp only [senderIds, List.map_append, List.map_cons, List.map_nil]
      exact perm_inserted _ _ p
  | blocked hfull =>
      refine ⟨?_, .refl _⟩
      simp only [senderIds, List.map_append, List.map_cons, List.map_nil, List.append_assoc]
      exact .refl _

theorem Receives.ids {res : Result Message} (h : Receives k p res k') :
    k'.senderIds.Perm k.senderIds ∧ k'.receiverIds.Perm (k.receiverIds ++ [p]) := by
  cases h with
  | blocked queue hmax hcount hold hempty =>
      refine ⟨.refl _, ?_⟩
      simp only [receiverIds, List.append_assoc]
      exact .refl _
  | took m queue hnone hmax hcount hmessages =>
      refine ⟨.refl _, ?_⟩
      simp only [receiverIds, List.map_append, List.map_cons, List.map_nil]
      exact perm_inserted _ _ p
  | refilled m pick s queue rest hs hmax hcount hfull hold hmessages =>
      refine ⟨?_, ?_⟩
      · simp only [senderIds, List.map_append, List.map_cons, List.map_nil]
        exact perm_moved ((perm_eraseIdx hs).map Prod.fst)
      · simp only [receiverIds, List.map_append, List.map_cons, List.map_nil]
        exact perm_inserted _ _ p

theorem nodup_concat {l : List ℕ} (h : l.Nodup) (hp : p ∉ l) : (l ++ [p]).Nodup := by
  rw [List.nodup_append]
  refine ⟨h, List.nodup_singleton p, fun a ha b hb => ?_⟩
  rw [List.mem_singleton.mp hb]
  rintro rfl
  exact hp ha

/-- The order after `m` came in and went out at once. -/
theorem order_handed {n : ℕ} {as bs : List Message} (m : Message)
    (h : ofPriority n as ++ ofPriority n [] = ofPriority n bs) :
    ofPriority n (as ++ [m]) ++ ofPriority n [] = ofPriority n (bs ++ [m]) := by
  rw [ofPriority_append, ofPriority_append, ← h]
  simp [ofPriority]

theorem Ok.sends {res : Result Unit} (h : Ok k) (hp : p ∉ k.senderIds) (hs : Sends k p m res k') :
    Ok k' := by
  obtain ⟨hsids, hrids⟩ := hs.ids
  have hsnodup : k'.senderIds.Nodup := hsids.nodup_iff.mpr (nodup_concat h.senders_nodup hp)
  have hrnodup : k'.receiverIds.Nodup := hrids.nodup_iff.mpr h.receivers_nodup
  cases hs with
  | handed r pick queue hr hmax hcount hold hempty =>
      obtain ⟨hlt, -⟩ := List.getElem?_eq_some_iff.mp hr
      have hnone : k.senders = [] := by
        rcases h.one_side with hnil | hnil
        · rw [hnil] at hlt
          cases hlt
        · exact hnil
      refine ⟨?_, fun hs => absurd hnone hs, ?_, fun n => ?_, hsnodup, hrnodup⟩
      · have hlen := h.count
        simp only [List.length_eraseIdx_of_lt hlt]
        omega
      · rw [hempty]
        exact .nil
      · have horder := h.order n
        rw [hold] at horder
        rw [hempty, List.map_append, List.map_append]
        exact order_handed m horder
  | entered queue hnone hmax hcount hlt hmessages =>
      refine ⟨?_, fun hs => ?_, ?_, fun n => ?_, hsnodup, hrnodup⟩
      · rw [hcount, hnone, List.length_nil]
      · have hfull := h.full hs
        omega
      · rw [hmessages]
        exact insertMessage_sorted h.sorted
      · rw [hmessages, ofPriority_insertMessage h.sorted, List.map_append, ofPriority_append,
          ← h.order n, List.append_assoc]
        rfl
  | blocked hfull => exact ⟨h.count, fun _ => hfull, h.sorted, h.order, hsnodup, hrnodup⟩

/-- The order after the first message went out. -/
theorem order_took {n : ℕ} {as bs rest : List Message} (m : Message)
    (h : ofPriority n as ++ ofPriority n (m :: rest) = ofPriority n bs) :
    ofPriority n (as ++ [m]) ++ ofPriority n rest = ofPriority n bs := by
  have hcons : ofPriority n (m :: rest) = ofPriority n [m] ++ ofPriority n rest :=
    ofPriority_append n [m] rest
  rw [← h, hcons, ofPriority_append, List.append_assoc]

theorem Ok.receives {res : Result Message} (h : Ok k) (hp : p ∉ k.receiverIds)
    (hr : Receives k p res k') : Ok k' := by
  obtain ⟨hsids, hrids⟩ := hr.ids
  have hsnodup : k'.senderIds.Nodup := hsids.nodup_iff.mpr h.senders_nodup
  have hrnodup : k'.receiverIds.Nodup := hrids.nodup_iff.mpr (nodup_concat h.receivers_nodup hp)
  cases hr with
  | blocked queue hmax hcount hold hempty =>
      refine ⟨?_, fun hs => ?_, ?_, fun n => ?_, hsnodup, hrnodup⟩
      · rw [hcount, h.count, List.length_append, List.length_singleton]
      · have hfull := h.full hs
        rw [hmax, ← hfull, hempty, hold]
      · rw [hempty]
        exact .nil
      · have horder := h.order n
        rw [hold] at horder
        rw [hempty]
        exact horder
  | took m queue hnone hmax hcount hmessages =>
      have hsorted := h.sorted
      rw [hmessages] at hsorted
      refine ⟨hcount.trans h.count, fun hs => absurd hnone hs, (List.pairwise_cons.mp hsorted).2,
        fun n => ?_, hsnodup, hrnodup⟩
      have horder := h.order n
      rw [hmessages] at horder
      rw [List.map_append]
      exact order_took m horder
  | refilled m pick s queue rest hs hmax hcount hfull hold hmessages =>
      have hsorted := h.sorted
      rw [hold] at hsorted
      have hrest : Sorted rest := (List.pairwise_cons.mp hsorted).2
      refine ⟨hcount.trans h.count, fun _ => ?_, ?_, fun n => ?_, hsnodup, hrnodup⟩
      · rw [hmessages, insertMessage_length, hmax, ← hfull, hold, List.length_cons]
      · rw [hmessages]
        exact insertMessage_sorted hrest
      · have horder := h.order n
        rw [hold] at horder
        have htook := order_took m horder
        rw [hmessages, ofPriority_insertMessage hrest, List.map_append, List.map_append,
          ofPriority_append n (k.accepted.map Prod.snd), ← htook, ← List.append_assoc]
        rfl

/-- A process stops waiting. -/
theorem Ok.cancels (h : Ok k) (p : ℕ) : Ok (k.cancel p) := by
  unfold cancel
  split
  · rename_i hmem
    have hpos : 0 < k.queue.receivers := by
      rw [h.count]
      exact List.length_pos_of_mem hmem
    split
    · rename_i queue hq
      obtain ⟨hmax, hcount, hmessages⟩ := Mqueue.unblock_spec hq
      refine ⟨?_, fun hs => ?_, by rw [hmessages]; exact h.sorted,
        by rw [hmessages]; exact h.order, h.senders_nodup, ?_⟩
      · have hlen := h.count
        have herase := List.length_erase_of_mem hmem
        simp only
        omega
      · have hfull := h.full hs
        rw [hmax, hmessages]
        exact hfull
      · exact h.receivers_nodup.sublist (List.erase_sublist.append_left _)
    · exact h
  · refine ⟨h.count, fun hs => h.full fun hnil => hs (by rw [hnil]; rfl), h.sorted, h.order, ?_,
      h.receivers_nodup⟩
    exact h.senders_nodup.sublist ((List.filter_sublist.map _).append_left _)

/-! ### Calls that can be made -/

theorem Ok.can_send (h : Ok k) (p : ℕ) (m : Message) : ∃ r, k.send p m 0 = some r := by
  unfold send
  split
  · split
    · exact ⟨_, rfl⟩
    · exact ⟨_, rfl⟩
  · rename_i hsome
    obtain ⟨r, rs, hrs⟩ := List.exists_cons_of_ne_nil hsome
    have hpos : 0 < k.queue.receivers := by
      rw [h.count]
      exact List.length_pos_of_ne_nil hsome
    rw [hrs, List.getElem?_cons_zero, Option.bind_some, Mqueue.send, dif_pos hpos]
    exact ⟨_, rfl⟩

theorem Ok.can_receive (h : Ok k) (p : ℕ) : ∃ r, k.receive p 0 = some r := by
  unfold receive
  split
  · rename_i hempty
    rw [Mqueue.block, dif_pos hempty]
    exact ⟨_, rfl⟩
  · rename_i hne
    split
    · obtain ⟨r, hr⟩ := Mqueue.exists_receive_none hne
      exact ⟨_, by rw [hr, Option.map_some]⟩
    · rename_i hsome
      obtain ⟨s, ss, hss⟩ := List.exists_cons_of_ne_nil hsome
      obtain ⟨r, hr⟩ := Mqueue.exists_receive_some s.2 hne (h.full hsome)
      exact ⟨_, by rw [hss, List.getElem?_cons_zero, Option.bind_some, hr, Option.map_some]⟩

/-! ### What the other processes see -/

/-- A queue after a call of the process `p`, as the other processes see it. -/
structure Grows (p : ℕ) (k k' : WaitQueue) : Prop where
  taken : ∀ t ∈ k.taken, t ∈ k'.taken
  waiting : ∀ q, q ≠ p → q ∈ k.receiverIds → q ∈ k'.receiverIds

theorem Sends.grows {res : Result Unit} (h : Sends k p m res k') : Grows p k k' := by
  refine ⟨?_, fun q _ hq => h.ids.2.mem_iff.mpr hq⟩
  cases h with
  | handed r pick queue hr hmax hcount hold hempty =>
      exact fun t ht => List.mem_append_left _ ht
  | entered queue hnone hmax hcount hlt hmessages => exact fun t ht => ht
  | blocked hfull => exact fun t ht => ht

theorem Receives.grows {res : Result Message} (h : Receives k p res k') : Grows p k k' := by
  refine ⟨?_, fun q _ hq => h.ids.2.mem_iff.mpr (List.mem_append_left _ hq)⟩
  cases h with
  | blocked queue hmax hcount hold hempty => exact fun t ht => ht
  | took m queue hnone hmax hcount hmessages => exact fun t ht => List.mem_append_left _ ht
  | refilled m pick s queue rest hs hmax hcount hfull hold hmessages =>
      exact fun t ht => List.mem_append_left _ ht

theorem cancel_grows (k : WaitQueue) (p : ℕ) : Grows p k (k.cancel p) := by
  unfold cancel
  split
  · split
    · refine ⟨fun t ht => ht, fun q hq hmem => ?_⟩
      rcases List.mem_append.mp hmem with htaken | hwaits
      · exact List.mem_append_left _ htaken
      · exact List.mem_append_right _ ((List.mem_erase_of_ne hq).mpr hwaits)
    · exact ⟨fun t ht => ht, fun q _ hq => hq⟩
  · exact ⟨fun t ht => ht, fun q _ hq => hq⟩

/-- The messages that have been sent, also those that still wait for a place. -/
theorem Sends.mem_sent {res : Result Unit} (h : Sends k p m res k') {s : ℕ × Message}
    (hs : s ∈ k'.accepted ++ k'.senders) : s = (p, m) ∨ s ∈ k.accepted ++ k.senders := by
  cases h with
  | handed r pick queue hr hmax hcount hold hempty =>
      simp only [List.mem_append, List.mem_singleton] at hs ⊢
      rcases hs with (hs | hs) | hs
      · exact Or.inr (Or.inl hs)
      · exact Or.inl hs
      · exact Or.inr (Or.inr hs)
  | entered queue hnone hmax hcount hlt hmessages =>
      simp only [List.mem_append, List.mem_singleton] at hs ⊢
      rcases hs with (hs | hs) | hs
      · exact Or.inr (Or.inl hs)
      · exact Or.inl hs
      · exact Or.inr (Or.inr hs)
  | blocked hfull =>
      simp only [List.mem_append, List.mem_singleton] at hs ⊢
      rcases hs with hs | hs | hs
      · exact Or.inr (Or.inl hs)
      · exact Or.inr (Or.inr hs)
      · exact Or.inl hs

theorem Receives.mem_sent {res : Result Message} (h : Receives k p res k') {s : ℕ × Message}
    (hs : s ∈ k'.accepted ++ k'.senders) : s ∈ k.accepted ++ k.senders := by
  cases h with
  | blocked queue hmax hcount hold hempty => exact hs
  | took m queue hnone hmax hcount hmessages => exact hs
  | refilled m pick t queue rest ht hmax hcount hfull hold hmessages =>
      simp only [List.mem_append, List.mem_singleton] at hs ⊢
      rcases hs with (hs | rfl) | hs
      · exact Or.inl hs
      · exact Or.inr (List.mem_of_getElem? ht)
      · exact Or.inr (List.mem_of_mem_eraseIdx hs)

theorem mem_sent_of_cancel {s : ℕ × Message}
    (hs : s ∈ (k.cancel p).accepted ++ (k.cancel p).senders) : s ∈ k.accepted ++ k.senders := by
  unfold cancel at hs
  split at hs
  · split at hs
    · exact hs
    · exact hs
  · rcases List.mem_append.mp hs with hs | hs
    · exact List.mem_append_left _ hs
    · exact List.mem_append_right _ (List.mem_of_mem_filter hs)

theorem mem_ids_of_cancel {q : ℕ}
    (hq : q ∈ (k.cancel p).senderIds ++ (k.cancel p).receiverIds) :
    q ∈ k.senderIds ++ k.receiverIds := by
  have hsub : ((k.cancel p).senderIds ++ (k.cancel p).receiverIds).Sublist
      (k.senderIds ++ k.receiverIds) := by
    unfold cancel
    split
    · split
      · exact (List.erase_sublist.append_left _).append_left _
      · exact .refl _
    · exact ((List.filter_sublist.map _).append_left _).append_right _
  exact hsub.subset hq

/-- At most one message has gone out, and none that stays behind has a higher priority. -/
def Took (k k' : WaitQueue) : Prop :=
  k'.taken = k.taken ∨
    ∃ q m, k'.taken = k.taken ++ [(q, m)] ∧ ∀ m' ∈ k.queue.messages, m'.priority ≤ m.priority

theorem Sends.took {res : Result Unit} (h : Sends k p m res k') : Took k k' := by
  cases h with
  | handed r pick queue hr hmax hcount hold hempty =>
      refine Or.inr ⟨r, m, rfl, fun m' hm' => ?_⟩
      rw [hold] at hm'
      cases hm'
  | entered queue hnone hmax hcount hlt hmessages => exact Or.inl rfl
  | blocked hfull => exact Or.inl rfl

theorem Sorted.head_le {ms : List Message} (h : Sorted (m :: ms)) :
    ∀ m' ∈ m :: ms, m'.priority ≤ m.priority := by
  intro m' hm'
  rcases List.mem_cons.mp hm' with rfl | hm'
  · exact le_rfl
  · exact (List.pairwise_cons.mp h).1 m' hm'

theorem Ok.took {res : Result Message} (h : Ok k) (hr : Receives k p res k') : Took k k' := by
  have hsorted := h.sorted
  cases hr with
  | blocked queue hmax hcount hold hempty => exact Or.inl rfl
  | took m queue hnone hmax hcount hmessages =>
      rw [hmessages] at hsorted
      refine Or.inr ⟨p, m, rfl, ?_⟩
      rw [hmessages]
      exact hsorted.head_le
  | refilled m pick s queue rest hs hmax hcount hfull hold hmessages =>
      rw [hold] at hsorted
      refine Or.inr ⟨p, m, rfl, ?_⟩
      rw [hold]
      exact hsorted.head_le

theorem cancel_took (k : WaitQueue) (p : ℕ) : Took k (k.cancel p) := by
  unfold cancel
  split
  · split
    · exact Or.inl rfl
    · exact Or.inl rfl
  · exact Or.inl rfl

theorem Receives.result {res : Result Message} (h : Receives k p res k') :
    (∀ m, res = .done m → (p, m) ∈ k'.taken) ∧ p ∈ k'.receiverIds := by
  have hp : p ∈ k'.receiverIds := h.ids.2.mem_iff.mpr (List.mem_append_right _ (by simp))
  cases h with
  | blocked queue hmax hcount hold hempty => exact ⟨nofun, hp⟩
  | took m queue hnone hmax hcount hmessages =>
      refine ⟨fun n hn => ?_, hp⟩
      obtain rfl := Result.done.inj hn
      exact List.mem_append_right _ (by simp)
  | refilled m pick s queue rest hs hmax hcount hfull hold hmessages =>
      refine ⟨fun n hn => ?_, hp⟩
      obtain rfl := Result.done.inj hn
      exact List.mem_append_right _ (by simp)

end WaitQueue

end Tlpi
