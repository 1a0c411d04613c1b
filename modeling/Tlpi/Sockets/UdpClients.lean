import Tlpi.Lib.Transition
import Tlpi.Sockets.Datagram

set_option autoImplicit false

/-! # Clients of UDP services (sockets/iterative_udp_echo_*.c, sockets/i6d_ucase_*.c)

Both pairs of programs use UDP, so the network between them may lose datagrams, make more of them
and let them overtake each other. The datagrams under way are kept in two lists; any one of them may
be the next to arrive. A client is known by a number, which stands for its address.

A client takes the next datagram that arrives for the answer to the message it has just sent. That
is right as long as no datagram of this client has been duplicated.
-/

namespace Tlpi.UdpClients

open Datagram

/-- `duplicated` says for which clients the network has duplicated a request or a reply; it
influences no step. -/
structure State where
  server : Server ℕ
  requests : List (ℕ × List UInt8)
  replies : List (ℕ × List UInt8)
  client : ℕ → Client
  duplicated : ℕ → Bool

/-- A number `k` says which of the datagrams under way it is about, `none` that the call fails. -/
inductive Act where
  | serverBegin (ok : Bool)
  | serverRecvfrom (k : Option ℕ)
  | serverSendto (ok : Bool)
  | start (i : ℕ) (ok : Bool)
  | send (i : ℕ) (ok : Bool)
  | receive (i : ℕ) (k : Option ℕ)
  | done (i : ℕ)
  | kill (i : ℕ)
  | loseRequest (k : ℕ)
  | loseReply (k : ℕ)
  | duplicateRequest (k : ℕ)
  | duplicateReply (k : ℕ)
deriving DecidableEq, Repr

def State.setClient (s : State) (i : ℕ) (c : Client) : State :=
  { s with client := Function.update s.client i c }

variable (svc : Service)

def State.serverRecvfrom (s : State) : Option ℕ → Option State
  | none => (s.server.receive svc none).map fun srv => { s with server := srv }
  | some k =>
      match s.requests[k]? with
      | none => none
      | some d =>
          (s.server.receive svc (some d)).map fun srv =>
            { s with server := srv, requests := s.requests.eraseIdx k }

def State.serverSendto (s : State) (ok : Bool) : Option State :=
  match s.server.reply with
  | none => none
  | some d =>
      some { s with
        server := s.server.replied svc ok
        replies := if ok then s.replies ++ [d] else s.replies }

def State.send (s : State) (i : ℕ) (ok : Bool) : Option State :=
  match (s.client i).message with
  | none => none
  | some arg =>
      some { s.setClient i ((s.client i).sent svc ok) with
        requests := if ok then s.requests ++ [(i, arg.bytes)] else s.requests }

def State.receive (s : State) (i : ℕ) : Option ℕ → Option State
  | none =>
      match (s.client i).pc with
      | .recvfrom _ => some (s.setClient i (s.client i).exit)
      | _ => none
  | some k =>
      match s.replies[k]? with
      | none => none
      | some (j, bytes) =>
          if j = i then
            ((s.client i).receive svc bytes).map fun c =>
              { s.setClient i c with replies := s.replies.eraseIdx k }
          else none

def State.next (s : State) : Act → Option State
  | .serverBegin ok => (s.server.begin ok).map fun srv => { s with server := srv }
  | .serverRecvfrom k => s.serverRecvfrom svc k
  | .serverSendto ok => s.serverSendto svc ok
  | .start i ok =>
      -- the arguments, the socket and the address of the server
      if (s.client i).pc = .socket then
        some (s.setClient i
          (if ok then { s.client i with pc := .sendto 0 } else (s.client i).exit))
      else none
  | .send i ok => s.send svc i ok
  | .receive i k => s.receive svc i k
  | .done i =>
      match (s.client i).pc with
      | .sendto j =>
          if j < (s.client i).argv.length then none else some (s.setClient i (s.client i).exit)
      | _ => none
  | .kill i => some (s.setClient i (s.client i).exit)
  | .loseRequest k => some { s with requests := s.requests.eraseIdx k }
  | .loseReply k => some { s with replies := s.replies.eraseIdx k }
  | .duplicateRequest k =>
      (s.requests[k]?).map fun d =>
        { s with
          requests := s.requests ++ [d]
          duplicated := Function.update s.duplicated d.1 true }
  | .duplicateReply k =>
      (s.replies[k]?).map fun d =>
        { s with
          replies := s.replies ++ [d]
          duplicated := Function.update s.duplicated d.1 true }

/-- Nothing is under way yet; each client has its own messages. -/
structure Init (s : State) : Prop where
  server : s.server.pc = .start
  requests : s.requests = []
  replies : s.replies = []
  client : ∀ i, (s.client i).pc = .socket ∧ (s.client i).printed = []

def system : TransSys State Act where
  Init := Init
  step := State.next svc

/-! ## What a step means for one client -/

/-- What happens to a client, to what is under way for it, and to the record of duplications. -/
inductive Effect (c : Client) (ds : List (List UInt8)) (dup : Bool) :
    Client → List (List UInt8) → Bool → Prop where
  | keeps (ds' : List (List UInt8)) (hds : ds'.Perm ds) : Effect c ds dup c ds' dup
  | loses (ds' : List (List UInt8)) (hds : ds'.Sublist ds) : Effect c ds dup c ds' dup
  | duplicates (ds' : List (List UInt8)) (hds : ds' ⊆ ds) : Effect c ds dup c ds' true
  | exits : Effect c ds dup c.exit ds dup
  | starts (hpc : c.pc = .socket) : Effect c ds dup { c with pc := .sendto 0 } ds dup
  | sends (arg : Arg) (harg : c.message = some arg) :
      Effect c ds dup (c.sent svc true) (ds ++ [svc.answer arg.bytes]) dup
  | sendFails (arg : Arg) (harg : c.message = some arg) :
      Effect c ds dup (c.sent svc false) ds dup
  | receives (l₁ l₂ : List (List UInt8)) (b : List UInt8) (d : Client) (hds : ds = l₁ ++ b :: l₂)
      (hd : c.receive svc b = some d) : Effect c ds dup d (l₁ ++ l₂) dup

variable {svc} {c d : Client} {ds ds' : List (List UInt8)} {dup dup' : Bool}

theorem Effect.orderly (he : Effect svc c ds dup d ds' dup')
    (h : dup = false → c.Orderly svc ds) : dup' = false → d.Orderly svc ds' := by
  intro hdup
  cases he with
  | keeps _ hds => exact (h hdup).subperm hds.subperm
  | loses _ hds => exact (h hdup).subperm hds.subperm
  | duplicates _ hds => cases hdup
  | exits => exact (h hdup).exit ds
  | starts hpc => exact ((h hdup).starts (Or.inl hpc)).2
  | sends arg harg =>
      obtain ⟨rfl, hsent⟩ := (h hdup).send harg
      exact hsent
  | sendFails arg harg => exact (h hdup).send_fails harg
  | receives l₁ l₂ b d hds hd =>
      subst hds
      exact (h hdup).receive l₁ l₂ hd

/-- The number of messages sent so far, with the one that is being answered. -/
def sentSoFar : ClientPc → ℕ
  | .sendto j => j
  | .recvfrom j => j + 1
  | _ => 0

/-- What is known when datagrams may have been duplicated: all that is under way for a client
answers messages it has sent, and so does all that it has printed. -/
structure Vague (svc : Service) (c : Client) (ds : List (List UInt8)) : Prop where
  counts : c.Counts
  shows : c.Shows svc (· ≤ ·)
  known : c.pc ≠ .exited → ∀ b ∈ ds, ∃ (i : ℕ) (arg : Arg),
    i < sentSoFar c.pc ∧ c.argv[i]? = some arg ∧ b = svc.answer arg.bytes

theorem Vague.subset (h : Vague svc c ds) (hsub : ds' ⊆ ds) : Vague svc c ds' :=
  ⟨h.counts, h.shows, fun hlive b hb => h.known hlive b (hsub hb)⟩

theorem Vague.exit (h : Vague svc c ds) : Vague svc c.exit ds :=
  ⟨trivial, h.shows, fun hlive => absurd rfl hlive⟩

/-- A client at `sendto` goes on to wait for an answer. -/
theorem Vague.waits {j : ℕ} (h : Vague svc c ds) (hpc : c.pc = .sendto j) :
    Vague svc { c with pc := .recvfrom j } ds := by
  have hcounts := h.counts.length_printed (Or.inl hpc)
  refine ⟨hcounts, h.shows, fun _ b hb => ?_⟩
  obtain ⟨i, arg, hi, harg, hb⟩ := h.known (by simp [hpc]) b hb
  rw [hpc] at hi
  exact ⟨i, arg, Nat.lt_succ_of_lt hi, harg, hb⟩

theorem Effect.vague (he : Effect svc c ds dup d ds' dup') (h : Vague svc c ds) :
    Vague svc d ds' := by
  cases he with
  | keeps _ hds => exact h.subset hds.subset
  | loses _ hds => exact h.subset hds.subset
  | duplicates _ hds => exact h.subset hds
  | exits => exact h.exit
  | starts hpc =>
      have hprinted : c.printed = [] := h.counts.nothing_printed (Or.inl hpc)
      refine ⟨by simp [Client.Counts, hprinted], h.shows, fun _ b hb => ?_⟩
      obtain ⟨i, arg, hi, -⟩ := h.known (by simp [hpc]) b hb
      rw [hpc] at hi
      exact absurd hi (Nat.not_lt_zero i)
  | sends arg harg =>
      obtain ⟨j, hpc, hj⟩ := Client.message_some harg
      have hsent : c.sent svc true = { c with pc := .recvfrom j } := by simp [Client.sent, hpc]
      rw [hsent]
      have hwaits := h.waits hpc
      refine ⟨hwaits.counts, hwaits.shows, fun hlive b hb => ?_⟩
      rcases List.mem_append.mp hb with hold | hnew
      · exact hwaits.known hlive b hold
      · exact ⟨j, arg, Nat.lt_succ_self j, hj, List.mem_singleton.mp hnew⟩
  | sendFails arg harg =>
      obtain ⟨j, hpc, hj⟩ := Client.message_some harg
      cases hstays : svc.clientStays with
      | true =>
          have hsent : c.sent svc false = { c with pc := .recvfrom j } := by
            simp [Client.sent, hpc, hstays]
          rw [hsent]
          exact h.waits hpc
      | false =>
          have hsent : c.sent svc false = c.exit := by simp [Client.sent, hpc, hstays]
          rw [hsent]
          exact h.exit
  | receives l₁ l₂ b d hds hd =>
      subst hds
      obtain ⟨j, hpc⟩ := Client.receive_pc hd
      obtain ⟨i, arg, hi, harg, rfl⟩ := h.known (by simp [hpc]) b (by simp)
      rw [hpc] at hi
      obtain ⟨hshows, hcounts⟩ := h.shows.receive h.counts hpc (Nat.le_of_lt_succ hi) harg hd
      obtain ⟨hargv, hpc', -⟩ := Client.receive_answer hpc hd
      refine ⟨hcounts, hshows, fun _ b' hb' => ?_⟩
      have hmem : b' ∈ l₁ ++ svc.answer arg.bytes :: l₂ := by
        rcases List.mem_append.mp hb' with hleft | hright
        · exact List.mem_append_left _ hleft
        · exact List.mem_append_right _ (List.mem_cons_of_mem _ hright)
      obtain ⟨i', arg', hi', harg', hb'⟩ := h.known (by simp [hpc]) b' hmem
      rw [hpc] at hi'
      rw [hargv, hpc']
      exact ⟨i', arg', hi', harg', hb'⟩

/-! ## What a step does -/

/-- What is under way for a client. -/
def State.onTheWay (svc : Service) (s : State) (i : ℕ) : List (List UInt8) :=
  Datagram.onTheWay svc i (addressed i s.replies) s.server s.requests

variable {s t : State}

/-- The step is one for this client. -/
def State.Step (svc : Service) (s t : State) (i : ℕ) : Prop :=
  Effect svc (s.client i) (s.onTheWay svc i) (s.duplicated i) (t.client i) (t.onTheWay svc i)
    (t.duplicated i)

/-- Nothing changes for this client. -/
theorem State.Step.same {i : ℕ} (hclient : t.client i = s.client i)
    (hway : t.onTheWay svc i = s.onTheWay svc i) (hdup : t.duplicated i = s.duplicated i) :
    State.Step svc s t i := by
  unfold State.Step
  rw [hclient, hway, hdup]
  exact .keeps _ (List.Perm.refl _)

/-- A client moves without sending or receiving. -/
theorem State.Step.alone {i : ℕ} {c : Client}
    (hc : Effect svc (s.client i) (s.onTheWay svc i) (s.duplicated i) c (s.onTheWay svc i)
      (s.duplicated i)) (q : ℕ) : State.Step svc s (s.setClient i c) q := by
  by_cases hq : q = i
  · subst hq
    unfold State.Step
    have hclient : (s.setClient q c).client q = c := Function.update_self ..
    rw [hclient]
    exact hc
  · exact .same (Function.update_of_ne hq ..) rfl rfl

theorem State.Step.serverRecvfrom {k : Option ℕ} (h : s.serverRecvfrom svc k = some t) (q : ℕ) :
    State.Step svc s t q := by
  cases k with
  | none =>
      obtain ⟨srv, hsrv, rfl⟩ := Option.map_eq_some_iff.mp h
      exact .same rfl (onTheWay_receive_fails hsrv _ _ _) rfl
  | some k =>
      simp only [State.serverRecvfrom] at h
      split at h
      · cases h
      · rename_i d hd
        obtain ⟨srv, hsrv, rfl⟩ := Option.map_eq_some_iff.mp h
        exact .keeps _ (onTheWay_receive hsrv hd)

theorem State.Step.serverSendto {ok : Bool} (h : s.serverSendto svc ok = some t) (q : ℕ) :
    State.Step svc s t q := by
  unfold State.serverSendto at h
  split at h
  next => cases h
  next d hd =>
    obtain rfl := Option.some.inj h
    cases ok with
    | true =>
        refine .same rfl ?_ rfl
        have hsame := onTheWay_reply svc hd true q (addressed q s.replies) s.requests
        rwa [← addressed_append] at hsame
    | false => exact .loses _ (onTheWay_reply_fails s.server false)

theorem State.Step.send {i : ℕ} {ok : Bool} (h : s.send svc i ok = some t) (q : ℕ) :
    State.Step svc s t q := by
  unfold State.send at h
  split at h
  next => cases h
  next arg harg =>
    obtain rfl := Option.some.inj h
    cases ok with
    | true =>
        by_cases hq : q = i
        · subst hq
          have hclient : (s.setClient q ((s.client q).sent svc true)).client q
              = (s.client q).sent svc true := Function.update_self ..
          have hway : State.onTheWay svc { s.setClient q ((s.client q).sent svc true) with
              requests := s.requests ++ [(q, arg.bytes)] } q
              = s.onTheWay svc q ++ [svc.answer arg.bytes] := by
            simp [State.onTheWay, Datagram.onTheWay, State.setClient]
          unfold State.Step
          simp only [if_true]
          rw [hclient, hway]
          exact .sends arg harg
        · refine .same (Function.update_of_ne hq ..) ?_ rfl
          simp [State.onTheWay, Datagram.onTheWay, State.setClient, addressed_of_ne (Ne.symm hq)]
    | false => exact .alone (.sendFails arg harg) q

/-- A reply that arrives is taken out of what is under way for its client. -/
theorem onTheWay_arrives {k i : ℕ} {bytes : List UInt8} (h : s.replies[k]? = some (i, bytes))
    (c : Client) : ∃ l₁ l₂, s.onTheWay svc i = l₁ ++ bytes :: l₂ ∧
      State.onTheWay svc { s.setClient i c with replies := s.replies.eraseIdx k } i = l₁ ++ l₂ := by
  obtain ⟨hall, hrest⟩ := eq_around h
  refine ⟨addressed i (s.replies.take k), addressed i (s.replies.drop (k + 1))
    ++ addressed i s.server.reply.toList ++ (addressed i s.requests).map svc.answer, ?_, ?_⟩
  · rw [State.onTheWay, Datagram.onTheWay]
    conv_lhs => rw [hall]
    rw [addressed_append, addressed_cons]
    simp
  · rw [State.onTheWay, Datagram.onTheWay]
    simp only [State.setClient]
    rw [hrest, addressed_append]
    simp

/-- For the others it makes no difference. -/
theorem addressed_eraseIdx_of_ne {l : List (ℕ × List UInt8)} {k i q : ℕ} {bytes : List UInt8}
    (h : l[k]? = some (i, bytes)) (hq : q ≠ i) : addressed q (l.eraseIdx k) = addressed q l := by
  obtain ⟨hall, hrest⟩ := eq_around h
  rw [hrest]
  conv_rhs => rw [hall]
  rw [addressed_append, addressed_append, addressed_cons, addressed_of_ne (Ne.symm hq),
    List.nil_append]

theorem State.Step.receive {i : ℕ} {k : Option ℕ} (h : s.receive svc i k = some t) (q : ℕ) :
    State.Step svc s t q := by
  cases k with
  | none =>
      simp only [State.receive] at h
      split at h
      · obtain rfl := Option.some.inj h
        exact .alone .exits q
      · cases h
  | some k =>
      simp only [State.receive] at h
      split at h
      · cases h
      · rename_i j bytes hk
        split at h
        · rename_i hj
          subst hj
          obtain ⟨c, hc, rfl⟩ := Option.map_eq_some_iff.mp h
          by_cases hq : q = j
          · subst hq
            obtain ⟨l₁, l₂, hbefore, hafter⟩ := onTheWay_arrives hk c
            have hclient : (s.setClient q c).client q = c := Function.update_self ..
            unfold State.Step
            rw [hclient, hafter]
            exact .receives l₁ l₂ bytes c hbefore hc
          · refine .same (Function.update_of_ne hq ..) ?_ rfl
            simp only [State.onTheWay, State.setClient, addressed_eraseIdx_of_ne hk hq]
        · cases h

/-- Copies of datagrams that are there are the same to look at. -/
theorem addressed_duplicate {l : List (ℕ × List UInt8)} {k : ℕ} {d : ℕ × List UInt8}
    (h : l[k]? = some d) (i : ℕ) : addressed i (l ++ [d]) ⊆ addressed i l := by
  intro b hb
  rw [addressed_append] at hb
  rcases List.mem_append.mp hb with hold | hnew
  · exact hold
  · obtain ⟨x, hx, hxb⟩ := List.mem_filterMap.mp hnew
    obtain rfl := List.mem_singleton.mp hx
    exact List.mem_filterMap.mpr ⟨x, List.mem_of_getElem? h, hxb⟩

/-- The network has duplicated a datagram `d`: that is a duplication for its client, and nothing for
the others. -/
theorem State.Step.duplicate {d : ℕ × List UInt8} (l₁ l₂ : List (ℕ × List UInt8))
    (hown : State.onTheWay svc { s with requests := l₁, replies := l₂ } d.1 ⊆ s.onTheWay svc d.1)
    (hothers : ∀ q ≠ d.1, State.onTheWay svc { s with requests := l₁, replies := l₂ } q
      = s.onTheWay svc q) (q : ℕ) :
    State.Step svc s { s with
      requests := l₁
      replies := l₂
      duplicated := Function.update s.duplicated d.1 true } q := by
  by_cases hq : q = d.1
  · subst hq
    have hdup : Function.update s.duplicated d.1 true d.1 = true := Function.update_self ..
    unfold State.Step
    dsimp only
    rw [hdup]
    exact .duplicates _ hown
  · exact .same rfl (hothers q hq) (Function.update_of_ne hq ..)

theorem addressed_of_duplicate_ne {l : List (ℕ × List UInt8)} {d : ℕ × List UInt8} {q : ℕ}
    (hq : q ≠ d.1) : addressed q (l ++ [d]) = addressed q l := by
  obtain ⟨i, msg⟩ := d
  rw [addressed_append, addressed_of_ne (Ne.symm hq), List.append_nil]

/-- Every step has an effect on every client. -/
theorem next_step {a : Act} (h : s.next svc a = some t) (q : ℕ) : State.Step svc s t q := by
  cases a with
  | serverBegin ok =>
      obtain ⟨srv, hsrv, rfl⟩ := Option.map_eq_some_iff.mp h
      exact .same rfl (onTheWay_begin hsrv) rfl
  | serverRecvfrom k => exact .serverRecvfrom h q
  | serverSendto ok => exact .serverSendto h q
  | start i ok =>
      simp only [State.next] at h
      split at h
      · rename_i hpc
        obtain rfl := Option.some.inj h
        cases ok with
        | true => exact .alone (.starts hpc) q
        | false => exact .alone .exits q
      · cases h
  | send i ok => exact .send h q
  | receive i k => exact .receive h q
  | done i =>
      simp only [State.next] at h
      split at h
      · split at h
        · cases h
        · obtain rfl := Option.some.inj h
          exact .alone .exits q
      · cases h
  | kill i =>
      obtain rfl := Option.some.inj h
      exact .alone .exits q
  | loseRequest k =>
      obtain rfl := Option.some.inj h
      refine .loses _ (List.Sublist.append_left ?_ _)
      exact ((List.eraseIdx_sublist s.requests k).filterMap _).map _
  | loseReply k =>
      obtain rfl := Option.some.inj h
      refine .loses _ (List.Sublist.append_right (List.Sublist.append_right ?_ _) _)
      exact (List.eraseIdx_sublist s.replies k).filterMap _
  | duplicateRequest k =>
      obtain ⟨d, hd, rfl⟩ := Option.map_eq_some_iff.mp h
      refine .duplicate (s.requests ++ [d]) s.replies ?_ (fun q hq => ?_) q
      · refine List.append_subset.mpr ⟨List.subset_append_left _ _, ?_⟩
        exact List.subset_append_of_subset_right _ (List.map_subset _ (addressed_duplicate hd d.1))
      · simp only [State.onTheWay, onTheWay, addressed_of_duplicate_ne hq]
  | duplicateReply k =>
      obtain ⟨d, hd, rfl⟩ := Option.map_eq_some_iff.mp h
      refine .duplicate s.requests (s.replies ++ [d]) ?_ (fun q hq => ?_) q
      · refine List.append_subset.mpr ⟨?_, List.subset_append_right _ _⟩
        refine List.subset_append_of_subset_left _ (List.append_subset.mpr ⟨?_, ?_⟩)
        · exact List.subset_append_of_subset_left _ (addressed_duplicate hd d.1)
        · exact List.subset_append_right _ _
      · simp only [State.onTheWay, addressed_of_duplicate_ne hq]

/-! ## Replies and requests -/

structure Inv (svc : Service) (s : State) : Prop where
  orderly : ∀ i, s.duplicated i = false → (s.client i).Orderly svc (s.onTheWay svc i)
  vague : ∀ i, Vague svc (s.client i) (s.onTheWay svc i)

theorem inv_init (h : Init s) : Inv svc s := by
  have hnil : ∀ i, s.onTheWay svc i = [] := by
    simp [State.onTheWay, onTheWay, h.replies, h.requests, Server.reply, h.server]
  have hnew : ∀ i, (s.client i).Orderly svc [] := fun i =>
    Client.orderly_new (h.client i).1 (h.client i).2
  refine ⟨fun i _ => ?_, fun i => ?_⟩
  · rw [hnil]
    exact hnew i
  · rw [hnil]
    exact ⟨(hnew i).counts, by simp [Client.Shows, (h.client i).2], by simp⟩

theorem Inv.step {a : Act} (h : Inv svc s) (hnext : s.next svc a = some t) : Inv svc t :=
  ⟨fun i => (next_step hnext i).orderly (h.orderly i),
    fun i => (next_step hnext i).vague (h.vague i)⟩

end Tlpi.UdpClients
