import Tlpi.Lib.Decimal
import Tlpi.Lib.Transition
import Tlpi.Sockets.Datagram

set_option autoImplicit false

/-! # Uppercase over UNIX domain datagrams (sockets/datagram_unix_sock_ucase_server.c and _client.c)

A client binds its socket to a name made from its pid, so that the server can answer. The kernel
keeps the datagrams for each socket in order; it loses none while the socket is open.

The first part is about clients that run the client program. What is on its way for one of them is
in three places: its own socket, the hands of the server, and the server's socket. In the second
part the clients are arbitrary processes.
-/

namespace Tlpi.UnixUcase

open Decimal Datagram

/-- `sizeof(claddr.sun_path)`. -/
def sunPathSize : ℕ := 108

abbrev Path := List UInt8

def claddrText (pid : BitVec 32) : Path := str "/tmp/ud_ucase_cl." ++ intNumeral pid.toInt

/-- `snprintf(claddr.sun_path, sizeof(claddr.sun_path), "/tmp/ud_ucase_cl.%ld", (long) getpid())`.
-/
def claddr (pid : BitVec 32) : Path := snprintf sunPathSize (claddrText pid)

/-- The name is never cut: at most 17 + 11 characters of 107. -/
theorem claddr_eq (pid : BitVec 32) : claddr pid = claddrText pid := by
  have hb := toInt_bounds pid
  have hlen := @intNumeral_length_le pid.toInt 10 (by decide) (by norm_num at hb ⊢; omega)
  have hpre : (str "/tmp/ud_ucase_cl.").length = 17 := by decide
  have hsize : sunPathSize = 108 := rfl
  refine snprintf_of_lt ?_
  rw [claddrText, List.length_append, hpre, hsize]
  omega

/-- Distinct pids have distinct names. -/
theorem claddr_injective : Function.Injective claddr := by
  intro p q h
  rw [claddr_eq, claddr_eq] at h
  exact BitVec.eq_of_toInt_eq (intNumeral_injective (List.append_cancel_left h))

/-! ## The server and its clients -/

/-- `queue` are the datagrams in the server's socket, `inbox` those in the sockets of the clients;
`bound` says which client a name leads to. -/
structure State where
  server : Server Path
  queue : List (Path × List UInt8)
  client : BitVec 32 → Client
  bound : Path → Option (BitVec 32)
  inbox : BitVec 32 → List (List UInt8)

inductive Act where
  | serverBegin (ok : Bool)
  | serverRecvfrom (ok : Bool)
  | serverSendto (ok : Bool)
  | socket (pid : BitVec 32) (ok : Bool)
  | bind (pid : BitVec 32) (ok : Bool)
  | sendto (pid : BitVec 32) (ok : Bool)
  | recvfrom (pid : BitVec 32) (ok : Bool)
  | done (pid : BitVec 32)
  | kill (pid : BitVec 32)
deriving DecidableEq, Repr

/-- The server's socket is open and has its name. -/
def State.serving (s : State) : Bool :=
  match s.server.pc with
  | .start => false
  | .exited => false
  | _ => true

def State.setClient (s : State) (pid : BitVec 32) (c : Client) : State :=
  { s with client := Function.update s.client pid c }

/-- A client ends. What is in its socket is lost; its name stays, but leads nowhere. -/
def State.exitClient (s : State) (pid : BitVec 32) : State :=
  { s.setClient pid (s.client pid).exit with inbox := Function.update s.inbox pid [] }

/-- The client whose socket has this name, if that is open. -/
def State.receiver (s : State) (p : Path) : Option (BitVec 32) :=
  match s.bound p with
  | some pid => if (s.client pid).pc = .exited then none else some pid
  | none => none

/-- `recvfrom` in the server. -/
def State.serverRecvfrom (s : State) (ok : Bool) : Option State :=
  if ok then
    match s.queue with
    | [] => none
    | d :: queue =>
        (s.server.receive datagramUnixSockUcase (some d)).map fun srv =>
          { s with server := srv, queue := queue }
  else
    (s.server.receive datagramUnixSockUcase none).map fun srv =>
      { s with server := srv, queue := [] }

/-- `sendto` in the server. It may fail also for another reason than that there is no receiver. -/
def State.serverSendto (s : State) (ok : Bool) : Option State :=
  match s.server.reply with
  | none => none
  | some (p, bytes) =>
      let srv := s.server.replied datagramUnixSockUcase ok
      if ok then
        match s.receiver p with
        | none => none
        | some pid =>
            some { s with
              server := srv
              inbox := Function.update s.inbox pid (s.inbox pid ++ [bytes]) }
      else some { s with server := srv, queue := [] }

/-- `sendto` in a client. -/
def State.sendto (s : State) (pid : BitVec 32) (ok : Bool) : Option State :=
  match (s.client pid).message with
  | none => none
  | some arg =>
      if ok then
        if s.serving then
          some { s.setClient pid ((s.client pid).sent datagramUnixSockUcase true) with
            queue := s.queue ++ [(claddr pid, arg.bytes)] }
        else none
      else some (s.exitClient pid)

/-- `argc < 2 || strcmp(argv[1], "--help") == 0`. -/
def Usage (argv : List Arg) : Prop := argv = [] ∨ argv.head?.map Arg.bytes = some (str "--help")

instance (argv : List Arg) : Decidable (Usage argv) := inferInstanceAs (Decidable (_ ∨ _))

def State.next (s : State) : Act → Option State
  | .serverBegin ok => (s.server.begin ok).map fun srv => { s with server := srv }
  | .serverRecvfrom ok => s.serverRecvfrom ok
  | .serverSendto ok => s.serverSendto ok
  | .socket pid ok =>
      if (s.client pid).pc = .socket then
        if ok = true ∧ ¬ Usage (s.client pid).argv then
          some (s.setClient pid { s.client pid with pc := .bind })
        else some (s.exitClient pid)
      else none
  | .bind pid ok =>
      if (s.client pid).pc = .bind then
        if ok then
          if s.bound (claddr pid) = none then
            some { s.setClient pid { s.client pid with pc := .sendto 0 } with
              bound := Function.update s.bound (claddr pid) (some pid) }
          else none
        else some (s.exitClient pid)
      else none
  | .sendto pid ok => s.sendto pid ok
  | .recvfrom pid ok =>
      if ok then
        match s.inbox pid with
        | [] => none
        | d :: inbox =>
            ((s.client pid).receive datagramUnixSockUcase d).map fun c =>
              { s.setClient pid c with inbox := Function.update s.inbox pid inbox }
      else
        match (s.client pid).pc with
        | .recvfrom _ => some (s.exitClient pid)
        | _ => none
  | .done pid =>
      match (s.client pid).pc with
      | .sendto j =>
          if j < (s.client pid).argv.length then none
          else
            -- `remove(claddr.sun_path)`
            some { s.exitClient pid with
              bound := Function.update s.bound (claddr pid) none }
      | _ => none
  | .kill pid => if (s.client pid).pc = .exited then none else some (s.exitClient pid)

/-- Every pid may be a client's; each has its own messages. -/
structure Init (s : State) : Prop where
  server : s.server.pc = .start
  queue : s.queue = []
  client : ∀ pid, (s.client pid).pc = .socket ∧ (s.client pid).printed = []
  bound : ∀ p, s.bound p = none
  inbox : ∀ pid, s.inbox pid = []

def system : TransSys State Act where
  Init := Init
  step := State.next

/-! ## What is on its way -/

/-- What is on its way for a client. -/
def State.onTheWay (s : State) (pid : BitVec 32) : List (List UInt8) :=
  Datagram.onTheWay datagramUnixSockUcase (claddr pid) (s.inbox pid) s.server s.queue

structure Inv (s : State) : Prop where
  orderly : ∀ pid, (s.client pid).Orderly datagramUnixSockUcase (s.onTheWay pid)
  bound : ∀ p pid, s.bound p = some pid → p = claddr pid

variable {s t : State}

theorem inv_init (h : Init s) : Inv s where
  orderly pid := by
    have hnil : s.onTheWay pid = [] := by
      simp [State.onTheWay, onTheWay, h.inbox, h.queue, Server.reply, h.server]
    rw [hnil]
    exact Client.orderly_new (h.client pid).1 (h.client pid).2
  bound p pid hp := by simp [h.bound] at hp

/-- One client changes; for the others the same is on its way. -/
theorem Inv.changes (h : Inv s) {pid : BitVec 32} {c : Client}
    (hclient : t.client = Function.update s.client pid c)
    (hown : c.Orderly datagramUnixSockUcase (t.onTheWay pid))
    (hothers : ∀ q ≠ pid, t.onTheWay q = s.onTheWay q)
    (hbound : ∀ p q, t.bound p = some q → p = claddr q) : Inv t := by
  refine ⟨fun q => ?_, hbound⟩
  rw [hclient]
  by_cases hq : q = pid
  · subst hq
    rw [Function.update_self]
    exact hown
  · rw [Function.update_of_ne hq, hothers q hq]
    exact h.orderly q

/-- A client takes its name, or gives it up. -/
theorem Inv.bound_update (h : Inv s) {pid : BitVec 32} {v : Option (BitVec 32)}
    (hv : ∀ q, v = some q → q = pid) {p : Path} {q : BitVec 32}
    (hp : Function.update s.bound (claddr pid) v p = some q) : p = claddr q := by
  by_cases heq : p = claddr pid
  · subst heq
    rw [Function.update_self] at hp
    rw [hv q hp]
  · rw [Function.update_of_ne heq] at hp
    exact h.bound p q hp

theorem Inv.exitClient (h : Inv s) (pid : BitVec 32) : Inv (s.exitClient pid) := by
  refine h.changes rfl ((h.orderly pid).exit _) (fun q hq => ?_) h.bound
  simp [State.onTheWay, State.exitClient, State.setClient, Function.update_of_ne hq]

/-- Only the server moves: for each client, the same is on its way in another place, or less. -/
theorem Inv.serves (h : Inv s) (hclient : t.client = s.client) (hbound : t.bound = s.bound)
    (hway : ∀ pid, (t.onTheWay pid).Subperm (s.onTheWay pid)) : Inv t := by
  refine ⟨fun pid => ?_, ?_⟩
  · rw [hclient]
    exact (h.orderly pid).subperm (hway pid)
  · rw [hbound]
    exact h.bound

theorem Inv.serverRecvfrom (h : Inv s) {ok : Bool} (hnext : s.serverRecvfrom ok = some t) :
    Inv t := by
  cases ok with
  | true =>
      simp only [State.serverRecvfrom, if_true] at hnext
      split at hnext
      · cases hnext
      · rename_i d queue hqueue
        obtain ⟨srv, hsrv, rfl⟩ := Option.map_eq_some_iff.mp hnext
        refine h.serves rfl rfl fun pid => ?_
        have hhead : (d :: queue)[0]? = some d := rfl
        rw [State.onTheWay, State.onTheWay, hqueue]
        exact (onTheWay_receive hsrv hhead).subperm
  | false =>
      simp only [State.serverRecvfrom, Bool.false_eq_true, if_false] at hnext
      obtain ⟨srv, hsrv, rfl⟩ := Option.map_eq_some_iff.mp hnext
      refine h.serves rfl rfl fun pid => ?_
      have hsame := onTheWay_receive_fails hsrv (claddr pid) (s.inbox pid) s.queue
      rw [State.onTheWay, State.onTheWay, ← hsame]
      exact (onTheWay_no_requests srv).subperm

/-- The name leads to the client it was made for. -/
theorem Inv.receiver (h : Inv s) {p : Path} {pid : BitVec 32} (hpid : s.receiver p = some pid) :
    p = claddr pid := by
  unfold State.receiver at hpid
  split at hpid
  next q hq =>
    split at hpid
    · cases hpid
    · exact (Option.some.inj hpid) ▸ h.bound p q hq
  next => cases hpid

theorem Inv.serverSendto (h : Inv s) {ok : Bool} (hnext : s.serverSendto ok = some t) : Inv t := by
  unfold State.serverSendto at hnext
  split at hnext
  next => cases hnext
  next p bytes hreply =>
    cases ok with
    | true =>
        simp only [if_true] at hnext
        split at hnext
        · cases hnext
        · rename_i pid hpid
          obtain rfl := Option.some.inj hnext
          obtain rfl := h.receiver hpid
          refine h.serves rfl rfl fun q => ?_
          have hsame := onTheWay_reply datagramUnixSockUcase hreply true (claddr q) (s.inbox q)
            s.queue
          rw [State.onTheWay, State.onTheWay, ← hsame]
          dsimp only
          by_cases hq : q = pid
          · subst hq
            rw [Function.update_self, addressed_self]
          · have hne : claddr pid ≠ claddr q := fun heq => hq (claddr_injective heq).symm
            rw [Function.update_of_ne hq, addressed_of_ne hne, List.append_nil]
    | false =>
        simp only [Bool.false_eq_true, if_false] at hnext
        obtain rfl := Option.some.inj hnext
        refine h.serves rfl rfl fun q => ?_
        exact ((onTheWay_no_requests _).trans (onTheWay_reply_fails s.server false)).subperm

theorem Inv.sendto (h : Inv s) {pid : BitVec 32} {ok : Bool} (hnext : s.sendto pid ok = some t) :
    Inv t := by
  unfold State.sendto at hnext
  split at hnext
  next => cases hnext
  next arg harg =>
    cases ok with
    | true =>
        simp only [if_true] at hnext
        split at hnext
        · obtain rfl := Option.some.inj hnext
          obtain ⟨hnone, hsent⟩ := (h.orderly pid).send harg
          refine h.changes rfl ?_ (fun q hq => ?_) h.bound
          · have hone : State.onTheWay { s.setClient pid ((s.client pid).sent datagramUnixSockUcase
                true) with queue := s.queue ++ [(claddr pid, arg.bytes)] } pid
                = s.onTheWay pid ++ [datagramUnixSockUcase.answer arg.bytes] := by
              simp [State.onTheWay, onTheWay, State.setClient]
            rw [hone, hnone]
            exact hsent
          · have hne : claddr pid ≠ claddr q := fun heq => hq (claddr_injective heq).symm
            simp [State.onTheWay, onTheWay, State.setClient, addressed_of_ne hne]
        · cases hnext
    | false =>
        obtain rfl := Option.some.inj hnext
        exact h.exitClient pid

theorem Inv.recvfrom (h : Inv s) {pid : BitVec 32} {d : List UInt8} {inbox : List (List UInt8)}
    (hinbox : s.inbox pid = d :: inbox) {c : Client}
    (hc : (s.client pid).receive datagramUnixSockUcase d = some c) :
    Inv { s.setClient pid c with inbox := Function.update s.inbox pid inbox } := by
  refine h.changes rfl ?_ (fun q hq => ?_) h.bound
  · have horderly := h.orderly pid
    rw [State.onTheWay, onTheWay, hinbox, List.append_assoc, List.cons_append] at horderly
    have hreceived := horderly.receive [] _ hc
    simpa [State.onTheWay, onTheWay, State.setClient] using hreceived
  · simp [State.onTheWay, State.setClient, Function.update_of_ne hq]

theorem Inv.step {a : Act} (h : Inv s) (hnext : s.next a = some t) : Inv t := by
  cases a with
  | serverBegin ok =>
      obtain ⟨srv, hsrv, rfl⟩ := Option.map_eq_some_iff.mp hnext
      refine h.serves rfl rfl fun pid => ?_
      rw [State.onTheWay, State.onTheWay, onTheWay_begin hsrv]
  | serverRecvfrom ok => exact h.serverRecvfrom hnext
  | serverSendto ok => exact h.serverSendto hnext
  | socket pid ok =>
      simp only [State.next] at hnext
      split at hnext
      · rename_i hpc
        split at hnext
        · obtain rfl := Option.some.inj hnext
          exact h.changes rfl ((h.orderly pid).starts (Or.inl hpc)).1 (fun q hq => rfl) h.bound
        · obtain rfl := Option.some.inj hnext
          exact h.exitClient pid
      · cases hnext
  | bind pid ok =>
      simp only [State.next] at hnext
      split at hnext
      · rename_i hpc
        split at hnext
        · split at hnext
          · obtain rfl := Option.some.inj hnext
            refine h.changes rfl ((h.orderly pid).starts (Or.inr hpc)).2 (fun q hq => rfl) ?_
            intro p q hp
            exact h.bound_update (fun q hq => (Option.some.inj hq).symm) hp
          · cases hnext
        · obtain rfl := Option.some.inj hnext
          exact h.exitClient pid
      · cases hnext
  | sendto pid ok => exact h.sendto hnext
  | recvfrom pid ok =>
      simp only [State.next] at hnext
      split at hnext
      · split at hnext
        · cases hnext
        · rename_i d inbox hinbox
          obtain ⟨c, hc, rfl⟩ := Option.map_eq_some_iff.mp hnext
          exact h.recvfrom hinbox hc
      · split at hnext
        · obtain rfl := Option.some.inj hnext
          exact h.exitClient pid
        · cases hnext
  | done pid =>
      simp only [State.next] at hnext
      split at hnext
      · split at hnext
        · cases hnext
        · obtain rfl := Option.some.inj hnext
          have hexit := h.exitClient pid
          refine ⟨hexit.orderly, ?_⟩
          intro p q hp
          exact h.bound_update (v := none) (fun q hq => nomatch hq) hp
      · cases hnext
  | kill pid =>
      simp only [State.next] at hnext
      split at hnext
      · cases hnext
      · obtain rfl := Option.some.inj hnext
        exact h.exitClient pid

/-- **Each client gets its own answers.** In every state of every run, also of those in which
something cannot be sent: the `k`-th response a client has printed has the number `k` and is the
image of its `k`-th message; and what is in the socket of a client is the answer to the message it
has just sent. -/
theorem ucase_correspondence (h : system.Reachable s) (pid : BitVec 32) :
    (∀ (k : ℕ) (p : ℕ × List UInt8), (s.client pid).printed[k]? = some p →
      ∃ arg, (s.client pid).argv[k]? = some arg ∧ p = (k + 1, (arg.bytes.take 10).map toupper)) ∧
    ((s.client pid).pc ≠ .exited → ∀ d ∈ s.inbox pid, ∃ j arg, (s.client pid).pc = .recvfrom j ∧
      (s.client pid).argv[j]? = some arg ∧ d = (arg.bytes.take 10).map toupper) := by
  have hinv : Inv s := h.invariant (P := Inv) (fun s hs => inv_init hs)
    (fun s a t hs hnext => hs.step hnext)
  have horderly := hinv.orderly pid
  constructor
  · intro k p hk
    obtain ⟨i, arg, rfl, harg, hp⟩ := horderly.shows k p hk
    exact ⟨arg, harg, hp⟩
  · intro hlive d hd
    have hmem : d ∈ s.onTheWay pid := List.mem_append_left _ (List.mem_append_left _ hd)
    have hawaits := horderly.awaits
    unfold Client.Awaits at hawaits
    split at hawaits
    case h_4 j hpc =>
      rcases hawaits with hnil | ⟨arg, harg, hone⟩
      · rw [hnil] at hmem
        cases hmem
      · rw [hone] at hmem
        exact ⟨j, arg, hpc, harg, List.mem_singleton.mp hmem⟩
    case h_5 hpc => exact absurd hpc hlive
    all_goals
      rw [hawaits] at hmem
      cases hmem

/-- The client with pid 7 sends "hello, world" and "ok", the one with pid 8 sends "x". -/
def twoClients : State where
  server := ⟨.start, fun _ => 0⟩
  queue := []
  client pid :=
    if pid = 7 then
      ⟨[⟨str "hello, world", by decide⟩, ⟨str "ok", by decide⟩], .socket, fun _ => 0, []⟩
    else ⟨[⟨str "x", by decide⟩], .socket, fun _ => 0, []⟩
  bound _ := none
  inbox _ := []

/-- The requests of the two clients are in the server's socket at the same time. -/
def twoClientsRun : List Act :=
  [.serverBegin true, .socket 7 true, .socket 8 true, .bind 8 true, .bind 7 true, .sendto 8 true,
    .sendto 7 true, .serverRecvfrom true, .serverSendto true, .serverRecvfrom true,
    .serverSendto true, .recvfrom 7 true, .sendto 7 true, .serverRecvfrom true, .recvfrom 8 true,
    .serverSendto true, .recvfrom 7 true, .done 8, .done 7]

theorem twoClients_correspondence :
    ∃ s, system.run twoClients twoClientsRun = some s ∧
      (s.client 7).printed = [(1, str "HELLO, WOR"), (2, str "OK")] ∧
      ∀ (k : ℕ) (p : ℕ × List UInt8), (s.client 7).printed[k]? = some p →
        ∃ arg, (s.client 7).argv[k]? = some arg ∧ p = (k + 1, (arg.bytes.take 10).map toupper) := by
  have hrun : system.run twoClients twoClientsRun = some _ := (Option.some_get (by decide)).symm
  refine ⟨_, hrun, by decide, (ucase_correspondence ?_ 7).1⟩
  refine ⟨twoClients, twoClientsRun, ⟨rfl, rfl, ?_, fun _ => rfl, fun _ => rfl⟩, hrun⟩
  intro pid
  show ((if pid = 7 then _ else _ : Client)).pc = _ ∧
    ((if pid = 7 then _ else _ : Client)).printed = _
  split <;> exact ⟨rfl, rfl⟩

/-! ## The server among arbitrary processes -/

/-- A socket of another process, and the name it was bound to. -/
structure Socket where
  opened : Bool
  name : Option Path
deriving DecidableEq, Repr

/-- The server and the sockets of other processes, which are known by numbers; the number of a
socket is not used again. A datagram in the queue comes with the number of the socket it was sent
from, and `bound` says which socket a name leads to. -/
structure World where
  server : Server (Option Path)
  queue : List (ℕ × List UInt8)
  socket : ℕ → Option Socket
  bound : Path → Option ℕ

/-- What the others may do with a socket at any time, and what the server does. Its `sendto` with
`false` fails also when there is a receiver: for want of a permission, because the receiver is
connected to another socket, or because the name fills `sun_path` and is longer than `sendto`
takes. -/
inductive Move where
  | socket (i : ℕ)
  | bind (i : ℕ) (p : Path)
  | send (i : ℕ) (msg : List UInt8)
  | close (i : ℕ)
  | remove (p : Path)
  | serverRecvfrom
  | serverSendto (ok : Bool)
deriving DecidableEq, Repr

namespace World

def isOpen (w : World) (i : ℕ) : Bool := ((w.socket i).map Socket.opened).getD false

/-- The name of the socket, if it has one. -/
def nameOf (w : World) (i : ℕ) : Option Path := (w.socket i).bind Socket.name

/-- There is a receiver for a datagram to this address: it is a name, the name has not been removed,
and the socket that was bound to it is open. -/
def Deliverable (w : World) (claddr : Option Path) : Prop :=
  ∃ p i, claddr = some p ∧ w.bound p = some i ∧ w.isOpen i = true

instance (w : World) (claddr : Option Path) : Decidable (w.Deliverable claddr) :=
  decidable_of_iff ((claddr.bind w.bound).map w.isOpen = some true) (by
    unfold Deliverable
    cases claddr with
    | none => simp
    | some p => simp)

def next (w : World) : Move → Option World
  | .socket i =>
      if w.socket i = none then
        some { w with socket := Function.update w.socket i (some ⟨true, none⟩) }
      else none
  | .bind i p =>
      if w.isOpen i = true ∧ w.nameOf i = none ∧ w.bound p = none then
        some { w with
          socket := Function.update w.socket i (some ⟨true, some p⟩)
          bound := Function.update w.bound p (some i) }
      else none
  | .send i msg =>
      if w.isOpen i = true ∧ w.server.pc ≠ .exited then
        some { w with queue := w.queue ++ [(i, msg)] }
      else none
  | .close i =>
      if w.isOpen i then
        some { w with socket := Function.update w.socket i (some ⟨false, w.nameOf i⟩) }
      else none
  | .remove p => some { w with bound := Function.update w.bound p none }
  | .serverRecvfrom =>
      match w.queue with
      | [] => none
      | d :: queue =>
          -- the address is the name that the sender's socket has now, not at its `sendto`
          (w.server.receive datagramUnixSockUcase (some (w.nameOf d.1, d.2))).map fun srv =>
            { w with server := srv, queue := queue }
  | .serverSendto ok =>
      -- an unnamed socket is answered with an empty address, which does not lead anywhere
      match w.server.reply with
      | none => none
      | some (claddr, _) =>
          some { w with
            server := w.server.replied datagramUnixSockUcase
              (ok && decide (w.Deliverable claddr)) }

/-- The server is in its loop; no other process has a socket yet. -/
structure Init (w : World) : Prop where
  server : w.server.pc = .recvfrom
  queue : w.queue = []
  socket : ∀ i, w.socket i = none
  bound : ∀ p, w.bound p = none

def system : TransSys World Move where
  Init := Init
  step := next

/-- When the server answers, there is a receiver, and `sendto` does not fail for another reason. -/
def Answerable (w : World) (a : Move) : Prop :=
  ∀ ok, a = .serverSendto ok →
    ok = true ∧ ∀ claddr n, w.server.pc = .sendto claddr n → w.Deliverable claddr

variable {w v : World}

/-- The others do not touch the server. -/
theorem next_others {a : Move} (hnext : w.next a = some v) :
    v.server = w.server ∨ a = .serverRecvfrom ∨ ∃ ok, a = .serverSendto ok := by
  cases a with
  | socket i =>
      simp only [next] at hnext
      split at hnext
      · obtain rfl := Option.some.inj hnext
        exact Or.inl rfl
      · cases hnext
  | bind i p =>
      simp only [next] at hnext
      split at hnext
      · obtain rfl := Option.some.inj hnext
        exact Or.inl rfl
      · cases hnext
  | send i msg =>
      simp only [next] at hnext
      split at hnext
      · obtain rfl := Option.some.inj hnext
        exact Or.inl rfl
      · cases hnext
  | close i =>
      simp only [next] at hnext
      split at hnext
      · obtain rfl := Option.some.inj hnext
        exact Or.inl rfl
      · cases hnext
  | remove p =>
      obtain rfl := Option.some.inj hnext
      exact Or.inl rfl
  | serverRecvfrom => exact Or.inr (Or.inl rfl)
  | serverSendto ok => exact Or.inr (Or.inr ⟨ok, rfl⟩)

/-- After `recvfrom` the server is about to answer. -/
theorem next_recvfrom (hnext : w.next .serverRecvfrom = some v) :
    w.server.pc = .recvfrom ∧ v.server.pc ≠ .exited := by
  simp only [next] at hnext
  split at hnext
  · cases hnext
  · obtain ⟨srv, hsrv, rfl⟩ := Option.map_eq_some_iff.mp hnext
    obtain ⟨hpc, hreply⟩ := Server.receive_reply hsrv
    refine ⟨hpc, fun hexited => ?_⟩
    have hexited : srv.pc = .exited := hexited
    simp [Server.reply, hexited] at hreply

/-- After `sendto` the server goes on or has ended. -/
theorem next_sendto {ok : Bool} (hnext : w.next (.serverSendto ok) = some v) :
    ∃ claddr n, w.server.pc = .sendto claddr n ∧
      (v.server.pc = .exited ↔ ¬ (ok = true ∧ w.Deliverable claddr)) := by
  simp only [next, Server.reply] at hnext
  split at hnext
  next => cases hnext
  next claddr bytes hreply =>
    obtain rfl := Option.some.inj hnext
    split at hreply
    next q n hpc =>
      obtain ⟨rfl, -⟩ := Prod.mk.inj (Option.some.inj hreply)
      refine ⟨q, n, hpc, ?_⟩
      by_cases hdeliver : w.Deliverable q <;> cases ok <;>
        simp [Server.replied, hdeliver, datagramUnixSockUcase]
    next => cases hreply

/-- The steps that do not end the server. -/
theorem next_serving {a : Move} (hw : w.server.pc ≠ .exited) (ha : w.Answerable a)
    (hnext : w.next a = some v) : v.server.pc ≠ .exited := by
  rcases next_others hnext with hsame | rfl | ⟨ok, rfl⟩
  · rw [hsame]
    exact hw
  · exact (next_recvfrom hnext).2
  · obtain ⟨claddr, n, hpc, hexited⟩ := next_sendto hnext
    obtain ⟨hok, hdeliver⟩ := ha ok rfl
    exact fun hv => hexited.mp hv ⟨hok, hdeliver claddr n hpc⟩

/-- The server stays ended. -/
theorem next_exited {a : Move} (hw : w.server.pc = .exited) (hnext : w.next a = some v) :
    v.server.pc = .exited := by
  rcases next_others hnext with hsame | rfl | ⟨ok, rfl⟩
  · rw [hsame]
    exact hw
  · exact nomatch hw.symm.trans (next_recvfrom hnext).1
  · obtain ⟨claddr, n, hpc, -⟩ := next_sendto hnext
    exact nomatch hw.symm.trans hpc

/-- An answer that fails ends the server. -/
theorem next_not_answerable {a : Move} (ha : ¬ w.Answerable a) (hnext : w.next a = some v) :
    v.server.pc = .exited := by
  rw [Answerable, not_forall] at ha
  obtain ⟨ok, ha⟩ := ha
  obtain ⟨rfl, hnot⟩ := Classical.not_imp.mp ha
  obtain ⟨claddr, n, hpc, hexited⟩ := next_sendto hnext
  refine hexited.mpr fun hsent => hnot ⟨hsent.1, fun claddr' n' hpc' => ?_⟩
  obtain ⟨rfl, -⟩ := ServerPc.sendto.inj (hpc.symm.trans hpc')
  exact hsent.2

/-- **When the server stays.** It is in its loop after a run exactly if each time it answered, the
datagram had come from a socket that had a name by then, the name still led to an open socket, and
`sendto` did not fail for another reason. -/
theorem server_serves_iff {w₀ : World} {as : List Move} (h₀ : Init w₀)
    (hrun : system.run w₀ as = some w) :
    w.server.pc ≠ .exited ↔ system.Meets Answerable w₀ as := by
  have hstart : w₀.server.pc ≠ .exited := by simp [h₀.server]
  constructor
  · intro hw
    exact TransSys.meets_of_no_trace (I := fun _ => True) (B := fun w => w.server.pc = .exited)
      (fun _ _ _ _ _ => trivial) (fun _ _ _ _ hexited hnext => next_exited hexited hnext)
      (fun _ _ _ _ hnot hnext => next_not_answerable hnot hnext) trivial hrun hw
  · intro hmeets
    exact TransSys.run_preserves_of_meets (P := fun w => w.server.pc ≠ .exited)
      (fun _ _ _ hw ha hnext => next_serving hw ha hnext) hstart hmeets hrun

/-- Nobody has a socket yet. -/
def empty : World where
  server := ⟨.recvfrom, fun _ => 0⟩
  queue := []
  socket _ := none
  bound _ := none

theorem empty_init : Init empty := ⟨rfl, rfl, fun _ => rfl, fun _ => rfl⟩

/-- A client that takes its name after it has sent and waits for its answer, and one that does not
ask. -/
def patient : List Move :=
  [.socket 0, .send 0 (str "hi"), .bind 0 (str "/tmp/a"), .socket 1, .serverRecvfrom, .close 1,
    .serverSendto true, .close 0]

theorem patient_serves :
    system.Meets Answerable empty patient ∧
      ∃ w, system.run empty patient = some w ∧ w.server.pc = .recvfrom := by
  have hrun : system.run empty patient = some _ := (Option.some_get (by decide)).symm
  exact ⟨(server_serves_iff empty_init hrun).mp (by decide), _, hrun, by decide⟩

/-- A client that sends and is gone before the server answers. -/
def impatient : List Move :=
  [.socket 0, .bind 0 (str "/tmp/a"), .send 0 (str "hi"), .serverRecvfrom, .close 0,
    .serverSendto true]

/-- One client ends the server. -/
theorem impatient_stops_server : ¬ ∀ w, system.Reachable w → w.server.pc ≠ .exited := by
  intro h
  refine h _ ⟨empty, impatient, empty_init, (Option.some_get (by decide)).symm⟩ ?_
  decide

end World

end Tlpi.UnixUcase
