import Tlpi.Posix.Base

set_option autoImplicit false

/-! # Datagram services

Three pairs of programs have one shape: sockets/datagram_unix_sock_ucase_{server,client}.c,
sockets/i6d_ucase_{server,client}.c and sockets/iterative_udp_echo_{server,client}.c. The server
receives a datagram into its buffer, works on the bytes there and sends them back to where the
datagram came from. The client sends its arguments one by one and waits for a datagram after each.

`Service` is what differs. `Server` and `Client` are the two loops; what happens to a datagram on
its way is left to the systems that use them. Nothing in a datagram says which request it answers.
-/

namespace Tlpi.Datagram

/-! ## Buffers -/

/-- `toupper` in the C locale. -/
def toupper (c : UInt8) : UInt8 := if chr 'a' ≤ c ∧ c ≤ chr 'z' then c - 32 else c

/-- The buffer after a datagram has been received into it: a longer one is cut, and after a shorter
one the rest of the buffer is as before. -/
def fill (buf : Mem) (size : ℕ) (msg : List UInt8) : Mem := fun i =>
  if i < size then msg.getD i (buf i) else buf i

/-- `for (j = 0; j < numBytes; j++) buf[j] = toupper((unsigned char) buf[j])`. -/
def ucase (numBytes : ℕ) (buf : Mem) : Mem :=
  (List.range numBytes).foldl (fun buf j => Function.update buf j (toupper (buf j))) buf

theorem fill_bytes (buf : Mem) (size : ℕ) (msg : List UInt8) :
    (fill buf size msg).bytes (min size msg.length) = msg.take size := by
  refine List.ext_getElem ?_ fun i h1 h2 => ?_
  · rw [Mem.bytes_length, List.length_take]
  · rw [Mem.bytes_length] at h1
    have hsize : i < size := by omega
    have hlen : i < msg.length := by omega
    simp [Mem.bytes, fill, hsize, hlen]

/-- After `k` turns of the loop the first `k` bytes are done and the others are as before. -/
theorem ucase_apply (k : ℕ) (buf : Mem) (i : ℕ) :
    ucase k buf i = if i < k then toupper (buf i) else buf i := by
  induction k generalizing i with
  | zero => simp [ucase]
  | succ k ih =>
      have hstep : ucase (k + 1) buf
          = Function.update (ucase k buf) k (toupper (ucase k buf k)) := by
        simp only [ucase, List.range_succ, List.foldl_append, List.foldl_cons, List.foldl_nil]
      rw [hstep, ih k, if_neg (Nat.lt_irrefl k)]
      by_cases hi : i = k
      · subst hi
        simp
      · rw [Function.update_of_ne hi, ih i]
        have hiff : i < k + 1 ↔ i < k := by omega
        simp [hiff]

theorem ucase_bytes (n : ℕ) (buf : Mem) : (ucase n buf).bytes n = (buf.bytes n).map toupper := by
  rw [Mem.bytes, Mem.bytes, List.map_map]
  refine List.map_congr_left fun i hi => ?_
  rw [ucase_apply, if_pos (List.mem_range.mp hi)]
  rfl

theorem toupper_ne_zero {c : UInt8} (hc : c ≠ 0) : toupper c ≠ 0 := by
  unfold toupper
  split
  · rename_i hlower
    have hge : 97 ≤ c.toNat := UInt8.le_iff_toNat_le.mp hlower.1
    intro hzero
    have hsub := congrArg UInt8.toNat hzero
    rw [UInt8.toNat_sub_of_le _ _ (UInt8.le_iff_toNat_le.mpr (by
      show 32 ≤ c.toNat
      omega))] at hsub
    have h32 : (32 : UInt8).toNat = 32 := rfl
    have h0 : (0 : UInt8).toNat = 0 := rfl
    omega
  · exact hc

/-! ## Services -/

/-- An argument of a program: a C string. -/
structure Arg where
  bytes : List UInt8
  noNul : (0 : UInt8) ∉ bytes
deriving DecidableEq, Repr

/-- What the three pairs differ in: the size of the buffers, what the server does to the bytes in
its buffer, and whether the programs go on if they cannot send. `image` is the work done on one
byte. -/
structure Service where
  bufSize : ℕ
  work : ℕ → Mem → Mem
  clientStays : Bool
  serverStays : Bool
  image : UInt8 → UInt8
  work_bytes : ∀ n buf, (work n buf).bytes n = (buf.bytes n).map image
  image_ne_zero : ∀ c ≠ 0, image c ≠ 0

/-- sockets/datagram_unix_sock_ucase.h and its two programs. -/
def datagramUnixSockUcase : Service where
  bufSize := 10
  work := ucase
  clientStays := false
  serverStays := false
  image := toupper
  work_bytes := ucase_bytes
  image_ne_zero _ := toupper_ne_zero

/-- What a message should be answered with. -/
def Service.answer (svc : Service) (msg : List UInt8) : List UInt8 :=
  (msg.take svc.bufSize).map svc.image

variable {svc : Service}

theorem Service.answer_length_le (msg : List UInt8) : (svc.answer msg).length ≤ svc.bufSize := by
  rw [Service.answer, List.length_map, List.length_take]
  exact Nat.min_le_left _ _

theorem Service.answer_no_nul (arg : Arg) : (0 : UInt8) ∉ svc.answer arg.bytes := by
  intro hmem
  obtain ⟨c, hc, hzero⟩ := List.mem_map.mp hmem
  refine svc.image_ne_zero c ?_ hzero
  rintro rfl
  exact arg.noNul (List.mem_of_mem_take hc)

/-! ## The server -/

inductive ServerPc (A : Type) where
  | start
  | recvfrom
  | sendto (claddr : A) (numBytes : ℕ)
  | exited
deriving DecidableEq, Repr

structure Server (A : Type) where
  pc : ServerPc A
  buf : Mem

namespace Server

variable {A : Type}

/-- `socket`, `bind` and what else comes before the loop. -/
def begin (srv : Server A) (ok : Bool) : Option (Server A) :=
  match srv.pc with
  | .start => some { srv with pc := if ok then .recvfrom else .exited }
  | _ => none

/-- `recvfrom`, and the work on the buffer; `none` is a failure. -/
def receive (svc : Service) (srv : Server A) (d : Option (A × List UInt8)) : Option (Server A) :=
  match srv.pc, d with
  | .recvfrom, some (claddr, msg) =>
      let numBytes := min svc.bufSize msg.length
      some ⟨.sendto claddr numBytes, svc.work numBytes (fill srv.buf svc.bufSize msg)⟩
  | .recvfrom, none => some { srv with pc := .exited }
  | _, _ => none

/-- The datagram the server is about to send. -/
def reply (srv : Server A) : Option (A × List UInt8) :=
  match srv.pc with
  | .sendto claddr numBytes => some (claddr, srv.buf.bytes numBytes)
  | _ => none

/-- After `sendto`. -/
def replied (svc : Service) (srv : Server A) (ok : Bool) : Server A :=
  { srv with pc := if ok || svc.serverStays then .recvfrom else .exited }

/-- What the server sends back is the image of what it received, whatever was in the buffer
before. -/
theorem receive_reply {srv srv' : Server A} {claddr : A} {msg : List UInt8}
    (h : srv.receive svc (some (claddr, msg)) = some srv') :
    srv.pc = .recvfrom ∧ srv'.reply = some (claddr, svc.answer msg) := by
  unfold receive at h
  split at h
  next hpc hd =>
    obtain ⟨rfl, rfl⟩ := Prod.mk.inj (Option.some.inj hd)
    obtain rfl := Option.some.inj h
    refine ⟨hpc, ?_⟩
    simp only [reply, svc.work_bytes, fill_bytes, Service.answer]
  next hd => cases hd
  next => cases h

theorem reply_eq_none {srv : Server A} (h : ∀ claddr n, srv.pc ≠ .sendto claddr n) :
    srv.reply = none := by
  unfold reply
  split
  next claddr n hpc => exact absurd hpc (h claddr n)
  next => rfl

@[simp] theorem replied_reply (srv : Server A) (ok : Bool) : (srv.replied svc ok).reply = none := by
  refine reply_eq_none fun claddr n => ?_
  unfold replied
  cases ok <;> cases svc.serverStays <;> simp

end Server

/-! ## The client -/

/-- `j` counts the arguments that have been dealt with. Only the client of a UNIX domain socket has
to `bind`. -/
inductive ClientPc where
  | socket
  | bind
  | sendto (j : ℕ)
  | recvfrom (j : ℕ)
  | exited
deriving DecidableEq, Repr

/-- `printed` are the numbers and the bytes of the responses the client has printed. -/
structure Client where
  argv : List Arg
  pc : ClientPc
  resp : Mem
  printed : List (ℕ × List UInt8)

namespace Client

def exit (c : Client) : Client := { c with pc := .exited }

/-- The message the client is about to send. -/
def message (c : Client) : Option Arg :=
  match c.pc with
  | .sendto j => c.argv[j]?
  | _ => none

/-- After sending it. -/
def sent (svc : Service) (c : Client) (ok : Bool) : Client :=
  match c.pc with
  | .sendto j => if ok || svc.clientStays then { c with pc := .recvfrom j } else c.exit
  | _ => c

/-- A datagram has come: its bytes are printed with `%.*s`, which ends at a NUL. -/
def receive (svc : Service) (c : Client) (d : List UInt8) : Option Client :=
  match c.pc with
  | .recvfrom j =>
      let numBytes := min svc.bufSize d.length
      let resp := fill c.resp svc.bufSize d
      some { c with
        pc := .sendto (j + 1)
        resp := resp
        printed := c.printed ++ [(j + 1, (resp.bytes numBytes).takeWhile (· != 0))] }
  | _ => none

/-- The `k`-th thing printed is the answer to the `i`-th message, for an `i` related to `k`. -/
def Shows (svc : Service) (R : ℕ → ℕ → Prop) (c : Client) : Prop :=
  ∀ (k : ℕ) (p : ℕ × List UInt8), c.printed[k]? = some p →
    ∃ (i : ℕ) (arg : Arg), R i k ∧ c.argv[i]? = some arg ∧ p = (k + 1, svc.answer arg.bytes)

/-- The client has printed one response for each argument it has dealt with. -/
def Counts (c : Client) : Prop :=
  match c.pc with
  | .socket => c.printed = []
  | .bind => c.printed = []
  | .sendto j => c.printed.length = j
  | .recvfrom j => c.printed.length = j
  | .exited => True

variable {c d : Client} {R : ℕ → ℕ → Prop}

theorem Counts.length_printed {j : ℕ} (h : c.Counts) (hpc : c.pc = .sendto j ∨ c.pc = .recvfrom j) :
    c.printed.length = j := by
  unfold Counts at h
  rcases hpc with hpc | hpc <;> rwa [hpc] at h

theorem Counts.nothing_printed (h : c.Counts) (hpc : c.pc = .socket ∨ c.pc = .bind) :
    c.printed = [] := by
  unfold Counts at h
  rcases hpc with hpc | hpc <;> rwa [hpc] at h

theorem receive_pc {b : List UInt8} (h : c.receive svc b = some d) : ∃ j, c.pc = .recvfrom j := by
  unfold receive at h
  split at h
  next j hpc => exact ⟨j, hpc⟩
  next => cases h

/-- An answer is printed as it is. -/
theorem receive_answer {j : ℕ} {arg : Arg} (hpc : c.pc = .recvfrom j)
    (h : c.receive svc (svc.answer arg.bytes) = some d) :
    d.argv = c.argv ∧ d.pc = .sendto (j + 1) ∧
      d.printed = c.printed ++ [(j + 1, svc.answer arg.bytes)] := by
  unfold receive at h
  rw [hpc] at h
  obtain rfl := Option.some.inj h
  refine ⟨rfl, rfl, ?_⟩
  dsimp only
  rw [fill_bytes, List.take_of_length_le (Service.answer_length_le _),
    takeWhile_of_no_nul (Service.answer_no_nul arg)]

theorem Shows.receive {i j : ℕ} {arg : Arg} (h : c.Shows svc R) (hcount : c.Counts)
    (hpc : c.pc = .recvfrom j) (hR : R i j) (harg : c.argv[i]? = some arg)
    (hnext : c.receive svc (svc.answer arg.bytes) = some d) : d.Shows svc R ∧ d.Counts := by
  obtain ⟨hargv, hpc', hprinted⟩ := receive_answer hpc hnext
  have hlen : c.printed.length = j := hcount.length_printed (Or.inr hpc)
  constructor
  · intro k p hk
    rw [hprinted, List.getElem?_append] at hk
    rw [hargv]
    split at hk
    · exact h k p hk
    · rename_i hlong
      have hone : k - c.printed.length < 1 := by
        obtain ⟨hlt, -⟩ := List.getElem?_eq_some_iff.mp hk
        exact hlt
      obtain rfl : k = j := by omega
      rw [hlen, Nat.sub_self] at hk
      obtain rfl := Option.some.inj hk
      exact ⟨i, arg, hR, harg, rfl⟩
  · unfold Counts
    rw [hpc', hprinted, List.length_append, hlen]
    rfl

/-! ## Exchanges -/

/-- What may be on its way for a client that has had everything else: the answer to the message it
has just sent, at most once. -/
def Awaits (svc : Service) (c : Client) (ds : List (List UInt8)) : Prop :=
  match c.pc with
  | .socket => ds = []
  | .bind => ds = []
  | .sendto _ => ds = []
  | .recvfrom j => ds = [] ∨ ∃ arg, c.argv[j]? = some arg ∧ ds = [svc.answer arg.bytes]
  | .exited => True

/-- A client that has printed the right responses, with the datagrams `ds` on their way for it,
those that are still requests counted as what they will be answered with. -/
structure Orderly (svc : Service) (c : Client) (ds : List (List UInt8)) : Prop where
  counts : c.Counts
  shows : c.Shows svc (· = ·)
  awaits : c.Awaits svc ds

variable {ds ds' : List (List UInt8)}

theorem orderly_new (hpc : c.pc = .socket) (hprinted : c.printed = []) : c.Orderly svc [] where
  counts := by simp [Counts, hpc, hprinted]
  shows := by simp [Shows, hprinted]
  awaits := by simp [Awaits, hpc]

/-- The end of a client: nothing on its way matters any more. -/
theorem Orderly.exit (h : c.Orderly svc ds) (ds' : List (List UInt8)) : c.exit.Orderly svc ds' :=
  ⟨trivial, h.shows, trivial⟩

theorem Awaits.nothing_due (h : c.Awaits svc ds)
    (hpc : c.pc = .socket ∨ c.pc = .bind ∨ ∃ j, c.pc = .sendto j) : ds = [] := by
  unfold Awaits at h
  rcases hpc with hpc | hpc | ⟨j, hpc⟩ <;> rwa [hpc] at h

/-- Datagrams may get lost, and overtake each other. -/
theorem Orderly.subperm (h : c.Orderly svc ds) (hsub : ds'.Subperm ds) : c.Orderly svc ds' := by
  refine ⟨h.counts, h.shows, ?_⟩
  have hawaits := h.awaits
  unfold Awaits at hawaits ⊢
  split at hawaits
  case h_4 j hpc =>
    obtain ⟨l, hperm, hsub⟩ := hsub
    rcases hawaits with rfl | ⟨arg, harg, rfl⟩
    · obtain rfl := List.sublist_nil.mp hsub
      exact Or.inl hperm.nil_eq.symm
    · rcases List.sublist_singleton.mp hsub with rfl | rfl
      · exact Or.inl hperm.nil_eq.symm
      · exact Or.inr ⟨arg, harg, List.perm_singleton.mp hperm.symm⟩
  case h_5 => trivial
  all_goals
    subst hawaits
    exact List.subperm_nil.mp hsub

/-- Before its loop, a client goes on to `bind` or to the loop. -/
theorem Orderly.starts (h : c.Orderly svc ds) (hpc : c.pc = .socket ∨ c.pc = .bind) :
    ({ c with pc := .bind } : Client).Orderly svc ds ∧
      ({ c with pc := .sendto 0 } : Client).Orderly svc ds := by
  have hprinted : c.printed = [] := h.counts.nothing_printed hpc
  have hds : ds = [] := h.awaits.nothing_due (by tauto)
  exact ⟨⟨hprinted, h.shows, hds⟩, ⟨by simp [Counts, hprinted], h.shows, hds⟩⟩

theorem message_some {arg : Arg} (h : c.message = some arg) :
    ∃ j, c.pc = .sendto j ∧ c.argv[j]? = some arg := by
  unfold message at h
  split at h
  next j hpc => exact ⟨j, hpc, h⟩
  next => cases h

/-- The client has sent the next message. -/
theorem Orderly.send {arg : Arg} (h : c.Orderly svc ds) (hmsg : c.message = some arg) :
    ds = [] ∧ (c.sent svc true).Orderly svc [svc.answer arg.bytes] := by
  obtain ⟨j, hpc, harg⟩ := message_some hmsg
  have hcounts := h.counts.length_printed (Or.inl hpc)
  refine ⟨h.awaits.nothing_due (Or.inr (Or.inr ⟨j, hpc⟩)), ?_⟩
  have hsent : c.sent svc true = { c with pc := .recvfrom j } := by
    simp [sent, hpc]
  rw [hsent]
  exact ⟨hcounts, h.shows, Or.inr ⟨arg, harg, rfl⟩⟩

/-- The client could not send the next message. -/
theorem Orderly.send_fails {arg : Arg} (h : c.Orderly svc ds) (hmsg : c.message = some arg) :
    (c.sent svc false).Orderly svc ds := by
  obtain ⟨j, hpc, harg⟩ := message_some hmsg
  have hcounts := h.counts.length_printed (Or.inl hpc)
  have hawaits := h.awaits.nothing_due (Or.inr (Or.inr ⟨j, hpc⟩))
  cases hstays : svc.clientStays with
  | true =>
      have hsent : c.sent svc false = { c with pc := .recvfrom j } := by
        simp [sent, hpc, hstays]
      rw [hsent]
      exact ⟨hcounts, h.shows, Or.inl hawaits⟩
  | false =>
      have hsent : c.sent svc false = c.exit := by
        simp [sent, hpc, hstays]
      rw [hsent]
      exact h.exit ds

/-- The client receives one of the datagrams on their way for it. -/
theorem Orderly.receive {b : List UInt8} (l₁ l₂ : List (List UInt8))
    (h : c.Orderly svc (l₁ ++ b :: l₂)) (hnext : c.receive svc b = some d) :
    d.Orderly svc (l₁ ++ l₂) := by
  have hawaits := h.awaits
  unfold Awaits at hawaits
  obtain ⟨j, hpc⟩ := receive_pc hnext
  rw [hpc] at hawaits
  rcases hawaits with hnil | ⟨arg, harg, hone⟩
  · simp at hnil
  · obtain ⟨rfl, rfl, rfl⟩ : l₁ = [] ∧ b = svc.answer arg.bytes ∧ l₂ = [] := by
      simpa [List.append_eq_singleton_iff] using hone
    obtain ⟨hshows, hcounts⟩ := h.shows.receive h.counts hpc rfl harg hnext
    obtain ⟨-, hpc', -⟩ := receive_answer hpc hnext
    refine ⟨hcounts, hshows, ?_⟩
    unfold Awaits
    rw [hpc']
    rfl

end Client

/-! ## What is on its way -/

section OnTheWay

variable {A : Type} [DecidableEq A] {srv srv' : Server A} {a : A}
  {received : List (List UInt8)} {requests : List (A × List UInt8)}

/-- The datagrams that carry this address. -/
def addressed (a : A) (ds : List (A × List UInt8)) : List (List UInt8) :=
  ds.filterMap fun d => if d.1 = a then some d.2 else none

/-- What is on its way for the client with this address: what has been sent to it, what the server
has in its hands, and what the requests from it will be answered with. -/
def onTheWay (svc : Service) (a : A) (received : List (List UInt8)) (srv : Server A)
    (requests : List (A × List UInt8)) : List (List UInt8) :=
  received ++ addressed a srv.reply.toList ++ (addressed a requests).map svc.answer

@[simp] theorem addressed_nil (a : A) : addressed a [] = [] := rfl

@[simp] theorem addressed_append (a : A) (ds es : List (A × List UInt8)) :
    addressed a (ds ++ es) = addressed a ds ++ addressed a es := List.filterMap_append

theorem addressed_cons (a : A) (d : A × List UInt8) (ds : List (A × List UInt8)) :
    addressed a (d :: ds) = addressed a [d] ++ addressed a ds :=
  addressed_append a [d] ds

@[simp] theorem addressed_self (a : A) (msg : List UInt8) : addressed a [(a, msg)] = [msg] := by
  simp [addressed]

theorem addressed_of_ne {b : A} (h : b ≠ a) (msg : List UInt8) : addressed a [(b, msg)] = [] := by
  simp [addressed, h]

/-- The list around the datagram that is taken out. -/
theorem eq_around {α : Type} {l : List α} {k : ℕ} {x : α} (h : l[k]? = some x) :
    l = l.take k ++ x :: l.drop (k + 1) ∧ l.eraseIdx k = l.take k ++ l.drop (k + 1) := by
  obtain ⟨hk, rfl⟩ := List.getElem?_eq_some_iff.mp h
  refine ⟨?_, List.eraseIdx_eq_take_drop_succ l k⟩
  rw [← List.drop_eq_getElem_cons hk, List.take_append_drop]

theorem onTheWay_begin {ok : Bool} (h : srv.begin ok = some srv') :
    onTheWay svc a received srv' requests = onTheWay svc a received srv requests := by
  unfold Server.begin at h
  split at h
  next hpc =>
    obtain rfl := Option.some.inj h
    have hbefore : srv.reply = none := Server.reply_eq_none (by simp [hpc])
    have hafter :
        Server.reply (A := A) { srv with pc := if ok then .recvfrom else .exited } = none :=
      Server.reply_eq_none (by cases ok <;> simp)
    rw [onTheWay, onTheWay, hbefore, hafter]
  next => cases h

/-- A request goes into the hands of the server. -/
theorem onTheWay_receive {k : ℕ} {d : A × List UInt8} (h : srv.receive svc (some d) = some srv')
    (hk : requests[k]? = some d) :
    (onTheWay svc a received srv' (requests.eraseIdx k)).Perm
      (onTheWay svc a received srv requests) := by
  obtain ⟨hpc, hreply⟩ := Server.receive_reply h
  have hbefore : srv.reply = none := Server.reply_eq_none (by simp [hpc])
  obtain ⟨hall, hrest⟩ := eq_around hk
  have hmap : addressed a [(d.1, svc.answer d.2)] = (addressed a [d]).map svc.answer := by
    by_cases hd : d.1 = a <;> simp [addressed, hd]
  unfold onTheWay
  rw [hbefore, hreply, hrest]
  conv_rhs => rw [hall]
  rw [addressed_append, addressed_append, addressed_cons a d]
  simp only [Option.toList_some, Option.toList_none, addressed_nil, hmap, List.map_append,
    List.append_nil, List.append_assoc]
  refine List.Perm.append_left received ?_
  rw [← List.append_assoc, ← List.append_assoc]
  exact List.Perm.append_right _ List.perm_append_comm

/-- The server cannot receive, and ends. -/
theorem onTheWay_receive_fails (h : srv.receive svc none = some srv') (a : A)
    (received : List (List UInt8)) (requests : List (A × List UInt8)) :
    onTheWay svc a received srv' requests = onTheWay svc a received srv requests := by
  unfold Server.receive at h
  split at h
  next hd => cases hd
  next hpc _ =>
    obtain rfl := Option.some.inj h
    have hbefore : srv.reply = none := Server.reply_eq_none (by simp [hpc])
    have hafter : Server.reply (A := A) { srv with pc := .exited } = none :=
      Server.reply_eq_none (by simp)
    rw [onTheWay, onTheWay, hbefore, hafter]
  next => cases h

/-- The server has sent its answer. -/
theorem onTheWay_reply (svc : Service) {d : A × List UInt8} (h : srv.reply = some d) (ok : Bool)
    (a : A) (received : List (List UInt8)) (requests : List (A × List UInt8)) :
    onTheWay svc a (received ++ addressed a [d]) (srv.replied svc ok) requests
      = onTheWay svc a received srv requests := by
  rw [onTheWay, onTheWay, h, Server.replied_reply]
  simp

/-- The server could not send its answer. -/
theorem onTheWay_reply_fails (srv : Server A) (ok : Bool) :
    (onTheWay svc a received (srv.replied svc ok) requests).Sublist
      (onTheWay svc a received srv requests) := by
  rw [onTheWay, onTheWay, Server.replied_reply]
  simp only [Option.toList_none, addressed_nil, List.append_nil]
  exact List.Sublist.append_right (List.sublist_append_left _ _) _

/-- The requests are lost with the server's socket. -/
theorem onTheWay_no_requests (srv : Server A) :
    (onTheWay svc a received srv []).Sublist (onTheWay svc a received srv requests) := by
  rw [onTheWay, onTheWay]
  simp

end OnTheWay

end Tlpi.Datagram
