import Tlpi.Lib.Transition
import Tlpi.Posix.Base

set_option autoImplicit false

/-! # Transfer over a stream socket (sockets/stream_sock_xfr_server.c, stream_sock_xfr_client.c)

Each client copies its standard input to a connection, and the server copies one connection after
the other to its standard output. Both use a buffer of `BUF_SIZE` bytes and copy what one `read`
gives with one `write`; the connection in between keeps the order of the bytes but none of these
boundaries.

A client is known by a number. `sent`, `finished` and `accepted` are bookkeeping: the bytes a client
has got into its connection, and the connections served to their end and accepted so far.
-/

namespace Tlpi.StreamXfr

def BUF_SIZE : ℕ := 100

/-! ## The client -/

/-- Where a client is; `chunk` is what is left to write of its buffer. -/
inductive ClientPc where
  | socket
  | connect
  | read
  | write (chunk : List UInt8)
  | exited
deriving DecidableEq, Repr

/-- A client and its connection: its standard input, the rest of it that has not been read, whether
it has connected, what it has sent, and what of that is in the connection. -/
structure Client where
  stdin : List UInt8
  rest : List UInt8
  pc : ClientPc
  connected : Bool
  sent : List UInt8
  buf : List UInt8
deriving DecidableEq, Repr

/-- What a client does, with how the system call turns out. A `write` to the connection may pass on
the buffer in several pieces (`push`); it returns after the last one, or fails before. -/
inductive ClientAct where
  | socket (ok : Bool)
  | connect (ok : Bool)
  | read (numRead : Option ℕ)
  | push (n : ℕ)
  | writeFails
  | kill
deriving DecidableEq, Repr

/-- The end of a client closes its end of the connection; what is in it can still be read. -/
def Client.exit (c : Client) : Client := { c with pc := .exited }

/-- A step of a client. `serving` says whether the server is there: only then a connection can be
made or written to. -/
def Client.next (c : Client) (serving : Bool) : ClientAct → Option Client
  | .socket ok =>
      if c.pc = .socket then some (if ok then { c with pc := .connect } else c.exit) else none
  | .connect ok =>
      if c.pc = .connect then
        if ok then
          if serving then some { c with pc := .read, connected := true } else none
        else some c.exit
      else none
  | .read numRead =>
      if c.pc = .read then
        match numRead with
        -- the test `numRead == 1` after the loop is never met: a failed `read` ends like the last
        | none => some c.exit
        | some n =>
            if n = 0 then if c.rest = [] then some c.exit else none
            else if n ≤ BUF_SIZE ∧ n ≤ c.rest.length then
              some { c with pc := .write (c.rest.take n), rest := c.rest.drop n }
            else none
      else none
  | .push n =>
      match c.pc with
      | .write chunk =>
          if serving = true ∧ 0 < n ∧ n ≤ chunk.length then
            some { c with
              sent := c.sent ++ chunk.take n
              buf := c.buf ++ chunk.take n
              pc := if n = chunk.length then .read else .write (chunk.drop n) }
          else none
      | _ => none
  | .writeFails =>
      match c.pc with
      | .write _ => some c.exit
      | _ => none
  | .kill => if c.pc = .exited then none else some c.exit

/-! ## The server -/

/-- Where the server is: the calls before its loop, and the connection it serves in the loop.
`chunk` is what the last `read` gave. After its end, `exited` keeps that connection. -/
inductive Pc where
  | socket
  | remove
  | bind
  | listen
  | accept
  | read (i : ℕ)
  | write (i : ℕ) (chunk : List UInt8)
  | close (i : ℕ)
  | exited (serving : Option ℕ)
deriving DecidableEq, Repr

/-- The connection being served. -/
def Pc.current : Pc → Option ℕ
  | .read i => some i
  | .write i _ => some i
  | .close i => some i
  | .exited serving => serving
  | _ => none

/-- The calls before the loop, and what follows each. -/
def Pc.startup? : Pc → Option Pc
  | .socket => some .remove
  | .remove => some .bind
  | .bind => some .listen
  | _ => none

def Pc.hasExited : Pc → Bool
  | .exited _ => true
  | _ => false

/-- `pending` are the connections that have been made and not yet accepted. -/
structure State where
  client : ℕ → Client
  pc : Pc
  listening : Bool
  pending : List ℕ
  accepted : List ℕ
  finished : List ℕ
  stdout : List UInt8

inductive Act where
  | startup (ok : Bool)
  | listen (ok : Bool)
  | accept (ok : Bool)
  | read (numRead : Option ℕ)
  | write (n : Option ℕ)
  | close (ok : Bool)
  | kill
  | client (i : ℕ) (a : ClientAct)
deriving DecidableEq, Repr

/-- `exit(1)`, or the end by a signal. -/
def State.exit (s : State) : State := { s with pc := .exited s.pc.current }

/-- The server's end of a connection is open, or can be: the server is there and listens. -/
def State.serving (s : State) : Bool := s.listening && !s.pc.hasExited

/-- `read(cfd, buf, BUF_SIZE)` in the server. -/
def State.readFrom (s : State) (i : ℕ) : Option ℕ → Option State
  | none => some s.exit
  | some n =>
      let c := s.client i
      if n = 0 then
        if c.buf = [] ∧ c.pc = .exited then some { s with pc := .close i } else none
      else if n ≤ BUF_SIZE ∧ n ≤ c.buf.length then
        some { s with
          client := Function.update s.client i { c with buf := c.buf.drop n }
          pc := .write i (c.buf.take n) }
      else none

/-- `write(STDOUT_FILENO, buf, numRead)`; `none` is a failure. -/
def State.writeOut (s : State) (i : ℕ) (chunk : List UInt8) : Option ℕ → Option State
  | none => some s.exit
  | some n =>
      if n = chunk.length then some { s with stdout := s.stdout ++ chunk, pc := .read i }
      else if n < chunk.length then some { s.exit with stdout := s.stdout ++ chunk.take n }
      else none

def State.next (s : State) : Act → Option State
  | .startup ok =>
      match s.pc.startup? with
      | none => none
      | some pc => some (if ok then { s with pc := pc } else s.exit)
  | .listen ok =>
      -- the test is `listen(..) == 1`, so the server goes on after a failure
      if s.pc = .listen then some { s with listening := ok, pc := .accept } else none
  | .accept ok =>
      if s.pc = .accept then
        if ok then
          match s.pending with
          | [] => none
          | i :: pending =>
              some { s with pending := pending, accepted := s.accepted ++ [i], pc := .read i }
        else some s.exit
      else none
  | .read numRead =>
      match s.pc with
      | .read i => s.readFrom i numRead
      | _ => none
  | .write n =>
      match s.pc with
      | .write i chunk => s.writeOut i chunk n
      | _ => none
  | .close ok =>
      match s.pc with
      | .close i =>
          some (if ok then { s with finished := s.finished ++ [i], pc := .accept } else s.exit)
      | _ => none
  | .kill => if s.pc.hasExited then none else some s.exit
  | .client i a =>
      ((s.client i).next s.serving a).map fun c =>
        { s with
          client := Function.update s.client i c
          pending := if a = .connect true then s.pending ++ [i] else s.pending }

structure Init (s : State) : Prop where
  client : ∀ i, ∃ stdin, s.client i = ⟨stdin, stdin, .socket, false, [], []⟩
  pc : s.pc = .socket
  listening : s.listening = false
  pending : s.pending = []
  accepted : s.accepted = []
  finished : s.finished = []
  stdout : s.stdout = []

def system : TransSys State Act where
  Init := Init
  step := State.next

/-! ## A client's stream -/

/-- What a client has sent is what it has read, up to the chunk in its hands. -/
structure Client.Ok (c : Client) : Prop where
  stdin : match c.pc with
    | .write chunk => c.stdin = c.sent ++ chunk ++ c.rest
    | .exited => c.sent <+: c.stdin
    | _ => c.stdin = c.sent ++ c.rest
  unconnected : c.connected = false → c.sent = [] ∧ c.buf = []
  early : c.pc = .socket ∨ c.pc = .connect → c.connected = false
  late : (c.pc = .read ∨ ∃ chunk, c.pc = .write chunk) → c.connected = true

variable {c d : Client}

theorem Client.Ok.sent_le_stdin (h : c.Ok) : c.sent <+: c.stdin := by
  have hstdin := h.stdin
  split at hstdin
  · rw [hstdin, List.append_assoc]
    exact List.prefix_append _ _
  · exact hstdin
  · rw [hstdin]
    exact List.prefix_append _ _

theorem Client.Ok.exit (h : c.Ok) : c.exit.Ok where
  stdin := h.sent_le_stdin
  unconnected := h.unconnected
  early := by simp [Client.exit]
  late := by simp [Client.exit]

/-- What a step of a client changes: it may add bytes to its connection, and make it (`p`). -/
structure Client.Moved (c d : Client) (p : Prop) : Prop where
  ok : d.Ok
  live : c.pc ≠ .exited
  stdin : d.stdin = c.stdin
  sends : ∃ x, d.sent = c.sent ++ x ∧ d.buf = c.buf ++ x
  connects : p → c.connected = false ∧ d.connected = true
  stays : ¬ p → d.connected = c.connected

theorem Client.moved_exit {p : Prop} (h : c.Ok) (hlive : c.pc ≠ .exited) (hp : ¬ p) :
    c.Moved c.exit p :=
  ⟨h.exit, hlive, rfl, ⟨[], by simp [Client.exit]⟩, fun hconn => absurd hconn hp, fun _ => rfl⟩

theorem Client.next_moved {serving : Bool} {a : ClientAct} (h : c.Ok)
    (hnext : c.next serving a = some d) : c.Moved d (a = .connect true) := by
  have hstdin := h.stdin
  cases a with
  | socket ok =>
      simp only [Client.next] at hnext
      split at hnext
      · rename_i hpc
        rw [hpc] at hstdin
        obtain rfl := Option.some.inj hnext
        cases ok with
        | true =>
            have hunconn := h.early (Or.inl hpc)
            exact ⟨⟨hstdin, h.unconnected, fun _ => hunconn, by simp⟩, by simp [hpc], rfl,
              ⟨[], by simp⟩, by simp, fun _ => rfl⟩
        | false => exact moved_exit h (by simp [hpc]) (by simp)
      · cases hnext
  | connect ok =>
      simp only [Client.next] at hnext
      split at hnext
      · rename_i hpc
        rw [hpc] at hstdin
        cases ok with
        | true =>
            have hunconn := h.early (Or.inr hpc)
            simp only [if_true] at hnext
            split at hnext
            · obtain rfl := Option.some.inj hnext
              exact ⟨⟨hstdin, (fun hno => nomatch hno), by simp, fun _ => rfl⟩, by simp [hpc], rfl,
                ⟨[], by simp⟩, fun _ => ⟨hunconn, rfl⟩, fun hno => absurd rfl hno⟩
            · cases hnext
        | false =>
            obtain rfl := Option.some.inj hnext
            exact moved_exit h (by simp [hpc]) (by simp)
      · cases hnext
  | read numRead =>
      simp only [Client.next] at hnext
      split at hnext
      · rename_i hpc
        rw [hpc] at hstdin
        cases numRead with
        | none =>
            obtain rfl := Option.some.inj hnext
            exact moved_exit h (by simp [hpc]) (by simp)
        | some n =>
            dsimp only at hnext
            split at hnext
            · split at hnext
              · obtain rfl := Option.some.inj hnext
                exact moved_exit h (by simp [hpc]) (by simp)
              · cases hnext
            · split at hnext
              · obtain rfl := Option.some.inj hnext
                have hconn := h.late (Or.inl hpc)
                refine ⟨⟨?_, h.unconnected, by simp, fun _ => hconn⟩, by simp [hpc], rfl,
                  ⟨[], by simp⟩, by simp, fun _ => rfl⟩
                show c.stdin = c.sent ++ c.rest.take n ++ c.rest.drop n
                rw [List.append_assoc, List.take_append_drop]
                exact hstdin
              · cases hnext
      · cases hnext
  | push n =>
      simp only [Client.next] at hnext
      split at hnext
      next chunk hpc =>
        rw [hpc] at hstdin
        split at hnext
        · rename_i hpush
          obtain rfl := Option.some.inj hnext
          have hconn := h.late (Or.inr ⟨chunk, hpc⟩)
          refine ⟨⟨?_, ?_, ?_, fun _ => hconn⟩, by simp [hpc], rfl, ⟨chunk.take n, rfl, rfl⟩,
            by simp, fun _ => rfl⟩
          · by_cases hall : n = chunk.length
            · simp only [if_pos hall]
              rw [List.take_of_length_le (Nat.le_of_eq hall.symm)]
              exact hstdin
            · simp only [if_neg hall]
              rw [List.append_assoc c.sent, List.take_append_drop]
              exact hstdin
          · intro hno
            exact nomatch hconn.symm.trans hno
          · intro hearly
            split at hearly <;> simp at hearly
        · cases hnext
      next => cases hnext
  | writeFails =>
      simp only [Client.next] at hnext
      split at hnext
      next chunk hpc =>
        obtain rfl := Option.some.inj hnext
        exact moved_exit h (by simp [hpc]) (by simp)
      next => cases hnext
  | kill =>
      simp only [Client.next] at hnext
      split at hnext
      · cases hnext
      · rename_i hpc
        obtain rfl := Option.some.inj hnext
        exact moved_exit h hpc (by simp)

/-! ## The server's output -/

/-- The streams of some connections, one after the other. -/
def State.sentBy (s : State) (is : List ℕ) : List UInt8 := is.flatMap fun i => (s.client i).sent

/-- `l` is what the server at this place has put out of the connection it serves. -/
def Part (client : ℕ → Client) (l : List UInt8) : Pc → Prop
  | .read i => (client i).sent = l ++ (client i).buf
  | .write i chunk => (client i).sent = l ++ chunk ++ (client i).buf
  | .close i => (client i).sent = l ∧ (client i).pc = .exited
  | .exited (some i) => l <+: (client i).sent
  | _ => l = []

/-- `l` is a part of the stream of the connection being served. -/
def PartOf (client : ℕ → Client) (l : List UInt8) : Option ℕ → Prop
  | none => l = []
  | some i => l <+: (client i).sent

structure Inv (s : State) : Prop where
  client : ∀ i, (s.client i).Ok
  connected : ∀ i ∈ s.accepted ++ s.pending, (s.client i).connected = true
  nodup : (s.accepted ++ s.pending).Nodup
  accepted : s.accepted = s.finished ++ s.pc.current.toList
  finished : ∀ i ∈ s.finished, (s.client i).pc = .exited
  /-- Nothing has been read from the other connections. -/
  unread : ∀ i ∉ s.accepted, (s.client i).sent = (s.client i).buf
  output : ∃ l, s.stdout = s.sentBy s.finished ++ l ∧ Part s.client l s.pc

variable {s t : State}

theorem inv_init (h : Init s) : Inv s where
  client i := by
    obtain ⟨stdin, hc⟩ := h.client i
    rw [hc]
    exact ⟨rfl, fun _ => ⟨rfl, rfl⟩, fun _ => rfl, by simp⟩
  connected := by simp [h.accepted, h.pending]
  nodup := by simp [h.accepted, h.pending]
  accepted := by simp [h.accepted, h.finished, h.pc, Pc.current]
  finished := by simp [h.finished]
  unread i _ := by
    obtain ⟨stdin, hc⟩ := h.client i
    rw [hc]
  output := ⟨[], by simp [h.stdout, h.finished, State.sentBy], by simp [Part, h.pc]⟩

theorem Part.partOf {client : ℕ → Client} {l : List UInt8} {pc : Pc} (h : Part client l pc) :
    PartOf client l pc.current := by
  cases pc with
  | read i =>
      have hsent : (client i).sent = l ++ (client i).buf := h
      exact ⟨_, hsent.symm⟩
  | write i chunk =>
      have hsent : (client i).sent = l ++ chunk ++ (client i).buf := h
      rw [List.append_assoc] at hsent
      exact ⟨_, hsent.symm⟩
  | close i =>
      obtain ⟨rfl, -⟩ := h
      exact List.prefix_rfl
  | exited serving =>
      cases serving with
      | none => exact h
      | some i => exact h
  | socket => exact h
  | remove => exact h
  | bind => exact h
  | listen => exact h
  | accept => exact h

theorem PartOf.exited {client : ℕ → Client} {l : List UInt8} {serving : Option ℕ}
    (h : PartOf client l serving) : Part client l (.exited serving) := by
  cases serving with
  | none => exact h
  | some i => exact h

/-- What clients add to their connections changes nothing about what has been put out; a connection
with a client that has ended stays as it is. -/
theorem Part.grows {client client' : ℕ → Client} {l : List UInt8} {pc : Pc} (h : Part client l pc)
    (hgrows : ∀ j, ∃ x, (client' j).sent = (client j).sent ++ x ∧
      (client' j).buf = (client j).buf ++ x)
    (hended : ∀ j, (client j).pc = .exited → client' j = client j) : Part client' l pc := by
  cases pc with
  | read j =>
      obtain ⟨x, hsent, hbuf⟩ := hgrows j
      have h : (client j).sent = l ++ (client j).buf := h
      calc (client' j).sent = l ++ (client j).buf ++ x := by rw [hsent, h]
        _ = l ++ (client' j).buf := by rw [hbuf, List.append_assoc]
  | write j chunk =>
      obtain ⟨x, hsent, hbuf⟩ := hgrows j
      have h : (client j).sent = l ++ chunk ++ (client j).buf := h
      calc (client' j).sent = l ++ chunk ++ (client j).buf ++ x := by rw [hsent, h]
        _ = l ++ chunk ++ (client' j).buf := by rw [hbuf, List.append_assoc]
  | close j =>
      obtain ⟨hsent, hexited⟩ := h
      show (client' j).sent = l ∧ (client' j).pc = .exited
      rw [hended j hexited]
      exact ⟨hsent, hexited⟩
  | exited serving =>
      cases serving with
      | none => exact h
      | some j =>
          obtain ⟨x, hsent, -⟩ := hgrows j
          show l <+: (client' j).sent
          rw [hsent]
          exact List.IsPrefix.trans h (List.prefix_append _ _)
  | socket => exact h
  | remove => exact h
  | bind => exact h
  | listen => exact h
  | accept => exact h

/-- The server ends. -/
theorem Inv.exits (h : Inv s) : Inv s.exit := by
  obtain ⟨l, hstdout, hpart⟩ := h.output
  exact ⟨h.client, h.connected, h.nodup, h.accepted, h.finished, h.unread, l, hstdout,
    hpart.partOf.exited⟩

/-- The server goes on from one place without a connection to another. -/
theorem Inv.idles (h : Inv s) (hcur : s.pc.current = none) {pc : Pc} {listening : Bool}
    (hpc : pc.current = none) (hpart : Part s.client [] pc) :
    Inv { s with pc := pc, listening := listening } := by
  obtain ⟨l, hstdout, hl⟩ := h.output
  have hnil := hl.partOf
  rw [hcur] at hnil
  obtain rfl : l = [] := hnil
  refine ⟨h.client, h.connected, h.nodup, ?_, h.finished, h.unread, [], hstdout, hpart⟩
  rw [hpc, ← hcur]
  exact h.accepted

theorem Pc.startup_idle {pc pc' : Pc} (h : pc.startup? = some pc') :
    pc.current = none ∧ pc'.current = none ∧ ∀ client, Part client [] pc' := by
  cases pc <;> simp only [Pc.startup?, reduceCtorEq, Option.some.injEq] at h
  all_goals
    subst h
    exact ⟨rfl, rfl, fun _ => rfl⟩

theorem Inv.accepts (h : Inv s) (hpc : s.pc = .accept) {i : ℕ} {pending : List ℕ}
    (hpending : s.pending = i :: pending) :
    Inv { s with pending := pending, accepted := s.accepted ++ [i], pc := .read i } := by
  obtain ⟨l, hstdout, hl⟩ := h.output
  rw [hpc] at hl
  obtain rfl : l = [] := hl
  have hsame : s.accepted ++ [i] ++ pending = s.accepted ++ s.pending := by
    rw [hpending, List.append_assoc, List.singleton_append]
  have haccepted : s.accepted = s.finished := by
    have haccepted := h.accepted
    rw [hpc] at haccepted
    simpa [Pc.current] using haccepted
  have hnew : i ∉ s.accepted := by
    have hnodup := h.nodup
    rw [hpending] at hnodup
    exact fun hmem => (List.nodup_append.mp hnodup).2.2 i hmem i List.mem_cons_self rfl
  refine ⟨h.client, ?_, ?_, ?_, h.finished, ?_, [], hstdout, ?_⟩
  · intro j hj
    rw [hsame] at hj
    exact h.connected j hj
  · rw [hsame]
    exact h.nodup
  · show s.accepted ++ [i] = s.finished ++ [i]
    rw [haccepted]
  · intro j hj
    exact h.unread j fun hmem => hj (List.mem_append_left _ hmem)
  · exact h.unread i hnew

/-- The connection being served has been accepted. -/
theorem Inv.current_accepted (h : Inv s) {i : ℕ} (hcur : s.pc.current = some i) :
    i ∈ s.accepted := by
  rw [h.accepted, hcur]
  exact List.mem_append_right _ List.mem_cons_self

/-- A part of the clients that a change of one client leaves alone. -/
theorem update_field {β : Type} (client : ℕ → Client) (i : ℕ) (f : Client → β)
    (hf : f c = f (client i)) (j : ℕ) : f (Function.update client i c j) = f (client j) := by
  by_cases hj : j = i
  · subst hj
    rw [Function.update_self, hf]
  · rw [Function.update_of_ne hj]

/-- The server takes bytes out of the connection it serves. -/
theorem Inv.takes (h : Inv s) {i : ℕ} (hpc : s.pc = .read i) (n : ℕ) :
    Inv { s with
      client := Function.update s.client i
        { s.client i with buf := (s.client i).buf.drop n }
      pc := .write i ((s.client i).buf.take n) } := by
  obtain ⟨l, hstdout, hl⟩ := h.output
  rw [hpc] at hl
  have hsent : (s.client i).sent = l ++ (s.client i).buf := hl
  have hmem := h.current_accepted (i := i) (by rw [hpc]; rfl)
  -- only the buffer of the connection changes
  have hconn := update_field s.client i Client.connected
    (c := { s.client i with buf := (s.client i).buf.drop n }) rfl
  have hpcs := update_field s.client i Client.pc
    (c := { s.client i with buf := (s.client i).buf.drop n }) rfl
  have hsents := update_field s.client i Client.sent
    (c := { s.client i with buf := (s.client i).buf.drop n }) rfl
  refine ⟨?_, ?_, h.nodup, ?_, ?_, ?_, l, ?_, ?_⟩
  · refine (Function.forall_update_iff _ fun _ (c : Client) => c.Ok).mpr
      ⟨?_, fun j _ => h.client j⟩
    have hconn := h.connected i (List.mem_append_left _ hmem)
    have hok := h.client i
    exact ⟨hok.stdin, fun hno => (nomatch hconn.symm.trans hno), hok.early, hok.late⟩
  · intro j hj
    exact (hconn j).trans (h.connected j hj)
  · have haccepted := h.accepted
    rw [hpc] at haccepted
    exact haccepted
  · intro j hj
    exact (hpcs j).trans (h.finished j hj)
  · intro j hj
    have hne : j ≠ i := fun heq => hj (heq ▸ hmem)
    show (Function.update s.client i _ j).sent = (Function.update s.client i _ j).buf
    rw [Function.update_of_ne hne]
    exact h.unread j hj
  · rw [hstdout]
    congr 1
    exact List.flatMap_congr fun j _ => (hsents j).symm
  · show (Function.update s.client i _ i).sent
      = l ++ (s.client i).buf.take n ++ (Function.update s.client i _ i).buf
    rw [Function.update_self]
    calc (s.client i).sent = l ++ (s.client i).buf := hsent
      _ = l ++ ((s.client i).buf.take n ++ (s.client i).buf.drop n) := by
          rw [List.take_append_drop]
      _ = l ++ (s.client i).buf.take n ++ (s.client i).buf.drop n :=
          (List.append_assoc _ _ _).symm

theorem Inv.reads (h : Inv s) {i : ℕ} (hpc : s.pc = .read i) {numRead : Option ℕ}
    (hnext : s.readFrom i numRead = some t) : Inv t := by
  cases numRead with
  | none =>
      obtain rfl := Option.some.inj hnext
      exact h.exits
  | some n =>
      simp only [State.readFrom] at hnext
      split at hnext
      · split at hnext
        · rename_i heof
          obtain rfl := Option.some.inj hnext
          obtain ⟨l, hstdout, hl⟩ := h.output
          rw [hpc] at hl
          have hsent : (s.client i).sent = l ++ (s.client i).buf := hl
          refine ⟨h.client, h.connected, h.nodup, ?_, h.finished, h.unread, l, hstdout, ?_, heof.2⟩
          · have haccepted := h.accepted
            rw [hpc] at haccepted
            exact haccepted
          · rw [hsent, heof.1, List.append_nil]
        · cases hnext
      · split at hnext
        · obtain rfl := Option.some.inj hnext
          exact h.takes hpc n
        · cases hnext

theorem Inv.writes (h : Inv s) {i : ℕ} {chunk : List UInt8} (hpc : s.pc = .write i chunk)
    {n : Option ℕ} (hnext : s.writeOut i chunk n = some t) : Inv t := by
  obtain ⟨l, hstdout, hl⟩ := h.output
  rw [hpc] at hl
  have hsent : (s.client i).sent = l ++ chunk ++ (s.client i).buf := hl
  have haccepted := h.accepted
  rw [hpc] at haccepted
  cases n with
  | none =>
      obtain rfl := Option.some.inj hnext
      exact h.exits
  | some n =>
      simp only [State.writeOut] at hnext
      split at hnext
      · obtain rfl := Option.some.inj hnext
        refine ⟨h.client, h.connected, h.nodup, haccepted, h.finished, h.unread, l ++ chunk, ?_,
          hsent⟩
        rw [hstdout, List.append_assoc]
        rfl
      · split at hnext
        · obtain rfl := Option.some.inj hnext
          refine ⟨h.client, h.connected, h.nodup, h.accepted, h.finished, h.unread,
            l ++ chunk.take n, ?_, ?_⟩
          · rw [hstdout, List.append_assoc]
            rfl
          · -- the end of the chunk is lost, but so is all that would follow it
            have hcur : s.pc.current = some i := by rw [hpc]; rfl
            show Part s.client _ (.exited s.pc.current)
            rw [hcur]
            refine ⟨chunk.drop n ++ (s.client i).buf, ?_⟩
            calc l ++ chunk.take n ++ (chunk.drop n ++ (s.client i).buf)
                = l ++ (chunk.take n ++ chunk.drop n) ++ (s.client i).buf := by
                  simp only [List.append_assoc]
              _ = l ++ chunk ++ (s.client i).buf := by rw [List.take_append_drop]
              _ = (s.client i).sent := hsent.symm
        · cases hnext

theorem Inv.closes (h : Inv s) {i : ℕ} (hpc : s.pc = .close i) :
    Inv { s with finished := s.finished ++ [i], pc := .accept } := by
  obtain ⟨l, hstdout, hl⟩ := h.output
  rw [hpc] at hl
  obtain ⟨hsent, hexited⟩ := hl
  refine ⟨h.client, h.connected, h.nodup, ?_, ?_, h.unread, [], ?_, rfl⟩
  · have haccepted := h.accepted
    rw [hpc] at haccepted
    show s.accepted = s.finished ++ [i] ++ []
    rw [List.append_nil]
    exact haccepted
  · intro j hj
    rcases List.mem_append.mp hj with hold | hnew
    · exact h.finished j hold
    · obtain rfl := List.mem_singleton.mp hnew
      exact hexited
  · show s.stdout = s.sentBy (s.finished ++ [i]) ++ []
    rw [hstdout, State.sentBy, State.sentBy, List.flatMap_append, List.append_nil, ← hsent]
    simp

/-- A client puts bytes into its connection, or makes it. -/
theorem Inv.moves (h : Inv s) {i : ℕ} {p : Prop} [Decidable p] {c : Client}
    (hc : (s.client i).Moved c p) :
    Inv { s with
      client := Function.update s.client i c
      pending := if p then s.pending ++ [i] else s.pending } := by
  obtain ⟨l, hstdout, hl⟩ := h.output
  obtain ⟨x, hsent, hbuf⟩ := hc.sends
  have hunfinished : i ∉ s.finished := fun hmem => hc.live (h.finished i hmem)
  have hgrows : ∀ j, ∃ x, (Function.update s.client i c j).sent = (s.client j).sent ++ x ∧
      (Function.update s.client i c j).buf = (s.client j).buf ++ x := by
    intro j
    by_cases hj : j = i
    · subst hj
      rw [Function.update_self]
      exact ⟨x, hsent, hbuf⟩
    · rw [Function.update_of_ne hj]
      exact ⟨[], by simp⟩
  have hconn : ∀ j, (s.client j).connected = true →
      (Function.update s.client i c j).connected = true := by
    intro j hj
    by_cases hji : j = i
    · subst hji
      rw [Function.update_self]
      by_cases hp : p
      · exact (hc.connects hp).2
      · rw [hc.stays hp]
        exact hj
    · rwa [Function.update_of_ne hji]
  refine ⟨?_, ?_, ?_, h.accepted, ?_, ?_, l, ?_, ?_⟩
  · exact (Function.forall_update_iff _ fun _ (c : Client) => c.Ok).mpr
      ⟨hc.ok, fun j _ => h.client j⟩
  · intro j hj
    by_cases hp : p
    · rw [if_pos hp, ← List.append_assoc] at hj
      rcases List.mem_append.mp hj with hold | hnew
      · exact hconn j (h.connected j hold)
      · obtain rfl := List.mem_singleton.mp hnew
        show (Function.update s.client j c j).connected = true
        rw [Function.update_self]
        exact (hc.connects hp).2
    · rw [if_neg hp] at hj
      exact hconn j (h.connected j hj)
  · by_cases hp : p
    · rw [if_pos hp, ← List.append_assoc]
      refine List.nodup_append.mpr ⟨h.nodup, List.nodup_singleton i, ?_⟩
      rintro j hj k hk rfl
      obtain rfl := List.mem_singleton.mp hk
      exact nomatch (hc.connects hp).1.symm.trans (h.connected j hj)
    · rw [if_neg hp]
      exact h.nodup
  · intro j hj
    have hne : j ≠ i := fun heq => hunfinished (heq ▸ hj)
    show (Function.update s.client i c j).pc = .exited
    rw [Function.update_of_ne hne]
    exact h.finished j hj
  · intro j hj
    obtain ⟨y, hy, hy'⟩ := hgrows j
    show (Function.update s.client i c j).sent = (Function.update s.client i c j).buf
    rw [hy, hy', h.unread j hj]
  · rw [hstdout]
    congr 1
    refine List.flatMap_congr fun j hj => ?_
    have hne : j ≠ i := fun heq => hunfinished (heq ▸ hj)
    show _ = (Function.update s.client i c j).sent
    rw [Function.update_of_ne hne]
  · refine Part.grows hl hgrows fun j hexited => ?_
    have hne : j ≠ i := fun heq => hc.live (heq ▸ hexited)
    exact Function.update_of_ne hne _ _

theorem Inv.step {a : Act} (h : Inv s) (hnext : s.next a = some t) : Inv t := by
  cases a with
  | startup ok =>
      simp only [State.next] at hnext
      split at hnext
      · cases hnext
      · rename_i pc hstart
        obtain rfl := Option.some.inj hnext
        obtain ⟨hcur, hcur', hpart⟩ := Pc.startup_idle hstart
        cases ok with
        | true => exact h.idles hcur hcur' (hpart _)
        | false => exact h.exits
  | listen ok =>
      simp only [State.next] at hnext
      split at hnext
      · rename_i hpc
        obtain rfl := Option.some.inj hnext
        exact h.idles (by rw [hpc]; rfl) rfl rfl
      · cases hnext
  | accept ok =>
      simp only [State.next] at hnext
      split at hnext
      · rename_i hpc
        cases ok with
        | true =>
            simp only [if_true] at hnext
            split at hnext
            · cases hnext
            · rename_i i pending hpending
              obtain rfl := Option.some.inj hnext
              exact h.accepts hpc hpending
        | false =>
            obtain rfl := Option.some.inj hnext
            exact h.exits
      · cases hnext
  | read numRead =>
      simp only [State.next] at hnext
      split at hnext
      next i hpc => exact h.reads hpc hnext
      next => cases hnext
  | write n =>
      simp only [State.next] at hnext
      split at hnext
      next i chunk hpc => exact h.writes hpc hnext
      next => cases hnext
  | close ok =>
      simp only [State.next] at hnext
      split at hnext
      next i hpc =>
        obtain rfl := Option.some.inj hnext
        cases ok with
        | true => exact h.closes hpc
        | false => exact h.exits
      next => cases hnext
  | kill =>
      simp only [State.next] at hnext
      split at hnext
      · cases hnext
      · obtain rfl := Option.some.inj hnext
        exact h.exits
  | client i a =>
      obtain ⟨c, hc, rfl⟩ := Option.map_eq_some_iff.mp hnext
      exact h.moves (Client.next_moved (h.client i) hc)

/-- The transfer in a state of the run. -/
structure Faithful (s : State) : Prop where
  /-- The streams of the finished connections, in the order they were accepted, then a part of the
  stream of the one being served. -/
  stdout : ∃ l, s.stdout = s.sentBy s.finished ++ l ∧ PartOf s.client l s.pc.current
  order : s.accepted = s.finished ++ s.pc.current.toList
  once : s.accepted.Nodup
  /-- A finished connection is complete: its client has ended, so it sends nothing more. -/
  complete : ∀ i ∈ s.finished, (s.client i).pc = .exited
  sent : ∀ i, (s.client i).sent <+: (s.client i).stdin

/-- **stream_sock_xfr transfers faithfully.** With any number of clients, whatever the clients read,
however the connection splits it, and whenever something fails. -/
theorem stream_xfr_faithful (h : system.Reachable s) : Faithful s := by
  have hinv : Inv s := h.invariant (P := Inv) (fun s hs => inv_init hs)
    (fun s a t hs hnext => hs.step hnext)
  obtain ⟨l, hstdout, hpart⟩ := hinv.output
  exact ⟨⟨l, hstdout, hpart.partOf⟩, hinv.accepted, (List.nodup_append.mp hinv.nodup).1,
    hinv.finished, fun i => (hinv.client i).sent_le_stdin⟩

/-- Two clients, with "abc" and with "x" to send. -/
def twoClients : State where
  client i := match i with
    | 0 => ⟨[97, 98, 99], [97, 98, 99], .socket, false, [], []⟩
    | 1 => ⟨[120], [120], .socket, false, [], []⟩
    | _ => ⟨[], [], .socket, false, [], []⟩
  pc := .socket
  listening := false
  pending := []
  accepted := []
  finished := []
  stdout := []

/-- The first client is served to its end; then the write of what the second one sent fails. -/
def twoClientsRun : List Act :=
  [.startup true, .startup true, .startup true, .listen true,
    .client 1 (.socket true), .client 0 (.socket true),
    .client 0 (.connect true), .client 1 (.connect true), .accept true,
    .client 0 (.read (some 2)), .client 0 (.push 1), .read (some 1), .client 0 (.push 1),
    .write (some 1), .client 1 (.read (some 1)), .client 1 (.push 1),
    .client 0 (.read (some 1)), .client 0 (.push 1), .read (some 2), .client 0 (.read (some 0)),
    .write (some 2), .read (some 0), .close true, .accept true, .read (some 1), .write none]

theorem twoClients_faithful :
    ∃ s, system.run twoClients twoClientsRun = some s ∧ s.stdout = [97, 98, 99] ∧
      s.finished = [0] ∧ Faithful s := by
  have hrun : system.run twoClients twoClientsRun = some _ := (Option.some_get (by decide)).symm
  refine ⟨_, hrun, by decide, by decide, stream_xfr_faithful ?_⟩
  refine ⟨twoClients, twoClientsRun, ⟨?_, rfl, rfl, rfl, rfl, rfl, rfl⟩, hrun⟩
  intro i
  match i with
  | 0 => exact ⟨_, rfl⟩
  | 1 => exact ⟨_, rfl⟩
  | i + 2 => exact ⟨_, rfl⟩

end Tlpi.StreamXfr